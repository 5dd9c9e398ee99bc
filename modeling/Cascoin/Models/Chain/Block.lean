import Cascoin.Models.Primitives.Transaction

/-!
# Blocks, block indexes and the active chain

A `CBlockIndex*` that is not null is modelled by the entry it points to and the
entries its `pprev` pointers reach, nearest first. Every index of the node's
block tree reaches the genesis block this way, so the structure carries the two
facts the code relies on: heights step down by one to height 0, and each
header names the hash of the entry before it. Walking `pprev` is then a
recursion over a list, and "`pprev` is null" means the list has ended.

`CChain` is the active chain by its tip; `chainActive[h]` is the ancestor at
height `h` of the tip, or `nullptr` outside `[0, Height()]`, as `vChain[h]` is.
-/

namespace Cascoin

/-- `CBlockHeader`. -/
structure CBlockHeader where
  nVersion : Int
  hashPrevBlock : Uint256
  hashMerkleRoot : Uint256
  nTime : UInt32
  nBits : UInt32
  nNonce : UInt32
  deriving DecidableEq

/-- `CBlockHeader::IsHiveMined`: the nonce is the network's hive marker. -/
def CBlockHeader.IsHiveMined (header : CBlockHeader) (hiveNonceMarker : UInt32) : Bool :=
  header.nNonce == hiveNonceMarker

/-- `CBlock`: the header, the transactions and the `fChecked` cache of `CheckBlock`. -/
structure CBlock where
  header : CBlockHeader
  vtx : List CTransaction
  fChecked : Bool
  deriving DecidableEq

/-- The data of one `CBlockIndex` entry that the modelled code reads. -/
structure BlockIndexEntry where
  /-- `*phashBlock`. -/
  phashBlock : Uint256
  nHeight : Int
  /-- `GetBlockHeader()`. -/
  header : CBlockHeader
  /-- `nStatus & BLOCK_HAVE_DATA`. -/
  haveData : Bool
  nTx : Nat
  deriving DecidableEq

/-- Heights step down by one along `pprev`, to 0 at the first block. -/
def HeightsDescend : List BlockIndexEntry → Prop
  | [] => True
  | e :: rest => e.nHeight = rest.length ∧ HeightsDescend rest

/-- Each header names the hash of the entry its `pprev` points to. -/
def LinkedByHash : List BlockIndexEntry → Prop
  | e :: f :: rest => e.header.hashPrevBlock = f.phashBlock ∧ LinkedByHash (f :: rest)
  | _ => True

/-- A non-null `CBlockIndex*`: the entry and its `pprev` chain down to the genesis
block. -/
structure CBlockIndex where
  entry : BlockIndexEntry
  ancestors : List BlockIndexEntry
  heights : HeightsDescend (entry :: ancestors)
  linked : LinkedByHash (entry :: ancestors)

namespace CBlockIndex

/-- The entry and every entry `pprev` reaches, nearest first. -/
def path (p : CBlockIndex) : List BlockIndexEntry := p.entry :: p.ancestors

/-- `pindex->nHeight`. -/
def nHeight (p : CBlockIndex) : Int := p.entry.nHeight

/-- `pindex->GetBlockHeader()`. -/
def header (p : CBlockIndex) : CBlockHeader := p.entry.header

/-- `pindex->GetBlockHash()`. -/
def hash (p : CBlockIndex) : Uint256 := p.entry.phashBlock

theorem nHeight_eq (p : CBlockIndex) : p.nHeight = p.ancestors.length := p.heights.1

theorem nHeight_nonneg (p : CBlockIndex) : 0 ≤ p.nHeight := by
  rw [nHeight_eq]
  omega

/-- `pindex->pprev`, `none` for the genesis block. -/
def pprev (p : CBlockIndex) : Option CBlockIndex :=
  match p.ancestors, p.heights, p.linked with
  | [], _, _ => none
  | e :: rest, heights, linked => some ⟨e, rest, heights.2, by
      cases rest with
      | nil => trivial
      | cons f rest => exact linked.2⟩

theorem pprev_eq_none_iff (p : CBlockIndex) : p.pprev = none ↔ p.nHeight = 0 := by
  rcases p with ⟨e, _ | ⟨f, rest⟩, heights, linked⟩
  · simp [pprev, nHeight, heights.1]
  · simp [pprev, nHeight, heights.1]
    omega

theorem nHeight_pprev {p q : CBlockIndex} (h : p.pprev = some q) : q.nHeight = p.nHeight - 1 := by
  rcases p with ⟨e, _ | ⟨f, rest⟩, heights, linked⟩
  · simp [pprev] at h
  · simp only [pprev, Option.some.injEq] at h
    subst h
    simp [nHeight, heights.1, heights.2.1]

/-- The parent's path is what lies behind the index. -/
theorem path_pprev {p q : CBlockIndex} (h : p.pprev = some q) : q.path = p.ancestors := by
  rcases p with ⟨e, _ | ⟨f, rest⟩, heights, linked⟩
  · simp [pprev] at h
  · simp only [pprev, Option.some.injEq] at h
    subst h
    rfl

/-- Following `pprev` shortens the chain behind the index. -/
theorem ancestors_length_pprev {p q : CBlockIndex} (h : p.pprev = some q) :
    q.ancestors.length < p.ancestors.length := by
  have hq := nHeight_pprev h
  rw [nHeight_eq, nHeight_eq] at hq
  omega

/-- The index `AddToBlockIndex` makes for a header with no parent: height 0,
`pprev` null. -/
def genesis (phashBlock : Uint256) (header : CBlockHeader) (haveData : Bool) (nTx : Nat) :
    CBlockIndex :=
  ⟨⟨phashBlock, 0, header, haveData, nTx⟩, [], ⟨rfl, trivial⟩, trivial⟩

/-- The index `AddToBlockIndex` makes for a header whose parent is `p`:
`pprev = p` and `nHeight = pprev->nHeight + 1`. -/
def extend (p : CBlockIndex) (phashBlock : Uint256) (header : CBlockHeader) (haveData : Bool)
    (nTx : Nat) (hprev : header.hashPrevBlock = p.hash) : CBlockIndex where
  entry := ⟨phashBlock, p.nHeight + 1, header, haveData, nTx⟩
  ancestors := p.path
  heights := ⟨by simp [path, nHeight_eq], p.heights⟩
  linked := ⟨hprev, p.linked⟩

theorem pprev_extend (p : CBlockIndex) (phashBlock : Uint256) (header : CBlockHeader)
    (haveData : Bool) (nTx : Nat) (hprev : header.hashPrevBlock = p.hash) :
    (p.extend phashBlock header haveData nTx hprev).pprev = some p := by
  rcases p with ⟨e, ancestors, heights, linked⟩
  rfl

/-- The ancestor at height `h` (`GetAncestor`), read off the `pprev` chain. -/
def ancestorAt (p : CBlockIndex) (h : Int) : Option CBlockIndex :=
  if h < 0 ∨ p.nHeight < h then none
  else go p (p.nHeight - h).toNat
where
  /-- Follow `pprev` the given number of times. -/
  go (q : CBlockIndex) : Nat → Option CBlockIndex
    | 0 => some q
    | n + 1 => q.pprev.bind fun r => go r n

end CBlockIndex

/-- `CChain`, by its tip; `none` is the empty chain. -/
abbrev CChain := Option CBlockIndex

/-- `chainActive[nHeight]`: `nullptr` outside `[0, Height()]`. -/
def CChain.get (chain : CChain) (nHeight : Int) : Option CBlockIndex :=
  chain.bind fun tip => tip.ancestorAt nHeight

/-- `chainActive.Height()`, `-1` for the empty chain. -/
def CChain.Height (chain : CChain) : Int :=
  match chain with
  | some tip => tip.nHeight
  | none => -1

/-- `uint256::GetHex`: 64 lowercase hex digits, most significant first. -/
def Uint256.GetHex (h : Uint256) : List UInt8 := Bytes.HexStr (Bytes.leBytes h.toNat 32).reverse

/-- `isspace` in the C locale. -/
def isSpace (c : UInt8) : Bool := c = 0x20 ∨ (0x09 ≤ c ∧ c ≤ 0x0d)

/-- The value of a string of hex digits, most significant first. -/
def hexValue (digits : List Nat) : Nat := digits.foldl (fun acc d => 16 * acc + d) 0

/-- `uint256S(str)` (`base_blob::SetHex` on `str.c_str()`): skip leading spaces and
`0x`, read the hex digits that follow, and keep the last 64 of them. -/
def uint256S (str : List UInt8) : Uint256 :=
  let s := (str.takeWhile (· ≠ 0)).dropWhile isSpace
  let s := if s.take 2 = [0x30, 0x78] ∨ s.take 2 = [0x30, 0x58] then s.drop 2 else s
  let digits := (s.takeWhile fun c => (Bytes.HexDigit c).isSome).filterMap Bytes.HexDigit
  ⟨hexValue (digits.drop (digits.length - 64)) % 2 ^ 256, Nat.mod_lt _ (by decide)⟩

end Cascoin
