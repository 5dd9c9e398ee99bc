import Mathlib.Tactic.Ring
import Cascoin.Models.Consensus.Merkle
import Cascoin.Models.Consensus.TxVerify

/-!
# Partial merkle trees

`CPartialMerkleTree` of `merkleblock.cpp` shows that some transactions are in a block
without sending the others. The constructor walks the merkle tree depth first
(`TraverseAndBuild`): at each node it stores one flag bit, whether a matched transaction
is below, and at a leaf or above no match it stores the node's hash (`CalcHash`) instead
of walking on. `ExtractMatches` walks the same way through the bits and hashes
(`TraverseAndExtract`), rebuilds the root and collects the matched txids with their
positions. It returns the null hash on malformed data: too many transactions or hashes,
too few bits, a walk that runs out of bits or hashes, bits or hashes left over, or two
equal siblings on the way (`fBad`).

The levels of the tree are those of `MerkleTree.level`, and `CalcTreeWidth` is the length
of a level. What a walk stores is described by `PartialWalk`: the constructor produces a
walk of the whole tree, and `TraverseAndExtract` reads any walk back when no two siblings
of the tree are equal, rebuilding the nodes and finding the matches under them in order.
Equal siblings are what `fBad` rejects, so a collision of the hash between two sibling
nodes makes `ExtractMatches` fail on the tree of distinct txids.
-/

namespace Cascoin

open MerkleTree

/-- `MIN_TRANSACTION_WEIGHT`. -/
def MIN_TRANSACTION_WEIGHT : ℕ := WITNESS_SCALE_FACTOR * 60

/-- A `CPartialMerkleTree`: the number of transactions of the block, the flag bits and the
hashes of a walk, and `fBad`. -/
structure CPartialMerkleTree where
  nTransactions : ℕ
  vBits : List Bool
  vHash : List Uint256
  fBad : Bool
  deriving DecidableEq

/-- `CalcTreeWidth(height)`: the number of nodes at `height`. -/
def CalcTreeWidth (nTransactions height : ℕ) : ℕ :=
  (nTransactions + (1 <<< height) - 1) >>> height

/-- `while (CalcTreeWidth(nHeight) > 1) nHeight++;`, for at most `fuel` turns. -/
def TreeHeightFrom (nTransactions : ℕ) : ℕ → ℕ → ℕ
  | 0, nHeight => nHeight
  | fuel + 1, nHeight =>
    if CalcTreeWidth nTransactions nHeight > 1 then TreeHeightFrom nTransactions fuel (nHeight + 1)
    else nHeight

/-- The height of the tree, the loop started at `nHeight = 0`: it stops within
`nTransactions` turns (`TreeHeight_spec`). -/
def TreeHeight (nTransactions : ℕ) : ℕ := TreeHeightFrom nTransactions nTransactions 0

/-- The locals and out-parameters a walk of `TraverseAndExtract` updates: `nBitsUsed`,
`nHashUsed`, `vMatch`, `vnIndex`, and the tree's `fBad`. -/
structure ExtractState where
  nBitsUsed : ℕ
  nHashUsed : ℕ
  vMatch : List Uint256
  vnIndex : List ℕ
  fBad : Bool
  deriving DecidableEq

section Model

variable {ε : Type} (Hash : Uint256 → Uint256 → Uint256)

/-- `CalcHash(height, pos, vTxid)`: the hash of node `pos` at `height`, a node without a
right child hashing its left one with itself. -/
def CalcHash (nTransactions : ℕ) (vTxid : List Uint256) : ℕ → ℕ → Checked ε Uint256
  | 0, pos => do
    Checked.assert (vTxid.length != 0)
    Checked.get vTxid pos
  | height + 1, pos => do
    Checked.assert (vTxid.length != 0)
    let left ← CalcHash nTransactions vTxid height (pos * 2)
    let right ← if pos * 2 + 1 < CalcTreeWidth nTransactions height then
        CalcHash nTransactions vTxid height (pos * 2 + 1)
      else pure left
    return Hash left right

/-- The loop of `TraverseAndBuild` over the leaves under a node:
```
for (p = pos << height; p < (pos+1) << height && p < nTransactions; p++)
    fParentOfMatch |= vMatch[p];
```
-/
def ParentOfMatch (vMatch : List Bool) (nTransactions height pos : ℕ) : Checked ε Bool :=
  (List.range' (pos <<< height) (min ((pos + 1) <<< height) nTransactions - pos <<< height)).foldlM
    (fun fParentOfMatch p => do return fParentOfMatch || (← Checked.get vMatch p)) false

/-- `TraverseAndBuild(height, pos, vTxid, vMatch)`: the flag bit of the node, then its hash
at height 0 or above no match, else the walks of its subtrees. -/
def TraverseAndBuild (vTxid : List Uint256) (vMatch : List Bool) :
    ℕ → ℕ → CPartialMerkleTree → Checked ε CPartialMerkleTree
  | 0, pos, t => do
    let fParentOfMatch ← ParentOfMatch vMatch t.nTransactions 0 pos
    let t := { t with vBits := t.vBits ++ [fParentOfMatch] }
    return { t with vHash := t.vHash ++ [← CalcHash Hash t.nTransactions vTxid 0 pos] }
  | height + 1, pos, t => do
    let fParentOfMatch ← ParentOfMatch vMatch t.nTransactions (height + 1) pos
    let t := { t with vBits := t.vBits ++ [fParentOfMatch] }
    if !fParentOfMatch then
      return { t with vHash := t.vHash ++ [← CalcHash Hash t.nTransactions vTxid (height + 1) pos] }
    else
      let t ← TraverseAndBuild vTxid vMatch height (pos * 2) t
      if pos * 2 + 1 < CalcTreeWidth t.nTransactions height then
        TraverseAndBuild vTxid vMatch height (pos * 2 + 1) t
      else return t

/-- `CPartialMerkleTree(vTxid, vMatch)`. -/
def CPartialMerkleTree.ofTxids (vTxid : List Uint256) (vMatch : List Bool) :
    Checked ε CPartialMerkleTree :=
  TraverseAndBuild Hash vTxid vMatch (TreeHeight vTxid.length) 0 ⟨vTxid.length, [], [], false⟩

/-- The branch of `TraverseAndExtract` that uses a stored hash; at height 0 with the flag
set, the hash is a matched txid. -/
def useStoredHash (t : CPartialMerkleTree) (height pos : ℕ) (fParentOfMatch : Bool)
    (s : ExtractState) : Uint256 × ExtractState :=
  -- `nHashUsed >= vHash.size()`: the walk ran out of hashes
  match t.vHash[s.nHashUsed]? with
  | none => (Uint256.zero, { s with fBad := true })
  | some hash =>
    let s := { s with nHashUsed := s.nHashUsed + 1 }
    if height = 0 ∧ fParentOfMatch = true then
      (hash, { s with vMatch := s.vMatch ++ [hash], vnIndex := s.vnIndex ++ [pos] })
    else (hash, s)

/-- `TraverseAndExtract(height, pos, nBitsUsed, nHashUsed, vMatch, vnIndex)`; a walk that
runs out of bits (`nBitsUsed >= vBits.size()`) sets `fBad`. -/
def TraverseAndExtract (t : CPartialMerkleTree) : ℕ → ℕ → ExtractState → Uint256 × ExtractState
  | 0, pos, s =>
    match t.vBits[s.nBitsUsed]? with
    | none => (Uint256.zero, { s with fBad := true })
    | some fParentOfMatch =>
      useStoredHash t 0 pos fParentOfMatch { s with nBitsUsed := s.nBitsUsed + 1 }
  | height + 1, pos, s =>
    match t.vBits[s.nBitsUsed]? with
    | none => (Uint256.zero, { s with fBad := true })
    | some false => useStoredHash t (height + 1) pos false { s with nBitsUsed := s.nBitsUsed + 1 }
    | some true =>
      let s := { s with nBitsUsed := s.nBitsUsed + 1 }
      let (left, s) := TraverseAndExtract t height (pos * 2) s
      if pos * 2 + 1 < CalcTreeWidth t.nTransactions height then
        let (right, s) := TraverseAndExtract t height (pos * 2 + 1) s
        -- the two subtrees cover distinct txids, so equal hashes mean malformed data
        (Hash left right, if right = left then { s with fBad := true } else s)
      else (Hash left left, s)

/-- `ExtractMatches(vMatch, vnIndex)`: the root, with the walk's state (`vMatch` cleared
first, `vnIndex` not); the null hash when a check fails, with the state it stopped in. -/
def ExtractMatches (t : CPartialMerkleTree) (vnIndex : List ℕ) : Uint256 × ExtractState :=
  let s : ExtractState := ⟨0, 0, [], vnIndex, t.fBad⟩
  if t.nTransactions = 0 then (Uint256.zero, s)
  else if t.nTransactions > MAX_BLOCK_WEIGHT / MIN_TRANSACTION_WEIGHT then (Uint256.zero, s)
  else if t.vHash.length > t.nTransactions then (Uint256.zero, s)
  else if t.vBits.length < t.vHash.length then (Uint256.zero, s)
  else
    let (hashMerkleRoot, s) := TraverseAndExtract Hash t (TreeHeight t.nTransactions) 0 s
    if s.fBad then (Uint256.zero, s)
    -- all bits used but the padding to a whole byte
    else if (s.nBitsUsed + 7) / 8 ≠ (t.vBits.length + 7) / 8 then (Uint256.zero, s)
    else if s.nHashUsed ≠ t.vHash.length then (Uint256.zero, s)
    else (hashMerkleRoot, s)

end Model

/-! ## Widths and the height -/

theorem CalcTreeWidth_eq (n height : ℕ) :
    CalcTreeWidth n height = (n + 2 ^ height - 1) / 2 ^ height := by
  simp [CalcTreeWidth, Nat.shiftLeft_eq, Nat.shiftRight_eq_div_pow]

/-- The width of a level of the tree of `T` is the level's length. -/
theorem CalcTreeWidth_eq_length (Hash : Uint256 → Uint256 → Uint256) (T : List Uint256)
    (height : ℕ) : CalcTreeWidth T.length height = (level Hash height T).length := by
  rw [CalcTreeWidth_eq, length_level]

/-- Node `pos` exists at `height` when its first leaf does. -/
theorem lt_CalcTreeWidth_iff {n height pos : ℕ} :
    pos < CalcTreeWidth n height ↔ pos * 2 ^ height < n := by
  have hpos := Nat.two_pow_pos height
  rw [CalcTreeWidth_eq, Nat.lt_iff_add_one_le, Nat.le_div_iff_mul_le hpos, Nat.add_one_mul]
  omega

theorem CalcTreeWidth_le_one_iff {n height : ℕ} : CalcTreeWidth n height ≤ 1 ↔ n ≤ 2 ^ height := by
  rw [← Nat.not_lt, lt_CalcTreeWidth_iff, Nat.one_mul, Nat.not_lt]

/-- The loop stops at the first height of width at most one, if it has the turns to reach it. -/
theorem TreeHeightFrom_spec {n : ℕ} :
    ∀ fuel nHeight, n ≤ 2 ^ (nHeight + fuel) → (∀ i < nHeight, 1 < CalcTreeWidth n i) →
      CalcTreeWidth n (TreeHeightFrom n fuel nHeight) ≤ 1 ∧
        ∀ i < TreeHeightFrom n fuel nHeight, 1 < CalcTreeWidth n i := by
  intro fuel
  induction fuel with
  | zero =>
    intro nHeight hfit hbelow
    exact ⟨CalcTreeWidth_le_one_iff.mpr hfit, hbelow⟩
  | succ fuel ih =>
    intro nHeight hfit hbelow
    rw [TreeHeightFrom]
    split
    · case isTrue hwide =>
      refine ih (nHeight + 1) (by rwa [Nat.add_right_comm, Nat.add_assoc]) ?_
      intro i hi
      rcases Nat.lt_succ_iff_lt_or_eq.mp hi with hi | rfl
      · exact hbelow i hi
      · exact hwide
    · case isFalse hnarrow => exact ⟨Nat.le_of_not_lt hnarrow, hbelow⟩

/-- `nTransactions` turns are enough: the tree's height is the first of width at most one. -/
theorem TreeHeight_spec (n : ℕ) :
    CalcTreeWidth n (TreeHeight n) ≤ 1 ∧ ∀ i < TreeHeight n, 1 < CalcTreeWidth n i :=
  TreeHeightFrom_spec n 0 (by simpa using Nat.lt_two_pow_self.le) fun i hi =>
    absurd hi (Nat.not_lt_zero i)

/-- The top level of the tree of `T`, at `TreeHeight`, holds its root. -/
theorem merkleRoot_eq_TreeHeight (Hash : Uint256 → Uint256 → Uint256) {T : List Uint256}
    (hne : T ≠ []) : merkleRoot Hash T = (level Hash (TreeHeight T.length) T)[0]? := by
  obtain ⟨hone, hbelow⟩ := TreeHeight_spec T.length
  have hpos : 0 < CalcTreeWidth T.length (TreeHeight T.length) := by
    rw [lt_CalcTreeWidth_iff, Nat.zero_mul]
    exact List.length_pos_iff.mpr hne
  refine merkleRoot_eq_level Hash _ ?_ fun i hi => ?_
  · rw [← CalcTreeWidth_eq_length]
    omega
  · rw [← CalcTreeWidth_eq_length]
    exact hbelow i hi

/-! ## The leaves under a node -/

/-- The leaves `pos * 2^height` to `(pos + 1) * 2^height - 1` under node `pos` at `height`,
cut at `n`. -/
def leavesUnder (n height pos : ℕ) : List ℕ :=
  List.range' (pos * 2 ^ height) (min ((pos + 1) * 2 ^ height) n - pos * 2 ^ height)

/-- The matched positions under node `pos` at `height`, in order. -/
def matchedUnder (M : List Bool) (n height pos : ℕ) : List ℕ :=
  (leavesUnder n height pos).filter (M.getD · false)

theorem leavesUnder_zero {n pos : ℕ} (hpos : pos < n) : leavesUnder n 0 pos = [pos] := by
  simp only [leavesUnder, pow_zero, Nat.mul_one]
  rw [min_eq_left (by omega), Nat.add_sub_cancel_left]
  rfl

/-- A node with a right child has the leaves of both children. -/
theorem leavesUnder_succ_of_lt {n height pos : ℕ} (hright : (2 * pos + 1) * 2 ^ height < n) :
    leavesUnder n (height + 1) pos =
      leavesUnder n height (2 * pos) ++ leavesUnder n height (2 * pos + 1) := by
  have hlo : pos * 2 ^ (height + 1) = 2 * pos * 2 ^ height := by ring
  have hhi : (pos + 1) * 2 ^ (height + 1) = (2 * pos + 1 + 1) * 2 ^ height := by ring
  have hmid : (2 * pos + 1) * 2 ^ height = 2 * pos * 2 ^ height + 2 ^ height := by ring
  have hend : (2 * pos + 1 + 1) * 2 ^ height = 2 * pos * 2 ^ height + 2 ^ height + 2 ^ height := by
    ring
  have hw := Nat.two_pow_pos height
  rw [hmid] at hright
  simp only [leavesUnder, hlo, hhi, hmid, hend, min_eq_left hright.le, Nat.add_sub_cancel_left]
  rw [List.range'_append_1]
  congr 1
  omega

/-- A node without a right child has the leaves of its left child. -/
theorem leavesUnder_succ_of_le {n height pos : ℕ} (hlast : n ≤ (2 * pos + 1) * 2 ^ height) :
    leavesUnder n (height + 1) pos = leavesUnder n height (2 * pos) := by
  have hlo : pos * 2 ^ (height + 1) = 2 * pos * 2 ^ height := by ring
  have hhi : (pos + 1) * 2 ^ (height + 1) = (2 * pos + 1) * 2 ^ height + 2 ^ height := by ring
  simp only [leavesUnder, hlo, hhi, min_eq_right hlast, min_eq_right (le_add_right hlast)]

/-- A node that exists has a leaf. -/
theorem length_leavesUnder_pos {n height pos : ℕ} (hpos : pos < CalcTreeWidth n height) :
    0 < (leavesUnder n height pos).length := by
  have hfirst := lt_CalcTreeWidth_iff.mp hpos
  have hnext : pos * 2 ^ height < (pos + 1) * 2 ^ height := by
    rw [Nat.add_one_mul]
    exact Nat.lt_add_of_pos_right (Nat.two_pow_pos height)
  rw [leavesUnder, List.length_range']
  omega

theorem matchedUnder_eq_nil {M : List Bool} {n height pos : ℕ}
    (h : (leavesUnder n height pos).any (M.getD · false) = false) :
    matchedUnder M n height pos = [] :=
  List.filter_eq_nil_iff.mpr (List.any_eq_false.mp h)

theorem matchedUnder_zero {M : List Bool} {n pos : ℕ} (hpos : pos < n) :
    matchedUnder M n 0 pos = if M.getD pos false then [pos] else [] := by
  rw [matchedUnder, leavesUnder_zero hpos, List.filter_cons, List.filter_nil]

theorem matchedUnder_succ_of_lt {M : List Bool} {n height pos : ℕ}
    (hright : (2 * pos + 1) * 2 ^ height < n) :
    matchedUnder M n (height + 1) pos =
      matchedUnder M n height (2 * pos) ++ matchedUnder M n height (2 * pos + 1) := by
  rw [matchedUnder, leavesUnder_succ_of_lt hright, List.filter_append]
  rfl

theorem matchedUnder_succ_of_le {M : List Bool} {n height pos : ℕ}
    (hlast : n ≤ (2 * pos + 1) * 2 ^ height) :
    matchedUnder M n (height + 1) pos = matchedUnder M n height (2 * pos) := by
  rw [matchedUnder, leavesUnder_succ_of_le hlast]
  rfl

/-! ## What the constructor computes -/

section Build

variable {ε : Type} (Hash : Uint256 → Uint256 → Uint256)

theorem foldlM_or_get {vMatch : List Bool} :
    ∀ (ps : List ℕ) (acc : Bool), (∀ p ∈ ps, p < vMatch.length) →
      (ps.foldlM (fun fParentOfMatch p => do return fParentOfMatch || (← Checked.get vMatch p))
        acc : Checked ε Bool) = .ok (acc || ps.any (vMatch.getD · false)) := by
  intro ps
  induction ps with
  | nil => intro acc _; simp
  | cons p ps ih =>
    intro acc hlt
    have hp := hlt p List.mem_cons_self
    rw [List.foldlM_cons]
    simp only [Checked.get_of_lt hp, Checked.ok_bind, pure_bind]
    rw [ih _ fun q hq => hlt q (List.mem_cons_of_mem p hq)]
    simp [List.getElem?_eq_getElem hp, Bool.or_assoc]

/-- The flag of a node: whether a leaf under it is matched. -/
theorem ParentOfMatch_eq {vMatch : List Bool} {n : ℕ} (hn : n ≤ vMatch.length) (height pos : ℕ) :
    (ParentOfMatch vMatch n height pos : Checked ε Bool) =
      .ok ((leavesUnder n height pos).any (vMatch.getD · false)) := by
  simp only [ParentOfMatch, Nat.shiftLeft_eq]
  rw [foldlM_or_get _ _ fun p hp => ?_, Bool.false_or]
  · rfl
  · rw [List.mem_range'_1] at hp
    omega

/-- `CalcHash` computes the nodes of the levels of the tree. -/
theorem CalcHash_eq {T : List Uint256} (hne : T ≠ []) :
    ∀ height pos {node : Uint256}, (level Hash height T)[pos]? = some node →
      (CalcHash Hash T.length T height pos : Checked ε Uint256) = .ok node := by
  have hassert : (T.length != 0) = true := by simpa using hne
  intro height
  induction height with
  | zero =>
    intro pos node hnode
    rw [level_zero] at hnode
    simp [CalcHash, hassert, Checked.get, hnode]
  | succ height ih =>
    intro pos node hnode
    rw [getElem?_level_succ] at hnode
    obtain ⟨left, hleft, rfl⟩ := Option.map_eq_some_iff.mp hnode
    simp only [CalcHash, hassert, Checked.assert_true, Checked.ok_bind, Nat.mul_comm pos 2,
      ih (2 * pos) hleft]
    by_cases hright : 2 * pos + 1 < CalcTreeWidth T.length height
    · rw [CalcTreeWidth_eq_length Hash] at hright
      have hr := ih (2 * pos + 1) (List.getElem?_eq_getElem hright)
      simp [CalcTreeWidth_eq_length Hash, hright, hr]
    · have hr : (level Hash height T)[2 * pos + 1]? = none := by
        rw [CalcTreeWidth_eq_length Hash] at hright
        exact List.getElem?_eq_none (Nat.le_of_not_lt hright)
      simp [hright, hr]

end Build

/-! ## Walks of the partial tree -/

section Walk

variable (Hash : Uint256 → Uint256 → Uint256) (T : List Uint256) (M : List Bool)

/-- `bits` and `hashes` store node `pos` at `height` of the partial tree of the txids `T`
with the matches `M`: the node's flag, whether a leaf under it is matched, then the node's
hash at a leaf or above no match, else the walks of its children. -/
inductive PartialWalk : ℕ → ℕ → List Bool → List Uint256 → Prop
  | stored {height pos : ℕ} {node : Uint256}
      (hflag : height = 0 ∨ (leavesUnder T.length height pos).any (M.getD · false) = false)
      (hnode : (level Hash height T)[pos]? = some node) :
      PartialWalk height pos [(leavesUnder T.length height pos).any (M.getD · false)] [node]
  | both {height pos : ℕ} {bitsL bitsR : List Bool} {hashesL hashesR : List Uint256}
      (hflag : (leavesUnder T.length (height + 1) pos).any (M.getD · false) = true)
      (hsize : 2 * pos + 1 < (level Hash height T).length)
      (wl : PartialWalk height (2 * pos) bitsL hashesL)
      (wr : PartialWalk height (2 * pos + 1) bitsR hashesR) :
      PartialWalk (height + 1) pos (true :: (bitsL ++ bitsR)) (hashesL ++ hashesR)
  | left {height pos : ℕ} {bits : List Bool} {hashes : List Uint256}
      (hflag : (leavesUnder T.length (height + 1) pos).any (M.getD · false) = true)
      (hsize : (level Hash height T).length = 2 * pos + 1)
      (wl : PartialWalk height (2 * pos) bits hashes) :
      PartialWalk (height + 1) pos (true :: bits) hashes

variable {Hash T M}

/-- A walk has a bit for each hash, and at most one hash for each leaf under its node. -/
theorem PartialWalk.length_le {height pos : ℕ} {bits : List Bool} {hashes : List Uint256}
    (w : PartialWalk Hash T M height pos bits hashes) :
    hashes.length ≤ bits.length ∧ hashes.length ≤ (leavesUnder T.length height pos).length := by
  induction w with
  | @stored height pos node _ hnode =>
    have hpos : pos < CalcTreeWidth T.length height := by
      rw [CalcTreeWidth_eq_length Hash]
      exact (List.getElem?_eq_some_iff.mp hnode).1
    exact ⟨le_refl 1, length_leavesUnder_pos hpos⟩
  | @both height pos _ _ _ _ _ hsize _ _ ihl ihr =>
    have hright : (2 * pos + 1) * 2 ^ height < T.length := by
      rw [← lt_CalcTreeWidth_iff, CalcTreeWidth_eq_length Hash]
      exact hsize
    simp only [List.length_append, List.length_cons, leavesUnder_succ_of_lt hright]
    omega
  | @left height pos _ _ _ hsize _ ihl =>
    have hlast : T.length ≤ (2 * pos + 1) * 2 ^ height := by
      rw [← Nat.not_lt, ← lt_CalcTreeWidth_iff, CalcTreeWidth_eq_length Hash, hsize]
      exact Nat.lt_irrefl _
    simp only [List.length_cons, leavesUnder_succ_of_le hlast]
    omega

end Walk

section Build

variable {ε : Type} (Hash : Uint256 → Uint256 → Uint256) {T : List Uint256} {M : List Bool}

/-- The constructor stores a walk of every node it visits: after the tree's bits and
hashes so far, it appends the walk's. -/
theorem TraverseAndBuild_walk (hne : T ≠ []) (hlen : T.length ≤ M.length) :
    ∀ height pos (t : CPartialMerkleTree), pos < (level Hash height T).length →
      t.nTransactions = T.length →
      ∃ bits hashes, (TraverseAndBuild Hash T M height pos t : Checked ε _) =
          .ok { t with vBits := t.vBits ++ bits, vHash := t.vHash ++ hashes } ∧
        PartialWalk Hash T M height pos bits hashes := by
  intro height
  induction height with
  | zero =>
    rintro pos ⟨n, vBits, vHash, fBad⟩ hpos rfl
    have hnode := List.getElem?_eq_getElem hpos
    refine ⟨_, _, ?_, .stored (.inl rfl) hnode⟩
    simp only [TraverseAndBuild, ParentOfMatch_eq hlen, CalcHash_eq Hash hne 0 pos hnode,
      Checked.ok_bind, Checked.pure_eq]
  | succ height ih =>
    rintro pos ⟨n, vBits, vHash, fBad⟩ hpos rfl
    have hnode := List.getElem?_eq_getElem hpos
    cases hflag : (leavesUnder T.length (height + 1) pos).any (M.getD · false) with
    | false =>
      refine ⟨_, _, ?_, .stored (.inr hflag) hnode⟩
      simp only [TraverseAndBuild, ParentOfMatch_eq hlen, hflag, Bool.not_false, if_true,
        CalcHash_eq Hash hne (height + 1) pos hnode, Checked.ok_bind, Checked.pure_eq]
    | true =>
      -- the left child exists, and the walk goes on into it
      have hleft : 2 * pos < (level Hash height T).length := by
        rw [length_level_succ] at hpos
        omega
      obtain ⟨bitsL, hashesL, hbuildL, wl⟩ :=
        ih (2 * pos) ⟨T.length, vBits ++ [true], vHash, fBad⟩ hleft rfl
      have hbuild : (TraverseAndBuild Hash T M (height + 1) pos ⟨T.length, vBits, vHash, fBad⟩ :
          Checked ε _) =
          if 2 * pos + 1 < (level Hash height T).length then
            TraverseAndBuild Hash T M height (2 * pos + 1)
              ⟨T.length, vBits ++ [true] ++ bitsL, vHash ++ hashesL, fBad⟩
          else .ok ⟨T.length, vBits ++ [true] ++ bitsL, vHash ++ hashesL, fBad⟩ := by
        simp only [TraverseAndBuild, ParentOfMatch_eq hlen, hflag, Bool.not_true,
          Bool.false_eq_true, if_false, Nat.mul_comm pos 2, hbuildL, Checked.ok_bind,
          Checked.pure_eq, CalcTreeWidth_eq_length Hash]
      by_cases hsize : 2 * pos + 1 < (level Hash height T).length
      · obtain ⟨bitsR, hashesR, hbuildR, wr⟩ :=
          ih (2 * pos + 1) ⟨T.length, vBits ++ [true] ++ bitsL, vHash ++ hashesL, fBad⟩ hsize rfl
        refine ⟨true :: (bitsL ++ bitsR), hashesL ++ hashesR, ?_, .both hflag hsize wl wr⟩
        rw [hbuild, if_pos hsize, hbuildR]
        simp
      · refine ⟨true :: bitsL, hashesL, ?_, .left hflag (by omega) wl⟩
        rw [hbuild, if_neg hsize]
        simp

end Build

/-! ## Reading a walk back -/

/-- `s` after a walk that used `nBits` bits and `nHashes` hashes and matched the positions
`ps` of the txids `T`. -/
def ExtractState.advance (T : List Uint256) (s : ExtractState) (nBits nHashes : ℕ)
    (ps : List ℕ) : ExtractState :=
  { s with
    nBitsUsed := s.nBitsUsed + nBits
    nHashUsed := s.nHashUsed + nHashes
    vMatch := s.vMatch ++ ps.map (T.getD · default)
    vnIndex := s.vnIndex ++ ps }

section Extract

variable (Hash : Uint256 → Uint256 → Uint256) {T : List Uint256} {M : List Bool}

/-- A node whose two children exist has distinct children, unless two siblings are equal. -/
theorem ne_of_not_equalSiblings (hsib : ¬EqualSiblings Hash T) {height pos : ℕ}
    {left right : Uint256} (hsize : 2 * pos + 1 < (level Hash height T).length)
    (hleft : (level Hash height T)[2 * pos]? = some left)
    (hright : (level Hash height T)[2 * pos + 1]? = some right) : right ≠ left :=
  fun heq => hsib ⟨height, pos, hsize, by rw [hleft, hright, heq]⟩

/-- `TraverseAndExtract` reads back a walk found at the tree's cursors: it rebuilds the node,
moves past the walk's bits and hashes and collects the matches under the node, in order,
without setting `fBad`. -/
theorem TraverseAndExtract_walk (hsib : ¬EqualSiblings Hash T) {height pos : ℕ}
    {bits : List Bool} {hashes : List Uint256} (w : PartialWalk Hash T M height pos bits hashes) :
    ∀ (u : CPartialMerkleTree) (s : ExtractState) (bits₀ bits₁ : List Bool)
      (hashes₀ hashes₁ : List Uint256), u.nTransactions = T.length →
      u.vBits = bits₀ ++ bits ++ bits₁ → u.vHash = hashes₀ ++ hashes ++ hashes₁ →
      s.nBitsUsed = bits₀.length → s.nHashUsed = hashes₀.length →
      ∃ node, (level Hash height T)[pos]? = some node ∧
        TraverseAndExtract Hash u height pos s =
          (node, s.advance T bits.length hashes.length (matchedUnder M T.length height pos)) := by
  induction w with
  | @stored height pos node hflag hnode =>
    intro u s bits₀ bits₁ hashes₀ hashes₁ _ hbits hhashes hbused hhused
    refine ⟨node, hnode, ?_⟩
    have hbit : u.vBits[s.nBitsUsed]? =
        some ((leavesUnder T.length height pos).any (M.getD · false)) := by
      rw [hbits, hbused]
      simp
    have hhash : u.vHash[s.nHashUsed]? = some node := by
      rw [hhashes, hhused]
      simp
    cases height with
    | zero =>
      -- a leaf: its txid is matched when its flag is set
      have hpos : pos < T.length := (List.getElem?_eq_some_iff.mp hnode).1
      rw [level_zero] at hnode
      have hflag₀ : [pos].any (M.getD · false) = M.getD pos false := by simp
      rw [leavesUnder_zero hpos, hflag₀] at hbit
      rw [matchedUnder_zero hpos]
      cases hm : M.getD pos false with
      | false =>
        rw [hm] at hbit
        simp [TraverseAndExtract, hbit, useStoredHash, hhash, ExtractState.advance]
      | true =>
        rw [hm] at hbit
        simp [TraverseAndExtract, hbit, useStoredHash, hhash, ExtractState.advance, hnode]
    | succ height =>
      -- above no match: the stored hash, and nothing matched below
      have hnone : (leavesUnder T.length (height + 1) pos).any (M.getD · false) = false :=
        hflag.resolve_left (Nat.succ_ne_zero height)
      rw [hnone] at hbit
      rw [matchedUnder_eq_nil hnone]
      simp [TraverseAndExtract, hbit, useStoredHash, hhash, ExtractState.advance]
  | @both height pos bitsL bitsR hashesL hashesR _ hsize _ _ ihl ihr =>
    intro u s bits₀ bits₁ hashes₀ hashes₁ hn hbits hhashes hbused hhused
    have hbit : u.vBits[s.nBitsUsed]? = some true := by
      rw [hbits, hbused]
      simp
    obtain ⟨left, hleft, hextL⟩ := ihl u { s with nBitsUsed := s.nBitsUsed + 1 }
      (bits₀ ++ [true]) (bitsR ++ bits₁) hashes₀ (hashesR ++ hashes₁) hn
      (by rw [hbits]; simp) (by rw [hhashes]; simp) (by simp [hbused]) hhused
    obtain ⟨right, hright, hextR⟩ := ihr u
      ({ s with nBitsUsed := s.nBitsUsed + 1 }.advance T bitsL.length hashesL.length
        (matchedUnder M T.length height (2 * pos)))
      (bits₀ ++ [true] ++ bitsL) bits₁ (hashes₀ ++ hashesL) hashes₁ hn
      (by rw [hbits]; simp) (by rw [hhashes]; simp)
      (by simp [ExtractState.advance, hbused]; omega) (by simp [ExtractState.advance, hhused])
    have hnode : (level Hash (height + 1) T)[pos]? = some (Hash left right) := by
      rw [getElem?_level_succ, hleft, hright]
      rfl
    have hwidth : 2 * pos + 1 < CalcTreeWidth u.nTransactions height := by
      rw [hn, CalcTreeWidth_eq_length Hash]
      exact hsize
    have hmatched := matchedUnder_succ_of_lt (M := M)
      (lt_CalcTreeWidth_iff.mp (hn ▸ hwidth : 2 * pos + 1 < CalcTreeWidth T.length height))
    refine ⟨Hash left right, hnode, ?_⟩
    simp only [TraverseAndExtract, hbit, Nat.mul_comm pos 2, hextL, if_pos hwidth, hextR,
      if_neg (ne_of_not_equalSiblings Hash hsib hsize hleft hright), hmatched]
    simp [ExtractState.advance]
    omega
  | @left height pos bits hashes _ hsize _ ihl =>
    intro u s bits₀ bits₁ hashes₀ hashes₁ hn hbits hhashes hbused hhused
    have hbit : u.vBits[s.nBitsUsed]? = some true := by
      rw [hbits, hbused]
      simp
    obtain ⟨left, hleft, hextL⟩ := ihl u { s with nBitsUsed := s.nBitsUsed + 1 }
      (bits₀ ++ [true]) bits₁ hashes₀ hashes₁ hn
      (by rw [hbits]; simp) hhashes (by simp [hbused]) hhused
    have hnode : (level Hash (height + 1) T)[pos]? = some (Hash left left) := by
      rw [getElem?_level_succ, hleft, List.getElem?_eq_none (by omega)]
      rfl
    have hwidth : ¬2 * pos + 1 < CalcTreeWidth u.nTransactions height := by
      rw [hn, CalcTreeWidth_eq_length Hash, hsize]
      exact Nat.lt_irrefl _
    have hmatched := matchedUnder_succ_of_le (M := M)
      (Nat.le_of_not_lt (lt_CalcTreeWidth_iff.not.mp (hn ▸ hwidth)))
    refine ⟨Hash left left, hnode, ?_⟩
    simp only [TraverseAndExtract, hbit, Nat.mul_comm pos 2, hextL, if_neg hwidth, hmatched]
    simp [ExtractState.advance]
    omega

end Extract

/-! ## `ExtractMatches` -/

section Matches

variable {ε : Type} (Hash : Uint256 → Uint256 → Uint256) {T : List Uint256} {M : List Bool}

/-- The leaves under the root are all the transactions. -/
theorem leavesUnder_TreeHeight (n : ℕ) : leavesUnder n (TreeHeight n) 0 = List.range n := by
  have hfit := CalcTreeWidth_le_one_iff.mp (TreeHeight_spec n).1
  simp [leavesUnder, min_eq_right hfit, List.range_eq_range']

/-- On the tree the constructor built from `T` and `M`, `ExtractMatches` returns the root
of `T` and the matched txids with their positions, when no two siblings of the tree of `T`
are equal. -/
theorem ExtractMatches_ofTxids (hne : T ≠ [])
    (hsize : T.length ≤ MAX_BLOCK_WEIGHT / MIN_TRANSACTION_WEIGHT) (hlen : M.length = T.length)
    (hsib : ¬EqualSiblings Hash T) (vnIndex : List ℕ) :
    ∃ t root s, (CPartialMerkleTree.ofTxids Hash T M : Checked ε _) = .ok t ∧
      merkleRoot Hash T = some root ∧ ExtractMatches Hash t vnIndex = (root, s) ∧
      s.vMatch = ((List.range T.length).filter (M.getD · false)).map (T.getD · default) ∧
      s.vnIndex = vnIndex ++ (List.range T.length).filter (M.getD · false) := by
  have hpos : 0 < (level Hash (TreeHeight T.length) T).length := by
    rw [← CalcTreeWidth_eq_length, lt_CalcTreeWidth_iff, Nat.zero_mul]
    exact List.length_pos_iff.mpr hne
  obtain ⟨bits, hashes, hbuild, w⟩ := TraverseAndBuild_walk (ε := ε) Hash hne hlen.ge
    (TreeHeight T.length) 0 ⟨T.length, [], [], false⟩ hpos rfl
  obtain ⟨hbits, hleaves⟩ := w.length_le
  rw [leavesUnder_TreeHeight, List.length_range] at hleaves
  obtain ⟨root, hroot, hext⟩ := TraverseAndExtract_walk Hash hsib w ⟨T.length, bits, hashes, false⟩
    ⟨0, 0, [], vnIndex, false⟩ [] [] [] [] rfl (by simp) (by simp) rfl rfl
  have hmatched : matchedUnder M T.length (TreeHeight T.length) 0 =
      (List.range T.length).filter (M.getD · false) := by
    rw [matchedUnder, leavesUnder_TreeHeight]
  refine ⟨⟨T.length, bits, hashes, false⟩, root, ExtractState.advance T ⟨0, 0, [], vnIndex, false⟩
    bits.length hashes.length (matchedUnder M T.length (TreeHeight T.length) 0), ?_, ?_, ?_, ?_, ?_⟩
  · rw [CPartialMerkleTree.ofTxids, hbuild]
    simp
  · rw [merkleRoot_eq_TreeHeight Hash hne]
    exact hroot
  · -- every check passes: the walk used all bits and hashes and found no equal siblings
    have hn : T.length ≠ 0 := fun h => hne (List.length_eq_zero_iff.mp h)
    simp only [ExtractMatches, hn, if_false, Nat.not_lt.mpr hsize, Nat.not_lt.mpr hleaves,
      Nat.not_lt.mpr hbits, hext]
    simp [ExtractState.advance]
  · simp [ExtractState.advance, hmatched]
  · simp [ExtractState.advance, hmatched]

/-- Whatever the tree, a non-null result of `ExtractMatches` is the root of a walk from the
top that found nothing malformed and used every hash and every bit but the padding. -/
theorem ExtractMatches_consumes (t : CPartialMerkleTree) (vnIndex : List ℕ) {root : Uint256}
    {s : ExtractState} (h : ExtractMatches Hash t vnIndex = (root, s)) :
    root = Uint256.zero ∨
      TraverseAndExtract Hash t (TreeHeight t.nTransactions) 0 ⟨0, 0, [], vnIndex, t.fBad⟩ =
          (root, s) ∧ s.fBad = false ∧ (s.nBitsUsed + 7) / 8 = (t.vBits.length + 7) / 8 ∧
        s.nHashUsed = t.vHash.length := by
  simp only [ExtractMatches] at h
  generalize hwalk : TraverseAndExtract Hash t (TreeHeight t.nTransactions) 0
    ⟨0, 0, [], vnIndex, t.fBad⟩ = walk at h
  obtain ⟨r, s'⟩ := walk
  -- every check that fails returns the null hash
  split_ifs at h with _ _ _ _ hbad hpad hused <;> try exact .inl (Prod.mk.inj h).1.symm
  obtain ⟨rfl, rfl⟩ := Prod.mk.inj h
  exact .inr ⟨rfl, by simpa using hbad, not_not.mp hpad, not_not.mp hused⟩

end Matches

/-! ## Round trip -/

section RoundTrip

variable {ε : Type} (Hash : Uint256 → Uint256 → Uint256)

/-- The constructor's tree of the txids `T` with the matches `M` is read back by
`ExtractMatches`: it returns the root `ComputeMerkleRoot` computes, the matched txids and,
after what `vnIndex` held, their positions in increasing order, when no two siblings of
the tree of `T` are equal. Whatever the tree, a result other than the null hash comes from
a walk from the top that used every hash and every bit but the padding. -/
theorem CPartialMerkleTree_round_trip (T : List Uint256) (M : List Bool) (vnIndex : List ℕ)
    (hne : T ≠ []) (hsize : T.length ≤ MAX_BLOCK_WEIGHT / MIN_TRANSACTION_WEIGHT)
    (hlen : M.length = T.length) (hsib : ¬EqualSiblings Hash T) :
    (∃ t root mutated s, (CPartialMerkleTree.ofTxids Hash T M : Checked ε _) = .ok t ∧
      (ComputeMerkleRoot Hash T : Checked ε _) = .ok (root, mutated) ∧
      ExtractMatches Hash t vnIndex = (root, s) ∧
      s.vMatch = ((List.range T.length).filter (M.getD · false)).map (T.getD · default) ∧
      s.vnIndex = vnIndex ++ (List.range T.length).filter (M.getD · false)) ∧
    ∀ (t : CPartialMerkleTree) (vnIndex₀ : List ℕ) (root : Uint256) (s : ExtractState),
      ExtractMatches Hash t vnIndex₀ = (root, s) →
      root = Uint256.zero ∨
        TraverseAndExtract Hash t (TreeHeight t.nTransactions) 0 ⟨0, 0, [], vnIndex₀, t.fBad⟩ =
            (root, s) ∧ s.nHashUsed = t.vHash.length ∧
          (s.nBitsUsed + 7) / 8 = (t.vBits.length + 7) / 8 := by
  have hmax : MAX_BLOCK_WEIGHT / MIN_TRANSACTION_WEIGHT = 16666 := rfl
  obtain ⟨t, root, s, hbuild, hroot, hext, hmatch, hindex⟩ :=
    ExtractMatches_ofTxids (ε := ε) Hash hne hsize hlen hsib vnIndex
  -- the constant-space computation returns the same root
  obtain ⟨root', mutated, _, hrun, hroot', -, -⟩ :=
    MerkleComputation_spec (ε := ε) Hash T (2 ^ 32 - 1) false hne (by omega)
  have hsame : root' = root := Option.some.inj (hroot'.symm.trans hroot)
  refine ⟨⟨t, root, mutated, s, hbuild, ?_, hext, hmatch, hindex⟩, ?_⟩
  · rw [ComputeMerkleRoot, hrun, ← hsame]
    rfl
  · intro t vnIndex₀ root s h
    obtain hzero | ⟨hwalk, -, hpad, hused⟩ := ExtractMatches_consumes Hash t vnIndex₀ h
    · exact .inl hzero
    · exact .inr ⟨hwalk, hused, hpad⟩

theorem CPartialMerkleTree_round_trip_pair :
    [Uint256.zero, ⟨1, by decide⟩] ≠ [] ∧
      [Uint256.zero, ⟨1, by decide⟩].length ≤ MAX_BLOCK_WEIGHT / MIN_TRANSACTION_WEIGHT ∧
      [false, true].length = [Uint256.zero, ⟨1, by decide⟩].length ∧
      ¬EqualSiblings (fun _ _ => Uint256.zero) [Uint256.zero, ⟨1, by decide⟩] ∧
      ((∃ t root mutated s,
          (@CPartialMerkleTree.ofTxids Empty (fun _ _ => Uint256.zero)
            [Uint256.zero, ⟨1, by decide⟩] [false, true]) = .ok t ∧
          (@ComputeMerkleRoot Empty (fun _ _ => Uint256.zero) [Uint256.zero, ⟨1, by decide⟩]) =
            .ok (root, mutated) ∧
          ExtractMatches (fun _ _ => Uint256.zero) t [] = (root, s) ∧
          s.vMatch = ((List.range [Uint256.zero, ⟨1, by decide⟩].length).filter
              ([false, true].getD · false)).map ([Uint256.zero, ⟨1, by decide⟩].getD · default) ∧
          s.vnIndex = [] ++ (List.range [Uint256.zero, ⟨1, by decide⟩].length).filter
              ([false, true].getD · false)) ∧
        ∀ (t : CPartialMerkleTree) (vnIndex₀ : List ℕ) (root : Uint256) (s : ExtractState),
          ExtractMatches (fun _ _ => Uint256.zero) t vnIndex₀ = (root, s) →
          root = Uint256.zero ∨
            TraverseAndExtract (fun _ _ => Uint256.zero) t (TreeHeight t.nTransactions) 0
                ⟨0, 0, [], vnIndex₀, t.fBad⟩ = (root, s) ∧ s.nHashUsed = t.vHash.length ∧
              (s.nBitsUsed + 7) / 8 = (t.vBits.length + 7) / 8) :=
  ⟨by decide, by decide, rfl, not_equalSiblings_pair _ (by decide),
    CPartialMerkleTree_round_trip (fun _ _ => Uint256.zero) [Uint256.zero, ⟨1, by decide⟩]
      [false, true] [] (by decide) (by decide) rfl (not_equalSiblings_pair _ (by decide))⟩

end RoundTrip

end Cascoin
