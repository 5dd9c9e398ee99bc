import Cascoin.Models.Hive.Proof
import Cascoin.Models.Consensus.HiveRetarget

/-!
# The hive miner

`BusyBees` splits the wallet's mature bees into bins of `CBeeRange`s and starts
one thread per bin: `CheckBin` before MinotaurX, `CheckBinMinotaur` once it is
enabled at the parent. A thread hashes the bees of its ranges in order until
one meets the target; every thousandth bee it reads the shared flags
`solutionFound` and `earlyAbort` and stops when one is set. The flags are the
parameter `stop`: what they read at the check with a given count, so the
results hold for every interleaving of the threads. The winning bee and its
range go into the coinbase as the proof script of `hiveProofScript`.

Miner and validator write the proof differently. The miner pushes each field
with a length prefix, the validator reads fixed offsets; the miner hashes the
bee index as a signed `int`, the validator as the `uint32_t` it decoded, and
after MinotaurX the miner formats it with a `std::stringstream` while the
validator uses `std::to_string` through a C string. `BusyBees_proof_agrees`
states that for a bee index below `2 ^ 31` the two agree on every field and
on the hash.
-/

namespace Cascoin

/-- `CBeeRange`: `count` bees of the BCT `txid` from index `offset` on. -/
structure CBeeRange where
  txid : List UInt8
  communityContrib : Bool
  offset : Int
  count : Int
  deriving DecidableEq, Repr

/-- `std::stringstream << i` for an `int`: the decimal digits, after a minus sign
when negative. -/
def intDecimal (i : Int) : List UInt8 :=
  if i < 0 then 0x2d :: decimalString i.natAbs else decimalString i.toNat

/-- The bee hash of `CheckBin`: `CHashWriter << deterministicRandString << txid << i`,
the `int` written as its four little-endian bytes. -/
def minerHashSHA256 (env : ChainEnv) (deterministicRandString txid : List UInt8) (i : Int) :
    Uint256 :=
  uint256S (env.hashWriter (serializeBytes deterministicRandString ++ serializeBytes txid ++
    Bytes.leBytes (i % 2 ^ 32).toNat 4)).GetHex

/-- The bee hash of `CheckBinMinotaur`: `MinotaurHashString` of the whole text of
the stream. -/
def minerHashMinotaur (env : ChainEnv) (deterministicRandString txid : List UInt8) (i : Int) :
    Uint256 :=
  uint256S (env.minotaur (deterministicRandString ++ txid ++ intDecimal i)).GetHex

/-! ## The bin threads -/

/-- Where the loop over one range stops. -/
inductive BinStep where
  /-- The range ran out; the count goes on into the next range. -/
  | next (checkCount : Nat)
  /-- Bee `i` meets the target. -/
  | solved (i : Int)
  /-- A flag was set when read. -/
  | aborted
  deriving DecidableEq, Repr

/-- The inner loop of a bin thread: `n` bees left from index `i`, with the check
count `checkCount`. -/
def scanRange (beeHash : Int → Uint256) (stop : Nat → Bool) (beeHashTarget : Nat) :
    Nat → Int → Nat → BinStep
  | 0, _, checkCount => .next checkCount
  | n + 1, i, checkCount =>
    -- `checkCount++ % 1000 == 0` tests the count before the increment
    if checkCount % 1000 = 0 ∧ stop checkCount then .aborted
    else if (beeHash i).toNat < beeHashTarget then .solved i
    else scanRange beeHash stop beeHashTarget n (i + 1) (checkCount + 1)

/-- A bin thread over its ranges, `for (int i = offset; i < offset + count; i++)` in
each: the range and the bee it writes to `solvingRange` and `solvingBee`, if any. -/
def scanBin (beeHash : List UInt8 → Int → Uint256) (stop : Nat → Bool) (beeHashTarget : Nat) :
    List CBeeRange → Nat → Option (CBeeRange × Int)
  | [], _ => none
  | beeRange :: rest, checkCount =>
    match scanRange (beeHash beeRange.txid) stop beeHashTarget beeRange.count.toNat
        beeRange.offset checkCount with
    | .next checkCount => scanBin beeHash stop beeHashTarget rest checkCount
    | .solved i => some (beeRange, i)
    | .aborted => none

/-- `CheckBin(threadID, bin, deterministicRandString, beeHashTarget)`. -/
def CheckBin (env : ChainEnv) (stop : Nat → Bool) (bin : List CBeeRange)
    (deterministicRandString : List UInt8) (beeHashTarget : Nat) : Option (CBeeRange × Int) :=
  scanBin (minerHashSHA256 env deterministicRandString) stop beeHashTarget bin 0

/-- `CheckBinMinotaur(threadID, bin, deterministicRandString, beeHashTarget)`. -/
def CheckBinMinotaur (env : ChainEnv) (stop : Nat → Bool) (bin : List CBeeRange)
    (deterministicRandString : List UInt8) (beeHashTarget : Nat) : Option (CBeeRange × Int) :=
  scanBin (minerHashMinotaur env deterministicRandString) stop beeHashTarget bin 0

/-- The thread `BusyBees` starts on a bin, with the random string and the target of
the block after `pindexPrev`. -/
def binThread (env : ChainEnv) (pindexPrev : CBlockIndex) (stop : Nat → Bool)
    (bin : List CBeeRange) : Option (CBeeRange × Int) :=
  let deterministicRandString := GetDeterministicRandString pindexPrev
  let beeHashTarget := (SetCompact (env.nextHiveWorkRequired pindexPrev)).1
  if IsMinotaurXEnabled env (some pindexPrev) then
    CheckBinMinotaur env stop bin deterministicRandString beeHashTarget
  else CheckBin env stop bin deterministicRandString beeHashTarget

/-- A solved range loop found a bee of the range that meets the target. -/
theorem scanRange_solved {beeHash : Int → Uint256} {stop : Nat → Bool} {beeHashTarget : Nat}
    {n : Nat} {i₀ : Int} {checkCount : Nat} {i : Int}
    (h : scanRange beeHash stop beeHashTarget n i₀ checkCount = .solved i) :
    (beeHash i).toNat < beeHashTarget ∧ i₀ ≤ i ∧ i < i₀ + n := by
  induction n generalizing i₀ checkCount with
  | zero => simp [scanRange] at h
  | succ n ih =>
    simp only [scanRange] at h
    split at h
    · cases h
    · split at h
      · -- this bee is the solution
        cases h
        exact ⟨by assumption, Int.le_refl _, by omega⟩
      · obtain ⟨hlt, hlo, hhi⟩ := ih h
        exact ⟨hlt, by omega, by omega⟩

/-- A bin thread reports only a bee of one of its ranges that meets the target. -/
theorem scanBin_solved {beeHash : List UInt8 → Int → Uint256} {stop : Nat → Bool}
    {beeHashTarget : Nat} {bin : List CBeeRange} {checkCount : Nat} {beeRange : CBeeRange}
    {i : Int} (h : scanBin beeHash stop beeHashTarget bin checkCount = some (beeRange, i)) :
    beeRange ∈ bin ∧ (beeHash beeRange.txid i).toNat < beeHashTarget ∧
      beeRange.offset ≤ i ∧ i < beeRange.offset + beeRange.count := by
  induction bin generalizing checkCount with
  | nil => simp [scanBin] at h
  | cons r rest ih =>
    simp only [scanBin] at h
    split at h
    · obtain ⟨hmem, hrest⟩ := ih h
      exact ⟨List.mem_cons_of_mem r hmem, hrest⟩
    · -- the solution is in the first range
      rename_i hsolved
      cases h
      obtain ⟨hlt, hlo, hhi⟩ := scanRange_solved hsolved
      exact ⟨List.mem_cons_self, hlt, hlo, by omega⟩
    · cases h

/-! ## The proof script -/

/-- The proof script `BusyBees` writes into the coinbase's first output:
`OP_RETURN OP_BEE <nonce> <height> OP_TRUE|OP_FALSE <txid> <signature>`. -/
def hiveProofScript (solvingBee bctHeight : UInt32) (communityContrib : Bool)
    (txidVec messageProofVec : List UInt8) : CScript :=
  let beeNonceVec := Bytes.leBytes solvingBee.toNat 4
  let bctHeightVec := Bytes.leBytes bctHeight.toNat 4
  let communityContribFlag := if communityContrib then OP_TRUE else OP_FALSE
  let script := pushOpcode (pushOpcode [] OP_RETURN) OP_BEE
  let script := pushData (pushData script beeNonceVec) bctHeightVec
  let script := pushOpcode script communityContribFlag
  pushData (pushData script txidVec) messageProofVec

section Script

variable (solvingBee bctHeight : UInt32) (communityContrib : Bool)
  {txidVec messageProofVec : List UInt8}

/-- The script's bytes: each push is one length byte and the data, so the fields
sit at offsets 3, 8, 12, 14 and 79. -/
theorem hiveProofScript_eq (htxid : txidVec.length = 64) (hsig : messageProofVec.length = 65) :
    hiveProofScript solvingBee bctHeight communityContrib txidVec messageProofVec =
      [OP_RETURN, OP_BEE, 4] ++ Bytes.leBytes solvingBee.toNat 4 ++ [4] ++
        Bytes.leBytes bctHeight.toNat 4 ++
        [if communityContrib then OP_TRUE else OP_FALSE, 64] ++ txidVec ++ [65] ++
        messageProofVec := by
  simp only [hiveProofScript, pushData, pushOpcode, Bytes.length_leBytes, htxid, hsig,
    pushPrefix_of_lt (by decide : 4 < 0x4c), pushPrefix_of_lt (by decide : 64 < 0x4c),
    pushPrefix_of_lt (by decide : 65 < 0x4c), List.append_assoc, List.nil_append,
    List.cons_append]
  rfl

variable (htxid : txidVec.length = 64) (hsig : messageProofVec.length = 65)
include htxid hsig

theorem length_hiveProofScript :
    (hiveProofScript solvingBee bctHeight communityContrib txidVec messageProofVec).length =
      144 := by
  rw [hiveProofScript_eq solvingBee bctHeight communityContrib htxid hsig]
  simp [htxid, hsig]

/-- The validator decodes the fields the miner wrote. -/
theorem decodeHiveProof_hiveProofScript :
    decodeHiveProof (hiveProofScript solvingBee bctHeight communityContrib txidVec
        messageProofVec) =
      .ok ⟨solvingBee, bctHeight, communityContrib, txidVec⟩ := by
  rw [hiveProofScript_eq solvingBee bctHeight communityContrib htxid hsig]
  -- `OP_FALSE` is `0x00`, so only `OP_TRUE` reads back as the flag
  have hflag : ((if communityContrib then OP_TRUE else OP_FALSE) == OP_TRUE) = communityContrib := by
    cases communityContrib <;> decide
  -- each read lands on its field; what a read takes from the field before is empty
  simp [decodeHiveProof, readLE32, Bytes.readLE_of_le, htxid, hsig, OP_RETURN, OP_BEE,
    List.drop_append, Bytes.leValue_leBytes, List.drop_of_length_le, hflag]

/-- `checkHoneySig` reads the signature back at bytes 79 to 143. -/
theorem slice_hiveProofScript_messageSig {ε : Type} :
    (Checked.slice (hiveProofScript solvingBee bctHeight communityContrib txidVec
        messageProofVec) 79 (79 + 65) : Checked ε (List UInt8)) = .ok messageProofVec := by
  rw [hiveProofScript_eq solvingBee bctHeight communityContrib htxid hsig]
  simp [htxid, hsig, List.drop_append, List.drop_of_length_le, List.take_of_length_le]

end Script

/-! ## The bee hash -/

/-- `CHashWriter << i` for an `int` writes the bytes of `(uint32_t)i`, so the miner's
hash is the validator's at the nonce it stores. -/
theorem minerHashSHA256_eq (env : ChainEnv) (deterministicRandString txid : List UInt8)
    (i : Int) :
    minerHashSHA256 env deterministicRandString txid i =
      beeHashSHA256 env deterministicRandString txid (UInt32.ofInt i) := by
  rw [minerHashSHA256, beeHashSHA256, toNat_uint32OfInt]

/-- A non-negative `int` below `2 ^ 32` has the decimal text of its `uint32_t`, and
with strings free of NUL bytes the C string is the whole text. -/
theorem minerHashMinotaur_eq (env : ChainEnv) {deterministicRandString txid : List UInt8}
    (hr : 0 ∉ deterministicRandString) (ht : 0 ∉ txid) {i : Int} (h0 : 0 ≤ i)
    (h1 : i < 2 ^ 32) :
    minerHashMinotaur env deterministicRandString txid i =
      beeHashMinotaur env deterministicRandString txid (UInt32.ofInt i) := by
  have hdec : intDecimal i = decimalString (UInt32.ofInt i).toNat := by
    rw [intDecimal, if_neg (by omega), toNat_uint32OfInt, Int.emod_eq_of_lt h0 h1]
  have hnul : 0 ∉ deterministicRandString ++ txid ++ decimalString (UInt32.ofInt i).toNat := by
    simp only [List.mem_append, not_or]
    exact ⟨⟨hr, ht⟩, zero_not_mem_decimalString _⟩
  rw [minerHashMinotaur, beeHashMinotaur, hdec, cStr_of_zero_not_mem hnul]

/-- The bee of a bin thread's solution passes the validator's hash check, by the
algorithm the thread used. -/
theorem checkBeeHash_of_binThread (env : ChainEnv) (pindexPrev : CBlockIndex)
    (stop : Nat → Bool) (bin : List CBeeRange) {beeRange : CBeeRange} {i : Int}
    (hsolved : binThread env pindexPrev stop bin = some (beeRange, i)) (h0 : 0 ≤ i)
    (h1 : i < 2 ^ 32) (ht : 0 ∉ beeRange.txid) (bctHeight : UInt32) :
    checkBeeHash env pindexPrev ⟨UInt32.ofInt i, bctHeight, beeRange.communityContrib,
      beeRange.txid⟩ = .ok () := by
  have hr := zero_not_mem_GetDeterministicRandString pindexPrev
  rw [checkBeeHash_eq_ok_iff]
  unfold binThread at hsolved
  cases hmx : IsMinotaurXEnabled env (some pindexPrev) with
  | false =>
    rw [hmx, if_neg (by decide)] at hsolved
    obtain ⟨-, hlt, -⟩ := scanBin_solved hsolved
    simpa [minerHashSHA256_eq] using hlt
  | true =>
    rw [hmx, if_pos rfl] at hsolved
    obtain ⟨-, hlt, -⟩ := scanBin_solved hsolved
    simpa [minerHashMinotaur_eq env hr ht h0 h1] using hlt

/-! ## Agreement -/

/-- A hex digit is never NUL. -/
theorem zero_not_mem_of_hexDigits {t : List UInt8} (ht : ∀ c ∈ t, (Bytes.HexDigit c).isSome) :
    0 ∉ t := by
  intro h0
  have hnone : Bytes.HexDigit 0 = none := by decide
  simpa [hnone] using ht 0 h0

/-- Miner and validator agree on the hive proof. A bin thread's solution `i`, below
`2 ^ 31`, of a range whose txid is 64 hex digits, written with the BCT height
`bctHeight` and a 65-byte signature: the script has the 144 bytes the validator
requires, the validator decodes from it the nonce `i` (stored into the `uint32_t`
`solvingBee`), the height, the flag and the txid, reads the signature back, and
the bee hash it recomputes meets the target. -/
theorem BusyBees_proof_agrees (env : ChainEnv) (pindexPrev : CBlockIndex) (stop : Nat → Bool)
    (bin : List CBeeRange) {beeRange : CBeeRange} {i : Int} (bctHeight : UInt32)
    {messageProofVec : List UInt8}
    (hsolved : binThread env pindexPrev stop bin = some (beeRange, i))
    (hi : 0 ≤ i ∧ i < 2 ^ 31)
    (htxid : beeRange.txid.length = 64 ∧ ∀ c ∈ beeRange.txid, (Bytes.HexDigit c).isSome)
    (hsig : messageProofVec.length = 65) :
    144 ≤ (hiveProofScript (UInt32.ofInt i) bctHeight beeRange.communityContrib beeRange.txid
        messageProofVec).length ∧
      decodeHiveProof (hiveProofScript (UInt32.ofInt i) bctHeight beeRange.communityContrib
          beeRange.txid messageProofVec) =
        .ok ⟨UInt32.ofInt i, bctHeight, beeRange.communityContrib, beeRange.txid⟩ ∧
      ((UInt32.ofInt i).toNat : Int) = i ∧
      (Checked.slice (hiveProofScript (UInt32.ofInt i) bctHeight beeRange.communityContrib
          beeRange.txid messageProofVec) 79 (79 + 65) : Checked String (List UInt8)) =
        .ok messageProofVec ∧
      checkBeeHash env pindexPrev
          ⟨UInt32.ofInt i, bctHeight, beeRange.communityContrib, beeRange.txid⟩ = .ok () := by
  obtain ⟨h0, h1⟩ := hi
  have hnonce : ((UInt32.ofInt i).toNat : Int) = i := by
    rw [toNat_uint32OfInt, Int.emod_eq_of_lt h0 (by omega)]
    omega
  refine ⟨?_, decodeHiveProof_hiveProofScript _ _ _ htxid.1 hsig, hnonce,
    slice_hiveProofScript_messageSig _ _ _ htxid.1 hsig,
    checkBeeHash_of_binThread env pindexPrev stop bin hsolved h0 (by omega)
      (zero_not_mem_of_hexDigits htxid.2) bctHeight⟩
  rw [length_hiveProofScript _ _ _ htxid.1 hsig]

/-- The first bee of a one-bee range on a node whose hashes are all zero, under the
mainnet hive target that `GetNextHiveWorkRequired` gives at the genesis block. -/
theorem BusyBees_proof_agrees_first_bee :
    let env : ChainEnv := (constEnv mainParams).withHiveRetarget mainHiveParams
    let genesis : CBlockIndex :=
      ⟨⟨Uint256.zero, 0, ⟨1, Uint256.zero, Uint256.zero, 0, 0, 0⟩, true, 1⟩, [], ⟨rfl, trivial⟩,
        trivial⟩
    let beeRange : CBeeRange := ⟨List.replicate 64 0x30, false, 0, 1⟩
    let sig := List.replicate 65 (0 : UInt8)
    binThread env genesis (fun _ => false) [beeRange] = some (beeRange, 0) ∧
      (0 ≤ (0 : Int) ∧ (0 : Int) < 2 ^ 31) ∧
      (beeRange.txid.length = 64 ∧ ∀ c ∈ beeRange.txid, (Bytes.HexDigit c).isSome) ∧
      sig.length = 65 ∧
      144 ≤ (hiveProofScript (UInt32.ofInt 0) 0 beeRange.communityContrib beeRange.txid
          sig).length ∧
      decodeHiveProof (hiveProofScript (UInt32.ofInt 0) 0 beeRange.communityContrib
          beeRange.txid sig) =
        .ok ⟨UInt32.ofInt 0, 0, beeRange.communityContrib, beeRange.txid⟩ ∧
      ((UInt32.ofInt 0).toNat : Int) = 0 ∧
      (Checked.slice (hiveProofScript (UInt32.ofInt 0) 0 beeRange.communityContrib
          beeRange.txid sig) 79 (79 + 65) : Checked String (List UInt8)) = .ok sig ∧
      checkBeeHash env genesis ⟨UInt32.ofInt 0, 0, beeRange.communityContrib, beeRange.txid⟩ =
        .ok () := by
  intro env genesis beeRange sig
  have hsolved : binThread env genesis (fun _ => false) [beeRange] = some (beeRange, 0) := by
    decide +kernel
  have hi : 0 ≤ (0 : Int) ∧ (0 : Int) < 2 ^ 31 := by decide
  have htxid : beeRange.txid.length = 64 ∧ ∀ c ∈ beeRange.txid, (Bytes.HexDigit c).isSome := by
    decide +kernel
  have hsig : sig.length = 65 := rfl
  exact ⟨hsolved, hi, htxid, hsig,
    BusyBees_proof_agrees env genesis (fun _ => false) [beeRange] 0 hsolved hi htxid hsig⟩

end Cascoin
