import Cascoin.Models.Chain.Node
import Cascoin.Models.Consensus.Pow
import Cascoin.Models.Consensus.Subsidy

/-!
# The hive proof

`CheckHiveProof` accepts a hive-mined block when its coinbase proves that a
mature bee of a bee creation transaction (BCT) won the block. The proof sits in
the coinbase's first output, `OP_RETURN OP_BEE` followed by the bee nonce, the
BCT's height, the community contribution flag, the BCT's txid (64 hex
characters) and a compact signature of the deterministic random string; the
second output pays the honey address.

The checks run in the source's order and each group is one definition:
`hiveParent` (parent lookup, activation, consecutive hive blocks),
`checkNoBCTs`, `readHiveProof` (coinbase shape and the decoded fields),
`checkBeeHash`, `checkHoneySig`, `findBCT` (UTXO set or deep drill, community
contribution) and `checkBCT` (height, maturity, honey address, bee count). A
rejection carries the line the code logs before `return false`.

The deep drill `GetTxByHashAndHeight` reads a block with `ReadBlockFromDisk`,
which re-runs `CheckHiveProof` on a hive block it reads. That recursion has no
bound of its own; `CheckHiveProof` takes the number of nested re-checks the
stack allows and faults with `stackOverflow` past it.
-/

namespace Cascoin

/-- A byte string as the characters of a `std::string`. -/
def bytesToString (b : List UInt8) : String := String.ofList (b.map fun c => Char.ofNat c.toNat)

/-- `std::to_string` of an unsigned number: its decimal digits. -/
def decimalString (n : Nat) : List UInt8 := (Nat.toDigits 10 n).map fun c => UInt8.ofNat c.toNat

/-- `s.c_str()` as a C string: the bytes before the first NUL. -/
def cStr (s : List UInt8) : List UInt8 := s.takeWhile (· != 0)

/-- A string without NUL bytes is its own C string. -/
theorem cStr_of_zero_not_mem {s : List UInt8} (h : 0 ∉ s) : cStr s = s := by
  rw [cStr, List.takeWhile_eq_self_iff]
  intro b hb
  have hne : b ≠ 0 := fun hz => h (hz ▸ hb)
  simpa using hne

theorem ofNat_toNat_ne_zero_of_isDigit {c : Char} (h : c.isDigit) : UInt8.ofNat c.toNat ≠ 0 := by
  simp only [Char.isDigit, Bool.and_eq_true, decide_eq_true_eq] at h
  have h1 : 48 ≤ c.toNat := UInt32.le_iff_toNat_le.mp h.1
  have h2 : c.toNat ≤ 57 := UInt32.le_iff_toNat_le.mp h.2
  intro he
  have hmod : c.toNat % 256 = 0 := by simpa using congrArg UInt8.toNat he
  omega

/-- Decimal digits are never NUL. -/
theorem zero_not_mem_decimalString (n : Nat) : 0 ∉ decimalString n := by
  simp only [decimalString, List.mem_map, not_exists, not_and]
  intro c hc
  exact ofNat_toNat_ne_zero_of_isDigit (Nat.isDigit_of_mem_toDigits (by decide) (by decide) hc)

/-- `GetDeterministicRandString(pindexPrev)`: the hashes of the ancestors 0, 13,
173, 471, 1363 and 12103 steps back, as far as the chain reaches. -/
def GetDeterministicRandString (pindexPrev : CBlockIndex) : List UInt8 :=
  go pindexPrev.path 0 [0, 13, 173, 471, 1363, 12103]
where
  /-- The walk over the `pprev` chain with `steps` taken and the heights still to hit. -/
  go : List BlockIndexEntry → Nat → List Nat → List UInt8
    | e :: rest, steps, h :: hs =>
      if steps = h then e.phashBlock.GetHex ++ go rest (steps + 1) hs
      else go rest (steps + 1) (h :: hs)
    | _, _, _ => []

/-- The string is hex text: it has no NUL byte. -/
theorem zero_not_mem_GetDeterministicRandString (pindexPrev : CBlockIndex) :
    0 ∉ GetDeterministicRandString pindexPrev := by
  have hgo : ∀ path steps hs, 0 ∉ GetDeterministicRandString.go path steps hs := by
    intro path steps hs
    fun_induction GetDeterministicRandString.go path steps hs with
    | case1 e rest steps hs ih =>
      simp only [List.mem_append, not_or]
      exact ⟨Bytes.zero_not_mem_HexStr _, ih⟩
    | case2 e rest steps h hs hmiss ih => exact ih
    | case3 => simp
  exact hgo _ _ _

/-! ## Parent and activation -/

/-- The consecutive-hive loop: hive-mined blocks from `pindexPrev` back, with
`assert(pindexTemp->pprev)` behind each. -/
def hiveBlocksAtTip {ε : Type} (hiveNonceMarker : UInt32) : List BlockIndexEntry → Checked ε Nat
  | [] => pure 0
  | e :: rest =>
    if e.header.IsHiveMined hiveNonceMarker then do
      Checked.assert !rest.isEmpty
      return (← hiveBlocksAtTip hiveNonceMarker rest) + 1
    else pure 0

/-- The parent lookup, the activation checks and the consecutive hive block
limit: the parent and the block's height. -/
def hiveParent (env : ChainEnv) (s : NodeState) (pblock : CBlock) :
    Checked String (CBlockIndex × Int) := do
  -- `mapBlockIndex[hashPrevBlock]` inserts a null entry on a miss, and the
  -- height is read through the pointer before `if (!pindexPrev)`
  let pindexPrev ←
    Checked.deref (FunMap.subscript s.mapBlockIndex pblock.header.hashPrevBlock none).1
  let blockHeight := pindexPrev.nHeight + 1
  if !IsHiveEnabled env (some pindexPrev) then
    Checked.reject "CheckHiveProof: Can't accept a Hive block; Hive is not yet enabled on the network."
  if IsHive11Enabled env (some pindexPrev) then
    let hiveBlocksAtTip ← hiveBlocksAtTip env.params.hiveNonceMarker pindexPrev.path
    if (hiveBlocksAtTip : Int) ≥ env.params.maxConsecutiveHiveBlocks then
      Checked.reject "CheckHiveProof: Too many Hive blocks without a POW block."
  else if pindexPrev.header.IsHiveMined env.params.hiveNonceMarker then
    Checked.reject "CheckHiveProof: Hive block must follow a POW block."
  return (pindexPrev, blockHeight)

/-- No transaction after the coinbase is a BCT; `IsBCT` reads `vout[0]` unguarded. -/
def checkNoBCTs (scriptPubKeyBCF : CScript) (vtx : List CTransaction) : Checked String Unit :=
  if vtx.length > 1 then
    (vtx.drop 1).forM fun tx => do
      if ← tx.IsBCT scriptPubKeyBCF then
        Checked.reject "CheckHiveProof: Hivemined block contains BCTs!"
  else pure ()

/-! ## The proof in the coinbase -/

/-- The fields `CheckHiveProof` decodes from the coinbase's first output. -/
structure HiveProof where
  /-- Bytes 3 to 6. -/
  beeNonce : UInt32
  /-- Bytes 8 to 11. -/
  bctClaimedHeight : UInt32
  /-- Byte 12 is `OP_TRUE`. -/
  communityContrib : Bool
  /-- `txidStr`, bytes 14 to 77. -/
  txid : List UInt8
  deriving DecidableEq

/-- The fixed-offset decoding of the proof from `vout[0].scriptPubKey`. -/
def decodeHiveProof (script : CScript) : Checked String HiveProof := do
  if script.length < 144 then
    Checked.reject
      "CheckHiveProof: vout[0].scriptPubKey isn't long enough to contain hive proof encodings"
  let opReturn ← Checked.get script 0
  let opBee ← Checked.get script 1
  if opReturn != OP_RETURN || opBee != OP_BEE then
    Checked.reject "CheckHiveProof: vout[0].scriptPubKey doesn't start OP_RETURN OP_BEE"
  let beeNonce ← readLE32 script 3
  let bctClaimedHeight ← readLE32 script 8
  let communityContrib := (← Checked.get script 12) == OP_TRUE
  let txid ← Checked.slice script 14 (14 + 64)
  return { beeNonce, bctClaimedHeight, communityContrib, txid }

/-- The coinbase checks and the decoded proof: the coinbase and the decoded
fields. `vtx[0]` is read before `CheckBlock` checks that `vtx` is non-empty. -/
def readHiveProof (vtx : List CTransaction) : Checked String (CTransaction × HiveProof) := do
  let txCoinbase ← Checked.get vtx 0
  if !txCoinbase.IsCoinBase then
    Checked.reject "CheckHiveProof: Coinbase tx isn't valid!"
  let nOut := txCoinbase.vout.length
  if nOut < 2 ∨ nOut > 3 then
    Checked.reject s!"CheckHiveProof: Didn't expect {nOut} vouts!"
  let proof ← decodeHiveProof (← Checked.get txCoinbase.vout 0).scriptPubKey
  return (txCoinbase, proof)

/-- The bee hash before MinotaurX: `CHashWriter << deterministicRandString << txidStr
<< beeNonce`, through `GetHex()` and back into an `arith_uint256`. -/
def beeHashSHA256 (env : ChainEnv) (deterministicRandString txid : List UInt8)
    (beeNonce : UInt32) : Uint256 :=
  uint256S (env.hashWriter (serializeBytes deterministicRandString ++ serializeBytes txid ++
    Bytes.leBytes beeNonce.toNat 4)).GetHex

/-- The bee hash after MinotaurX: `MinotaurHashArbitrary` of the C string of the
concatenation with the nonce's decimal digits, through `ToString()`. -/
def beeHashMinotaur (env : ChainEnv) (deterministicRandString txid : List UInt8)
    (beeNonce : UInt32) : Uint256 :=
  uint256S (env.minotaur (cStr (deterministicRandString ++ txid ++
    decimalString beeNonce.toNat))).GetHex

/-- The bee hash meets the hive target of the next block. -/
def checkBeeHash (env : ChainEnv) (pindexPrev : CBlockIndex) (proof : HiveProof) :
    Checked String Unit := do
  let deterministicRandString := GetDeterministicRandString pindexPrev
  let beeHashTarget := (SetCompact (env.nextHiveWorkRequired pindexPrev)).1
  if !IsMinotaurXEnabled env (some pindexPrev) then
    let beeHash := beeHashSHA256 env deterministicRandString proof.txid proof.beeNonce
    if beeHash.toNat ≥ beeHashTarget then
      Checked.reject "CheckHiveProof: Bee does not meet hash target!"
  else
    let beeHash := beeHashMinotaur env deterministicRandString proof.txid proof.beeNonce
    if beeHash.toNat ≥ beeHashTarget then
      Checked.reject "CheckHive12Proof: Bee does not meet hash target!"

/-- The hash check passes exactly when the bee hash of the parent's algorithm is
below the target. -/
theorem checkBeeHash_eq_ok_iff (env : ChainEnv) (pindexPrev : CBlockIndex) (proof : HiveProof) :
    checkBeeHash env pindexPrev proof = .ok () ↔
      (if IsMinotaurXEnabled env (some pindexPrev) then
        beeHashMinotaur env (GetDeterministicRandString pindexPrev) proof.txid proof.beeNonce
      else beeHashSHA256 env (GetDeterministicRandString pindexPrev) proof.txid proof.beeNonce).toNat <
        (SetCompact (env.nextHiveWorkRequired pindexPrev)).1 := by
  unfold checkBeeHash
  cases IsMinotaurXEnabled env (some pindexPrev) <;> simp

/-- `uint160::ToString()` of a key ID: its bytes in hex, most significant first. -/
def keyIDString (id : List UInt8) : String := bytesToString (Bytes.HexStr id.reverse)

/-- The signature (bytes 79 to 143) and the honey address of the second output:
the key that signed the deterministic random string owns the honey address. -/
def checkHoneySig (env : ChainEnv) (pindexPrev : CBlockIndex) (txCoinbase : CTransaction) :
    Checked String CTxDestination := do
  let script := (← Checked.get txCoinbase.vout 0).scriptPubKey
  let messageSig ← Checked.slice script 79 (79 + 65)
  let honeyOut ← Checked.get txCoinbase.vout 1
  let some honeyDestination := env.extractDestination honeyOut.scriptPubKey
    | Checked.reject "CheckHiveProof: Couldn't extract honey address"
  if !IsValidDestination honeyDestination then
    Checked.reject "CheckHiveProof: Honey address is invalid"
  let some keyID := honeyDestination.keyID?
    | Checked.reject "CheckHiveProof: Can't get pubkey for honey address"
  let mhash := env.hashWriter (serializeBytes (GetDeterministicRandString pindexPrev))
  let some pubkey := env.recoverCompact mhash messageSig
    | Checked.reject "CheckHiveProof: Couldn't recover pubkey from hash"
  if env.pubKeyID pubkey != keyID then
    let got := keyIDString (env.pubKeyID pubkey)
    let want := keyIDString keyID
    Checked.reject s!"CheckHiveProof: Signature mismatch! GetID() = {got}, *keyID = {want}"
  return honeyDestination

/-! ## The deep drill -/

/-- The walk-back loop of `GetTxByHashAndHeight`: `pprev` while above `nHeight`,
with `assert(pindex->pprev)` before each step. -/
def walkBack {ε : Type} (nHeight : Int) (pindex : CBlockIndex) : Checked ε CBlockIndex :=
  if pindex.nHeight > nHeight then
    match h : pindex.pprev with
    | some q => walkBack nHeight q
    | none => .error (.fault .assertFailure)
  else .ok pindex
termination_by pindex.ancestors.length
decreasing_by exact CBlockIndex.ancestors_length_pprev h

/-- `ReadBlockFromDisk(block, pindex, consensusParams)`: the stored block, after the
header check of its kind (`recheck` for a hive block, `CheckProofOfWork` otherwise)
and the hash comparison with the index; `none` for `false`. -/
def ReadBlockFromDisk (recheck : CBlock → Checked String Unit) (env : ChainEnv)
    (s : NodeState) (pindex : CBlockIndex) : Checked String (Option CBlock) := do
  let some block := s.blockAt pindex.entry | return none
  if block.header.IsHiveMined env.params.hiveNonceMarker then
    if let .error _ ← Checked.attempt (recheck block) then return none
  else
    if !(← CheckProofOfWork env.params (env.powHash block.header) block.header.nBits) then
      return none
  if env.blockHash block.header != pindex.hash then return none
  return some block

/-- `GetTxByHashAndHeight(txHash, nHeight, txNew, foundAtOut, pindex, params)`: the
transaction and the index it was found at, `none` for `false`. -/
def GetTxByHashAndHeight (recheck : CBlock → Checked String Unit) (env : ChainEnv)
    (s : NodeState) (txHash : Uint256) (nHeight : Int) (pindex : CBlockIndex) :
    Checked String (Option (CTransaction × CBlockIndex)) := do
  if pindex.nHeight < nHeight then return none
  let pindex ← walkBack nHeight pindex
  if s.fHavePruned && !pindex.entry.haveData && pindex.entry.nTx > 0 then
    Checked.raise "GetTxByHashAndHeight: Block not available (pruned data)"
  let some block ← ReadBlockFromDisk recheck env s pindex
    | Checked.raise "GetTxByHashAndHeight: Block not found on disk"
  -- `CMerkleBlock(block, {txHash})` and its `ExtractMatches`
  let vTxid := block.vtx.map env.txHash
  let (root, vMatched) := env.extractMatches vTxid (vTxid.map (· == txHash))
  if block.vtx.length > 0 && root == block.header.hashMerkleRoot && vMatched == [txHash] then
    if let some tx := block.vtx.find? (fun tx => txHash == env.txHash tx) then
      return some (tx, pindex)
  return none

/-! ## The BCT -/

/-- What `CheckHiveProof` learns about the BCT: `bctFoundHeight`, `bctValue` with the
donation added, and `bctScriptPubKey`. -/
structure BCTFound where
  bctFoundHeight : UInt32
  bctValue : Int
  bctScriptPubKey : CScript

/-- The donation a drilled BCT pays: `vout[1]` must pay the community fund. -/
def donationOfBCT (scriptPubKeyCF : CScript) (bct : CTransaction) : Checked String Int := do
  if bct.vout.length < 2 then
    Checked.reject "CheckHiveProof: Community contrib was indicated but not found"
  let out1 ← Checked.get bct.vout 1
  if out1.scriptPubKey != scriptPubKeyCF then
    Checked.reject "CheckHiveProof: Community contrib was indicated but not found"
  return out1.nValue

/-- The community fund's share of a bee payment: a `communityContribFactor`-th of
the total, half as much again when MinotaurX is enabled. It is the donation the
BCT creators pay and the amount `CheckHiveProof` expects. -/
def hiveDonation (params : ConsensusParams) (total : Int) (minotaurX : Bool) : Int :=
  let donation := total.tdiv params.communityContribFactor
  if minotaurX then donation + (donation >>> (1 : Nat)) else donation

/-- The BCT lookup: the UTXO set first, the block files on the parent's branch
otherwise, then the community contribution when the proof claims one. -/
def findBCT (recheck : CBlock → Checked String Unit) (env : ChainEnv) (s : NodeState)
    (pindexPrev : CBlockIndex) (proof : HiveProof) : Checked String BCTFound := do
  let txHash := uint256S proof.txid
  let claimed := proof.bctClaimedHeight.toInt32.toInt
  -- the height, the output, the activation at the BCT, and the BCT when drilled
  let (bctFoundHeight, out0, bctWasMinotaurXEnabled, bct) ←
    match s.GetCoin ⟨txHash, 0⟩ with
    | some coin =>
      pure (coin.nHeight, coin.out,
        IsMinotaurXEnabled env (s.chainActive.get coin.nHeight.toInt32.toInt),
        (none : Option CTransaction))
    | none => do
      let some (bct, foundAt) ← GetTxByHashAndHeight recheck env s txHash claimed pindexPrev
        | Checked.reject "CheckHiveProof: Couldn't locate indicated BCT"
      let out0 ← Checked.get bct.vout 0
      pure (UInt32.ofInt foundAt.nHeight, out0, IsMinotaurXEnabled env (some foundAt), some bct)
  if !proof.communityContrib then
    return ⟨bctFoundHeight, out0.nValue, out0.scriptPubKey⟩
  let scriptPubKeyCF := env.scriptForAddress env.params.hiveCommunityAddress
  let donationAmount ← match bct with
    | some bct => donationOfBCT scriptPubKeyCF bct
    | none =>
      match s.GetCoin ⟨txHash, 1⟩ with
      | some coin =>
        if coin.out.scriptPubKey != scriptPubKeyCF then
          Checked.reject "CheckHiveProof: Community contrib was indicated but not found"
        else pure coin.out.nValue
      | none => do
        let some (bct, _) ← GetTxByHashAndHeight recheck env s txHash claimed pindexPrev
          | Checked.reject "CheckHiveProof: Couldn't locate indicated BCT"
        donationOfBCT scriptPubKeyCF bct
  let expected := hiveDonation env.params (out0.nValue + donationAmount) bctWasMinotaurXEnabled
  if donationAmount != expected then
    Checked.reject
      s!"CheckHiveProof: BCT pays community fund incorrect amount {donationAmount} (expected {expected})"
  return ⟨bctFoundHeight, out0.nValue + donationAmount, out0.scriptPubKey⟩

/-- The checks on the found BCT: claimed height, maturity, the BCT script and its
honey address, and the bee count. -/
def checkBCT (env : ChainEnv) (scriptPubKeyBCF : CScript) (blockHeight : Int) (proof : HiveProof)
    (honeyDestination : CTxDestination) (found : BCTFound) : Checked String Unit := do
  if found.bctFoundHeight != proof.bctClaimedHeight then
    let claimed := proof.bctClaimedHeight.toNat
    let foundHeight := found.bctFoundHeight.toNat
    Checked.reject
      s!"CheckHiveProof: Claimed BCT height of {claimed} conflicts with found height of {foundHeight}"
  -- `int - uint32_t` is computed unsigned, then stored into an `int`
  let bctDepth := (UInt32.ofInt blockHeight - found.bctFoundHeight).toInt32.toInt
  if bctDepth < env.params.beeGestationBlocks then
    Checked.reject "CheckHiveProof: Indicated BCT is immature."
  if bctDepth > env.params.beeGestationBlocks + env.params.beeLifespanBlocks then
    Checked.reject "CheckHiveProof: Indicated BCT is too old."
  let some scriptPubKeyHoney ← IsBCTScript found.bctScriptPubKey scriptPubKeyBCF
    | Checked.reject "CheckHiveProof: Indicated utxo is not a valid BCT script"
  let some honeyDestinationBCT := env.extractDestination scriptPubKeyHoney
    | Checked.reject "CheckHiveProof: Couldn't extract honey address from BCT UTXO"
  if honeyDestination != honeyDestinationBCT then
    Checked.reject "CheckHiveProof: BCT's honey address does not match claimed honey address!"
  let beeCost := GetBeeCost found.bctFoundHeight.toInt32.toInt env.params
  if found.bctValue < env.params.minBeeCost then
    Checked.reject "CheckHiveProof: BCT fee is less than the minimum possible bee cost"
  if found.bctValue < beeCost then
    Checked.reject "CheckHiveProof: BCT fee is less than the cost for a single bee"
  -- `unsigned int beeCount = bctValue / beeCost`
  let beeCount := UInt32.ofInt (found.bctValue.tdiv beeCost)
  if proof.beeNonce ≥ beeCount then
    Checked.reject "CheckHiveProof: BCT did not create enough bees for claimed nonce!"

/-! ## `CheckHiveProof` -/

/-- What the checks before the BCT lookup establish: the parent, the block's
height, the decoded proof and the honey address. -/
structure HiveFront where
  pindexPrev : CBlockIndex
  blockHeight : Int
  proof : HiveProof
  honeyDestination : CTxDestination

/-- The checks of `CheckHiveProof` up to the BCT lookup, in the source's order. -/
def hiveProofFront (env : ChainEnv) (s : NodeState) (pblock : CBlock) :
    Checked String HiveFront := do
  let (pindexPrev, blockHeight) ← hiveParent env s pblock
  checkNoBCTs (env.scriptForAddress env.params.beeCreationAddress) pblock.vtx
  let (txCoinbase, proof) ← readHiveProof pblock.vtx
  checkBeeHash env pindexPrev proof
  let honeyDestination ← checkHoneySig env pindexPrev txCoinbase
  return ⟨pindexPrev, blockHeight, proof, honeyDestination⟩

/-- The checks of `CheckHiveProof`, with `recheck` the check `ReadBlockFromDisk`
runs on a hive block it reads. -/
def hiveProofBody (recheck : CBlock → Checked String Unit) (env : ChainEnv) (s : NodeState)
    (pblock : CBlock) : Checked String Unit := do
  let front ← hiveProofFront env s pblock
  let found ← findBCT recheck env s front.pindexPrev front.proof
  checkBCT env (env.scriptForAddress env.params.beeCreationAddress) front.blockHeight front.proof
    front.honeyDestination found

/-- `CheckHiveProof(pblock, consensusParams)`, allowing `depth` nested re-checks of
hive blocks read by the deep drill. -/
def CheckHiveProof (env : ChainEnv) (s : NodeState) : Nat → CBlock → Checked String Unit
  | 0 => hiveProofBody (fun _ => .error (.fault .stackOverflow)) env s
  | depth + 1 => hiveProofBody (CheckHiveProof env s depth) env s

/-- At every depth `CheckHiveProof` is the body with some re-check. -/
theorem CheckHiveProof_eq_body (env : ChainEnv) (s : NodeState) (depth : Nat) :
    ∃ recheck, CheckHiveProof env s depth = hiveProofBody recheck env s := by
  cases depth with
  | zero => exact ⟨_, rfl⟩
  | succ depth => exact ⟨_, rfl⟩

end Cascoin
