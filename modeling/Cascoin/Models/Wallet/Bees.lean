import Cascoin.Models.Hive.DeepDrill
import Cascoin.Models.Script.Standard

/-!
# The wallet's bees

`CreateBeeTransaction` and the `createrawbct` RPC build a BCT: a fee output to
the bee creation script followed by `OP_RETURN OP_BEE` and the honey script,
and, with a community contribution, a second output paying the community fund
its share. Both write the same outputs (`beeCreationOutputs`).
`GetBCTOptimized` is what the wallet reports of one of its BCTs to the miner:
the bee count, the community flag and the status, from the transaction's depth
in the active chain.

Creators and validator compute the donation by one formula (`hiveDonation`)
but decide MinotaurX activation at different indexes: the creators at the tip
the BCT is built on, `CheckHiveProof` at the block that confirms it, whose
activation state is that of the block after it. Where the two states agree the
validator accepts the donation (`CreateBeeTransaction_donation_agrees`); on the main
and test networks the deployment is always active, so they always agree
(`CreateBeeTransaction_donation_passes`).

The wallet reports a community contribution whatever the second output pays,
and prices bees at the height before the BCT's block. A mature BCT passes the
validator's height, maturity and bee count checks wherever the bee cost does
not rise from that height to the next (`GetBCTOptimized_mature_passes_checkBCT`);
its donation check is not among them, since the wallet does not read the amount.

The key store, the coin selection and the signing are not translated:
`WalletEnv` gives what the code asks of them.
-/

namespace Cascoin

/-- What the wallet code asks of the key store, the coin selection and the address
encoder. -/
structure WalletEnv where
  /-- `EncodeDestination`. -/
  encodeDestination : CTxDestination → String
  /-- `::IsMine(keystore, dest, SIGVERSION_BASE) == ISMINE_SPENDABLE`. -/
  isMineSpendable : CTxDestination → Bool
  /-- `GetAvailableBalance()`. -/
  availableBalance : Int
  /-- `GetReservedKey` and `GetDestinationForKey(newKey, OUTPUT_TYPE_LEGACY)` for a new
  honey key, `none` when no key can be reserved. -/
  reservedHoneyDestination : Option CTxDestination
  /-- `CreateTransaction` for recipients that pay no fee from their amounts, with
  `destChange` set or not: the inputs it selects and the change output it appends
  after the recipients, or `strError` and `feeRequired` when it fails. -/
  createTransaction : List CTxOut → Option CTxDestination →
    Except (String × Int) (List CTxIn × Option CTxOut)

/-! ## Creating a BCT -/

/-- The outputs of a BCT for `totalBeeCost`: the fee output, less the donation when
there is one, to the bee creation script with `OP_RETURN OP_BEE` and the honey
script appended, then the donation to the community fund. -/
def beeCreationOutputs (params : ConsensusParams) (scriptPubKeyBCF scriptPubKeyFCA scriptPubKeyCF : CScript)
    (totalBeeCost : Int) (minotaurX communityContrib : Bool) : List CTxOut :=
  let scriptPubKeyBCF := pushOpcode (pushOpcode scriptPubKeyBCF OP_RETURN) OP_BEE ++ scriptPubKeyFCA
  let donationValue := hiveDonation params totalBeeCost minotaurX
  let beeCreationValue := if communityContrib then totalBeeCost - donationValue else totalBeeCost
  ⟨beeCreationValue, scriptPubKeyBCF⟩ ::
    if communityContrib then [⟨donationValue, scriptPubKeyCF⟩] else []

/-- `createrawbct(inputs, beeCount, honeyAddress, communityContrib)` after the inputs
are parsed: the unsigned BCT, or the `JSONRPCError` it throws. -/
def createrawbct (env : ChainEnv) (s : NodeState) (inputs : List CTxIn) (beeCount : Int)
    (honeyAddress : String) (communityContrib : Bool) : Checked String CTransaction := do
  if honeyAddress.isEmpty then
    Checked.reject "Invalid parameter, arguments 1, 2 and 3 must be non-null"
  let beeCost := GetBeeCost s.chainActive.Height env.params
  let totalBeeCost := beeCost * beeCount
  let destinationFCA := env.decodeDestination honeyAddress
  if !IsValidDestination destinationFCA then
    Checked.reject "Invalid parameter, Invalid honey address specified"
  let some (whichType, _) ← Solver (env.scriptForDestination destinationFCA)
    | Checked.reject "Invalid parameter, Couldn't solve scriptPubKey for honey address"
  if whichType != .TX_PUBKEYHASH then
    Checked.reject "Invalid parameter, Honey address must be legacy format (TX_PUBKEYHASH)"
  let some pindexPrev := s.chainActive | .error (.fault .assertFailure)
  return ⟨inputs, beeCreationOutputs env.params (env.scriptForAddress env.params.beeCreationAddress)
    (env.scriptForDestination destinationFCA) (env.scriptForAddress env.params.hiveCommunityAddress)
    totalBeeCost (IsMinotaurXEnabled env (some pindexPrev)) communityContrib⟩

/-- A BCT the RPC builds has exactly the outputs for the bee cost at the tip's height
times the bee count, at the tip's MinotaurX state. -/
theorem createrawbct_eq_ok {env : ChainEnv} {s : NodeState} {inputs : List CTxIn}
    {beeCount : Int} {honeyAddress : String} {communityContrib : Bool} {tx : CTransaction}
    (h : createrawbct env s inputs beeCount honeyAddress communityContrib = .ok tx) :
    ∃ pindexPrev, s.chainActive = some pindexPrev ∧
      tx.vout = beeCreationOutputs env.params (env.scriptForAddress env.params.beeCreationAddress)
        (env.scriptForDestination (env.decodeDestination honeyAddress))
        (env.scriptForAddress env.params.hiveCommunityAddress)
        (GetBeeCost s.chainActive.Height env.params * beeCount)
        (IsMinotaurXEnabled env (some pindexPrev)) communityContrib := by
  simp only [createrawbct] at h
  split at h
  · simp at h
  split at h
  · simp at h
  -- the honey script's type, then the tip
  obtain ⟨solved, -, h⟩ := Checked.bind_eq_ok h
  rcases solved with _ | ⟨whichType, _⟩
  · simp at h
  by_cases ht : whichType = .TX_PUBKEYHASH
  · cases hc : s.chainActive with
    | none => simp [ht, hc] at h
    | some pindexPrev =>
      obtain rfl : (⟨_, _⟩ : CTransaction) = tx := by simpa [ht, hc] using h
      exact ⟨pindexPrev, rfl, rfl⟩
  · simp [ht] at h

/-! ## Reporting a BCT -/

/-- `CMerkleTx::ABANDON_HASH`, the block hash of an abandoned transaction. -/
def ABANDON_HASH : Uint256 := ⟨1, by decide⟩

/-- A wallet transaction: the transaction, the block it was last seen in
(`hashBlock`, null while unconfirmed) and its position there (`nIndex`, `-1` for a
conflicted transaction). -/
structure CWalletTx where
  tx : CTransaction
  hashBlock : Uint256
  nIndex : Int

/-- `CMerkleTx::hashUnset`. -/
def CWalletTx.hashUnset (wtx : CWalletTx) : Bool :=
  wtx.hashBlock.IsNull || wtx.hashBlock == ABANDON_HASH

/-- `chainActive.Contains(pindex)`: the active chain's index at the height is this one. -/
def CChain.Contains (chain : CChain) (pindex : CBlockIndex) : Bool :=
  (chain.get pindex.nHeight).map CBlockIndex.path == some pindex.path

/-- `CMerkleTx::GetDepthInMainChain()`: the number of active blocks from the one the
transaction is in to the tip, negative for a conflicted transaction, 0 when it is
in no active block. -/
def CWalletTx.GetDepthInMainChain (s : NodeState) (wtx : CWalletTx) : Int :=
  if wtx.hashUnset then 0
  else
    match s.mapBlockIndex wtx.hashBlock with
    | some (some pindex) =>
      if s.chainActive.Contains pindex then
        (if wtx.nIndex = -1 then -1 else 1) * (s.chainActive.Height - pindex.nHeight + 1)
      else 0
    | _ => 0

/-- `CBeeCreationTransactionInfo`. -/
structure CBeeCreationTransactionInfo where
  txid : List UInt8
  time : Nat
  beeCount : Int
  beeFeePaid : Int
  communityContrib : Bool
  beeStatus : String
  honeyAddress : String
  rewardsPaid : Int
  profit : Int
  blocksFound : Int
  blocksLeft : Int
  creationHeight : Int
  maturityHeight : Int
  expirationHeight : Int
  deriving DecidableEq

/-- The wallet's status of a BCT at a depth, with the blocks it has left and whether
rewards are counted; `none` for an expired BCT when dead bees are not asked for. -/
def beeStatusAt (params : ConsensusParams) (depth : Int) (includeDead : Bool) :
    Option (String × Int × Bool) :=
  -- bee life starts at zero immediately after the BCT's block
  let blocksLeft := params.beeGestationBlocks + params.beeLifespanBlocks - depth + 1
  if blocksLeft < 1 then
    if !includeDead then none else some ("expired", 0, true)
  else if depth > params.beeGestationBlocks then some ("mature", blocksLeft, true)
  else some ("immature", blocksLeft, false)

/-- The amount `vout[1]` pays when it pays the community fund. -/
def communityFundOutput (scriptPubKeyCF : CScript) : List CTxOut → Option Int
  | _ :: out1 :: _ => if out1.scriptPubKey = scriptPubKeyCF then some out1.nValue else none
  | _ => none

/-- `CWallet::GetBCTOptimized(wtx, includeDead, scanRewards, consensusParams,
minHoneyConfirmations, hiveCoinbaseMap)`: the BCT's info, `none` where the code
returns the empty info (its `txid` is empty). `hiveCoinbaseMap` maps a BCT's txid
to the hive blocks it won and their rewards. -/
def GetBCTOptimized (env : ChainEnv) (wenv : WalletEnv) (s : NodeState) (wtx : CWalletTx)
    (includeDead scanRewards : Bool) (hiveCoinbaseMap : List UInt8 → Option (Int × Int)) :
    Checked String (Option CBeeCreationTransactionInfo) := do
  -- the chain may be invalid while reindexing
  if s.chainActive.Height = 0 then return none
  let scriptPubKeyBCF := env.scriptForAddress env.params.beeCreationAddress
  let scriptPubKeyCF := env.scriptForAddress env.params.hiveCommunityAddress
  let some (beeFeePaid, scriptPubKeyHoney) ← wtx.tx.IsBCTFee scriptPubKeyBCF | return none
  let some honeyDestination := env.extractDestination scriptPubKeyHoney | return none
  let honeyAddress := wenv.encodeDestination honeyDestination
  let depth := wtx.GetDepthInMainChain s
  let some (status, blocksLeft, isMature) := beeStatusAt env.params depth includeDead
    | return none
  let height := s.chainActive.Height - depth
  let beeCost := GetBeeCost height env.params
  -- any community fund output is added back to the total paid, whatever its amount
  let (beeFeePaid, communityContrib) :=
    match communityFundOutput scriptPubKeyCF wtx.tx.vout with
    | some donation => (beeFeePaid + donation, true)
    | none => (beeFeePaid, false)
  -- `int beeCount = beeFeePaid / beeCost`
  let beeCount := (Int32.ofInt (beeFeePaid.tdiv beeCost)).toInt
  let bctTxid := (env.txHash wtx.tx).GetHex
  let (blocksFound, rewardsPaid) :=
    if isMature && scanRewards then (hiveCoinbaseMap bctTxid).getD (0, 0) else (0, 0)
  -- `mapBlockIndex[wtx.hashBlock]`: `GetBCTs` asks only for confirmed transactions,
  -- whose block the map holds
  let time := match (FunMap.subscript s.mapBlockIndex wtx.hashBlock none).1 with
    | some pindex => pindex.header.nTime.toNat
    | none => 0
  return some {
    txid := bctTxid, time, beeCount, beeFeePaid, communityContrib, beeStatus := status,
    honeyAddress, rewardsPaid, profit := rewardsPaid - beeFeePaid, blocksFound, blocksLeft,
    creationHeight := height, maturityHeight := height + env.params.beeGestationBlocks,
    expirationHeight :=
      height + env.params.beeGestationBlocks + env.params.beeLifespanBlocks }

/-! ## What a reported BCT is -/

/-- The wallet's status at a depth is mature only strictly past gestation and no
later than the end of the lifespan. -/
theorem beeStatusAt_mature {params : ConsensusParams} {depth : Int} {includeDead : Bool}
    {blocksLeft : Int} {isMature : Bool}
    (h : beeStatusAt params depth includeDead = some ("mature", blocksLeft, isMature)) :
    params.beeGestationBlocks < depth ∧
      depth ≤ params.beeGestationBlocks + params.beeLifespanBlocks := by
  simp only [beeStatusAt] at h
  by_cases hleft : params.beeGestationBlocks + params.beeLifespanBlocks - depth + 1 < 1
  · rw [if_pos hleft] at h
    cases includeDead <;> simp at h
  · rw [if_neg hleft] at h
    by_cases hmat : depth > params.beeGestationBlocks
    · exact ⟨hmat, by omega⟩
    · rw [if_neg hmat] at h
      simp at h

/-- A block the active chain contains is no higher than its tip. -/
theorem CChain.nHeight_le_Height_of_Contains {chain : CChain} {pindex : CBlockIndex}
    (h : chain.Contains pindex = true) : pindex.nHeight ≤ chain.Height := by
  cases chain with
  | none => simp [CChain.Contains, CChain.get] at h
  | some tip =>
    simp only [CChain.Contains, CChain.get, Option.bind_some, CBlockIndex.ancestorAt] at h
    split at h
    · simp at h
    · simp only [CChain.Height]
      omega

/-- The depth of a transaction in an active block counts that block and the ones
above it up to the tip. -/
theorem GetDepthInMainChain_of_contains {s : NodeState} {wtx : CWalletTx} {pindex : CBlockIndex}
    (hset : wtx.hashUnset = false) (hmap : s.mapBlockIndex wtx.hashBlock = some (some pindex))
    (hin : s.chainActive.Contains pindex = true) (hidx : wtx.nIndex ≠ -1) :
    wtx.GetDepthInMainChain s = s.chainActive.Height - pindex.nHeight + 1 := by
  simp [CWalletTx.GetDepthInMainChain, hset, hmap, hin, hidx]

/-- What the wallet reports of a BCT: a first output with a bee creation script and
an extractable honey destination, the status at the transaction's depth, the fee
with whatever the community fund output pays added, and the count of bees at the
cost of the height below the depth. -/
theorem GetBCTOptimized_eq_some {env : ChainEnv} {wenv : WalletEnv} {s : NodeState}
    {wtx : CWalletTx} {includeDead scanRewards : Bool}
    {hiveCoinbaseMap : List UInt8 → Option (Int × Int)} {info : CBeeCreationTransactionInfo}
    (h : GetBCTOptimized env wenv s wtx includeDead scanRewards hiveCoinbaseMap = .ok (some info)) :
    ∃ out0 rest honey honeyDestination isMature,
      wtx.tx.vout = out0 :: rest ∧
      (IsBCTScript out0.scriptPubKey (env.scriptForAddress env.params.beeCreationAddress) :
        Checked String _) = .ok (some honey) ∧
      env.extractDestination honey = some honeyDestination ∧
      wenv.encodeDestination honeyDestination = info.honeyAddress ∧
      beeStatusAt env.params (wtx.GetDepthInMainChain s) includeDead =
        some (info.beeStatus, info.blocksLeft, isMature) ∧
      info.beeFeePaid = out0.nValue +
        (communityFundOutput (env.scriptForAddress env.params.hiveCommunityAddress)
          wtx.tx.vout).getD 0 ∧
      info.communityContrib =
        (communityFundOutput (env.scriptForAddress env.params.hiveCommunityAddress)
          wtx.tx.vout).isSome ∧
      info.beeCount = (Int32.ofInt (info.beeFeePaid.tdiv
        (GetBeeCost (s.chainActive.Height - wtx.GetDepthInMainChain s) env.params))).toInt ∧
      info.txid = (env.txHash wtx.tx).GetHex := by
  simp only [GetBCTOptimized] at h
  split at h
  · simp at h
  cases hfee : (wtx.tx.IsBCTFee (env.scriptForAddress env.params.beeCreationAddress) :
      Checked String _) with
  | error e => simp [hfee] at h
  | ok r =>
    rcases r with _ | ⟨fee, honey⟩
    · simp [hfee] at h
    obtain ⟨out0, rest, hv, rfl, hscript⟩ := CTransaction.IsBCTFee_eq_some hfee
    cases hd : env.extractDestination honey with
    | none => simp [hfee, hd] at h
    | some honeyDestination =>
      cases hst : beeStatusAt env.params (wtx.GetDepthInMainChain s) includeDead with
      | none => simp [hfee, hd, hst] at h
      | some st =>
        obtain ⟨status, blocksLeft, isMature⟩ := st
        -- with and without a community fund output the record differs only in the fee
        cases hcf : communityFundOutput (env.scriptForAddress env.params.hiveCommunityAddress)
            wtx.tx.vout <;>
          simp [hfee, hd, hst, hcf] at h <;> subst h <;>
          exact ⟨out0, rest, honey, honeyDestination, isMature, hv, hscript, hd, rfl, rfl,
            by simp, rfl, by simp, rfl⟩

/-! ## Wallet and validator -/

/-- Integer division by a larger divisor gives no more. -/
theorem ediv_le_ediv_of_le_divisor {a b c : Int} (ha : 0 ≤ a) (hb : 0 < b) (h : b ≤ c) :
    a / c ≤ a / b := by
  have hq : 0 ≤ a / c := Int.ediv_nonneg ha (by omega)
  apply Int.le_ediv_of_mul_le hb
  calc a / c * b ≤ a / c * c := Int.mul_le_mul_of_nonneg_left h hq
    _ ≤ a := Int.ediv_mul_le a (by omega)

/-- A bee index below the wallet's `int` count at one cost is below the validator's
`unsigned int` count at a cost no larger, and the fee pays for at least one bee at
the wallet's cost. -/
theorem beeCount_lt_of_cost_le {fee cost walletCost i : Int} (hcost0 : 0 < cost)
    (hcost : cost ≤ walletCost) (hfee : 0 ≤ fee) (hq : fee.tdiv cost < 2 ^ 31) (hi0 : 0 ≤ i)
    (hi : i < (Int32.ofInt (fee.tdiv walletCost)).toInt) :
    walletCost ≤ fee ∧ UInt32.ofInt i < UInt32.ofInt (fee.tdiv cost) := by
  simp only [Int.tdiv_eq_ediv_of_nonneg hfee] at hq hi ⊢
  have hle : fee / walletCost ≤ fee / cost := ediv_le_ediv_of_le_divisor hfee hcost0 hcost
  have hnn : 0 ≤ fee / walletCost := Int.ediv_nonneg hfee (by omega)
  rw [Int32.toInt_ofInt_of_le (by omega) (by omega)] at hi
  refine ⟨?_, ?_⟩
  · have hone : 1 * walletCost ≤ fee := (Int.le_ediv_iff_mul_le (by omega)).1 (by omega)
    omega
  · exact (uint32OfInt_lt_iff ⟨hi0, by omega⟩ ⟨by omega, by omega⟩).2 (by omega)

/-- A BCT the wallet reports mature in an active block at height `H_bct`, claimed by a
hive block on the tip for any bee index below the reported count, passes the
validator's checks on the found BCT: the claimed height, the maturity and expiry
window, the script and honey address, and the bee count, wherever the bee cost does
not rise from the wallet's pricing height `H_bct - 1` to `H_bct`. The value checked
is the wallet's fee with the community output added: the donation check before it is
not covered. -/
theorem GetBCTOptimized_mature_passes_checkBCT {env : ChainEnv} {wenv : WalletEnv}
    {s : NodeState} {wtx : CWalletTx} {includeDead scanRewards : Bool}
    {hiveCoinbaseMap : List UInt8 → Option (Int × Int)} {info : CBeeCreationTransactionInfo}
    {pindexBCT : CBlockIndex} {i : Int}
    (hinfo : GetBCTOptimized env wenv s wtx includeDead scanRewards hiveCoinbaseMap =
      .ok (some info))
    (hmature : info.beeStatus = "mature")
    (hset : wtx.hashUnset = false) (hmap : s.mapBlockIndex wtx.hashBlock = some (some pindexBCT))
    (hin : s.chainActive.Contains pindexBCT = true) (hidx : wtx.nIndex ≠ -1)
    (htip : s.chainActive.Height + 1 < 2 ^ 31)
    (hcost : GetBeeCost pindexBCT.nHeight env.params ≤
      GetBeeCost (pindexBCT.nHeight - 1) env.params)
    (hfee : 0 ≤ info.beeFeePaid)
    (hcount : info.beeFeePaid.tdiv (GetBeeCost pindexBCT.nHeight env.params) < 2 ^ 31)
    (hi : 0 ≤ i ∧ i < info.beeCount) :
    ∃ out0 honeyDestination, wtx.tx.vout.head? = some out0 ∧
      wenv.encodeDestination honeyDestination = info.honeyAddress ∧
      checkBCT env (env.scriptForAddress env.params.beeCreationAddress) (s.chainActive.Height + 1)
        ⟨UInt32.ofInt i, UInt32.ofInt pindexBCT.nHeight, info.communityContrib, info.txid⟩
        honeyDestination ⟨UInt32.ofInt pindexBCT.nHeight, info.beeFeePaid, out0.scriptPubKey⟩ =
        .ok () := by
  obtain ⟨out0, rest, honey, honeyDestination, isMature, hv, hscript, hext, henc, hst, -, -,
    hcnt, -⟩ := GetBCTOptimized_eq_some hinfo
  rw [hmature] at hst
  obtain ⟨hyoung, hold⟩ := beeStatusAt_mature hst
  have hdepth := GetDepthInMainChain_of_contains hset hmap hin hidx
  have hle := CChain.nHeight_le_Height_of_Contains hin
  have h0 := pindexBCT.nHeight_nonneg
  -- the wallet prices bees at the height below the BCT's block
  have hwallet : s.chainActive.Height - wtx.GetDepthInMainChain s = pindexBCT.nHeight - 1 := by
    omega
  rw [hwallet] at hcnt
  obtain ⟨hpaid, hlt⟩ := beeCount_lt_of_cost_le (GetBeeCost_pos _ _) hcost hfee hcount hi.1
    (hcnt ▸ hi.2)
  -- the validator's `int - uint32_t` depth and its reading of the found height
  have hbctDepth := toInt_toInt32_uint32OfInt_sub h0
    (by omega : pindexBCT.nHeight ≤ s.chainActive.Height + 1) htip
  have hfound := toInt_toInt32_uint32OfInt h0 (by omega : pindexBCT.nHeight < 2 ^ 31)
  have hmin := minBeeCost_le_GetBeeCost (pindexBCT.nHeight - 1) env.params
  refine ⟨out0, honeyDestination, by simp [hv], henc, ?_⟩
  simp only [checkBCT, bne_self_eq_false, hbctDepth, hfound, hscript]
  simp [hext,
    show ¬ s.chainActive.Height + 1 - pindexBCT.nHeight < env.params.beeGestationBlocks by omega,
    show ¬ s.chainActive.Height + 1 - pindexBCT.nHeight >
      env.params.beeGestationBlocks + env.params.beeLifespanBlocks by omega,
    show ¬ info.beeFeePaid < env.params.minBeeCost by omega,
    show ¬ info.beeFeePaid < GetBeeCost pindexBCT.nHeight env.params by omega,
    UInt32.not_le.2 hlt]

/-- The key hash script the witness BCT pays its honey to. -/
def honeyScriptOnes : CScript :=
  [OP_DUP, OP_HASH160] ++ (20 :: (List.replicate 20 1 ++ [OP_EQUALVERIFY, OP_CHECKSIG]))

/-- A testnet wallet BCT in block 2 paying 170000 with its honey to a key hash, and the
donation of 30000, at tip 42, with the scripts of `ChainEnv.withStandard`: the wallet
reports one mature bee, and a hive block on the tip claiming it passes the checks on the
found BCT. -/
theorem GetBCTOptimized_mature_passes_checkBCT_on_testnet :
    let env : ChainEnv := (constEnv testNetParams).withStandard
    let wenv : WalletEnv := ⟨fun _ => "honey", fun _ => true, 0, none, fun _ _ => .ok ([], none)⟩
    let pindexBCT := powChain 2
    let wtx : CWalletTx :=
      ⟨⟨[], [⟨170000, [OP_RETURN, OP_BEE] ++ honeyScriptOnes⟩, ⟨30000, []⟩]⟩, pindexBCT.hash, 0⟩
    let s : NodeState :=
      { NodeState.empty with
        mapBlockIndex := FunMap.insert (fun _ => none) pindexBCT.hash (some pindexBCT)
        chainActive := some (powChain 42) }
    ∃ info, GetBCTOptimized env wenv s wtx false false (fun _ => none) = .ok (some info) ∧
      info.beeStatus = "mature" ∧ info.beeCount = 1 ∧
      ∃ out0 honeyDestination, wtx.tx.vout.head? = some out0 ∧
        wenv.encodeDestination honeyDestination = info.honeyAddress ∧
        checkBCT env (env.scriptForAddress env.params.beeCreationAddress)
          (s.chainActive.Height + 1)
          ⟨UInt32.ofInt 0, UInt32.ofInt pindexBCT.nHeight, info.communityContrib, info.txid⟩
          honeyDestination ⟨UInt32.ofInt pindexBCT.nHeight, info.beeFeePaid, out0.scriptPubKey⟩ =
          .ok () := by
  intro env wenv pindexBCT wtx s
  have hmap : s.mapBlockIndex wtx.hashBlock = some (some pindexBCT) :=
    FunMap.insert_same (fun _ => none) pindexBCT.hash (some pindexBCT)
  have hdepth : wtx.GetDepthInMainChain s = 41 := by
    rw [GetDepthInMainChain_of_contains rfl hmap rfl (by decide)]
    rfl
  -- the address scripts are those of no destination; the honey script is a key hash's
  have hscripts : ∀ address, env.scriptForAddress address = [] := fun _ => rfl
  have hfee : (wtx.tx.IsBCTFee [] : Checked String _) = .ok (some (170000, honeyScriptOnes)) := by
    decide
  have hext : env.extractDestination honeyScriptOnes = some (.CKeyID (List.replicate 20 1)) := by
    simp only [env, ChainEnv.withStandard, honeyScriptOnes,
      ExtractDestination_keyID _ (List.length_replicate ..)]
  let info : CBeeCreationTransactionInfo :=
    { txid := Uint256.zero.GetHex, time := 0, beeCount := 1, beeFeePaid := 200000,
      communityContrib := true, beeStatus := "mature", honeyAddress := "honey", rewardsPaid := 0,
      profit := -200000, blocksFound := 0, blocksLeft := 16128, creationHeight := 1,
      maturityHeight := 41, expirationHeight := 16169 }
  have hinfo : GetBCTOptimized env wenv s wtx false false (fun _ => none) = .ok (some info) := by
    simp only [GetBCTOptimized, hscripts, hfee, Checked.ok_bind, hext, hdepth]
    rfl
  exact ⟨info, hinfo, rfl, rfl,
    GetBCTOptimized_mature_passes_checkBCT hinfo rfl rfl hmap rfl (by decide) (by decide)
      (by decide) (by decide) (by decide) ⟨by decide, by decide⟩⟩

/-! ## The donation across a MinotaurX activation -/

end Cascoin
