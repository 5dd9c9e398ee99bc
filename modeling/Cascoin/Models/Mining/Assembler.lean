import Cascoin.Models.Consensus.CheckBlock
import Cascoin.Models.Consensus.Supply
import Cascoin.Models.Consensus.Versionbits
import Cascoin.Models.Hive.Miner
import Cascoin.Models.Script.ScriptNum
import Cascoin.Models.Policy.FeeRate

/-!
# The block assembler

`BlockAssembler::CreateNewBlock` fills a block template: the transactions
`addPackageTxs` selects from the mempool, a coinbase, the witness commitment
`GenerateCoinbaseCommitment` appends to the coinbase, and the header. Given a
hive proof script the block is hive mined: the coinbase's first output is the
proof and its second the honey, the nonce is the hive marker, the target is
the hive difficulty, and BCTs are kept out of the block (`fIncludeBCTs`).

Each time round its loop `addPackageTxs` takes the best package of the
mempool's ancestor-score index or of the modified entries `mapModifiedTx`;
which one that is depends on how the two indexes order fee rates. The model
takes the sequence of picks as input, each an entry and the package totals it
is judged by (`PackageCandidate`), and translates what the loop does with a
pick: the fee cutoff, `TestPackage` with the give-up rule, the ancestors not
yet in the block, `TestPackageTransactions`, the sort and `AddToBlock`. What
is proved holds for every sequence of picks.

`MinerEnv` gathers what `CreateNewBlock` calls but the model does not
translate: the clock, the version bits, lock-time finality, the witness merkle
root, the retarget before MinotaurX and `TestBlockValidity`. Witness data is
not part of the model's transactions, so the witness nonce that
`UpdateUncommittedBlockStructures` gives the coinbase is not modelled.

`CreateNewBlock_hive_valid` states what a hive template passes of the
validator: the nonce and target `ContextualCheckBlockHeader` expects, the
coinbase checks of `CheckHiveProof` up to decoding the proof, its BCT check,
and `ConnectBlock`'s limit on the coinbase, which the coinbase pays exactly.
-/

namespace Cascoin

/-! ## The mempool as the assembler reads it -/

/-- `CTxMemPool::txiter`, by the position of the entry it points to. -/
abbrev txiter := Nat

/-- The data of a `CTxMemPoolEntry` the assembler reads. -/
structure CTxMemPoolEntry where
  tx : CTransaction
  /-- `GetFee()`. -/
  nFee : Int
  /-- `GetTxWeight()`. -/
  nTxWeight : Nat
  /-- `GetSigOpCost()`. -/
  sigOpCost : Nat
  /-- `GetCountWithAncestors()`. -/
  nCountWithAncestors : Nat
  /-- `GetTx().HasWitness()`. -/
  hasWitness : Bool

/-- The mempool: the entry each iterator points to, and what
`CalculateMemPoolAncestors(entry, ancestors, ...)` finds with no limits. -/
structure CTxMemPool where
  entry : txiter → CTxMemPoolEntry
  ancestors : txiter → List txiter

/-- One pick of the loop of `addPackageTxs`: the entry and the package totals it
is judged by, its own ancestor totals or those of its `mapModifiedTx` entry. -/
structure PackageCandidate where
  iter : txiter
  packageSize : Nat
  packageFees : Int
  packageSigOpsCost : Nat

/-! ## The assembler's state -/

/-- `BlockAssembler::Options`. -/
structure BlockAssemblerOptions where
  nBlockMaxWeight : Nat
  blockMinFeeRate : CFeeRate

/-- The constructor's limit on the weight: between 4K and `MAX_BLOCK_WEIGHT` - 4K. -/
def limitBlockMaxWeight (nBlockMaxWeight : Nat) : Nat :=
  max 4000 (min (MAX_BLOCK_WEIGHT - 4000) nBlockMaxWeight)

/-- The state of a `BlockAssembler` while it fills a block: the transactions after
the coinbase with their entries' fees and sigop costs (`pblocktemplate->vTxFees`
and `vTxSigOpsCost` after the coinbase's slot), and the running totals. -/
structure BlockAssembler where
  vtx : List CTransaction
  vTxFees : List Int
  vTxSigOpsCost : List Nat
  nBlockWeight : Nat
  nBlockSigOpsCost : Nat
  nBlockTx : Nat
  nFees : Int
  inBlock : List txiter

namespace BlockAssembler

/-- `resetBlock()`: no transaction yet, with room kept for the coinbase. -/
def resetBlock : BlockAssembler where
  vtx := []
  vTxFees := []
  vTxSigOpsCost := []
  nBlockWeight := 4000
  nBlockSigOpsCost := 400
  nBlockTx := 0
  nFees := 0
  inBlock := []

/-- `TestPackage(packageSize, packageSigOpsCost)`: the package fits the weight and
sigop limits. -/
def TestPackage (s : BlockAssembler) (nBlockMaxWeight packageSize packageSigOpsCost : Nat) :
    Bool :=
  !decide (s.nBlockWeight + WITNESS_SCALE_FACTOR * packageSize ≥ nBlockMaxWeight) &&
    !decide (s.nBlockSigOpsCost + packageSigOpsCost ≥ MAX_BLOCK_SIGOPS_COST)

/-- `onlyUnconfirmed(testSet)`: the entries not in the block yet. -/
def onlyUnconfirmed (s : BlockAssembler) (testSet : List txiter) : List txiter :=
  testSet.filter fun it => !s.inBlock.contains it

/-- `AddToBlock(iter)`. -/
def AddToBlock (mempool : CTxMemPool) (s : BlockAssembler) (iter : txiter) : BlockAssembler :=
  let e := mempool.entry iter
  { vtx := s.vtx ++ [e.tx]
    vTxFees := s.vTxFees ++ [e.nFee]
    vTxSigOpsCost := s.vTxSigOpsCost ++ [e.sigOpCost]
    nBlockWeight := s.nBlockWeight + e.nTxWeight
    nBlockSigOpsCost := s.nBlockSigOpsCost + e.sigOpCost
    nBlockTx := s.nBlockTx + 1
    nFees := s.nFees + e.nFee
    inBlock := s.inBlock.insert iter }

end BlockAssembler

/-- What `CreateNewBlock` calls but the model does not translate. -/
structure MinerEnv where
  /-- `ComputeBlockVersion(pindexPrev, params)`. -/
  computeBlockVersion : CBlockIndex → Int
  /-- `-blockversion`, read on a chain that mines blocks on demand. -/
  blockVersionArg : Option Int
  /-- `GetAdjustedTime()`. -/
  adjustedTime : Int
  /-- `IsWitnessEnabled(pindexPrev, params)`. -/
  witnessEnabled : CBlockIndex → Bool
  /-- `vDeployments[DEPLOYMENT_SEGWIT].nTimeout`. -/
  segwitTimeout : Int
  /-- `IsFinalTx(tx, nBlockHeight, nBlockTime)`: lock times and sequence numbers are
  not fields of the model's transactions. -/
  isFinalTx : CTransaction → Int → Int → Bool
  /-- `BlockWitnessMerkleRoot(block, nullptr)` of a block's transactions. -/
  blockWitnessMerkleRoot : List CTransaction → Uint256
  /-- `GetNextWorkRequired(pindexPrev, pblock, params)`, the retarget before MinotaurX. -/
  nextWorkRequired : CBlockIndex → CBlockHeader → UInt32
  /-- `TestBlockValidity(state, chainparams, block, pindexPrev, false, false)`: `none`
  when the block passes, otherwise `FormatStateMessage(state)`. -/
  testBlockValidity : CBlock → CBlockIndex → Option String

/-! ## Selecting packages -/

/-- `MAX_CONSECUTIVE_FAILURES`. -/
def MAX_CONSECUTIVE_FAILURES : Nat := 1000

section Selection

variable (env : ChainEnv) (menv : MinerEnv) (mempool : CTxMemPool)

/-- `base_blob::operator<`: `memcmp` of the little-endian bytes. -/
def Uint256.lt (a b : Uint256) : Bool :=
  decide (Bytes.leBytes a.toNat 32 < Bytes.leBytes b.toNat 32)

/-- `CompareTxIterByAncestorCount`: fewer ancestors first, ties by transaction hash. -/
def CompareTxIterByAncestorCount (a b : txiter) : Bool :=
  let ea := mempool.entry a
  let eb := mempool.entry b
  if ea.nCountWithAncestors ≠ eb.nCountWithAncestors then
    decide (ea.nCountWithAncestors < eb.nCountWithAncestors)
  else Uint256.lt (env.txHash ea.tx) (env.txHash eb.tx)

/-- `SortForBlock(package, entry, sortedEntries)`: the package sorted by
`CompareTxIterByAncestorCount`. -/
def SortForBlock (package : List txiter) : List txiter :=
  package.insertionSort fun a b => CompareTxIterByAncestorCount env mempool b a = false

variable (nHeight nLockTimeCutoff : Int) (fIncludeWitness fIncludeBCTs : Bool)

/-- `TestPackageTransactions(package)`: every entry is final, has no witness unless
witnesses are included, and is no BCT unless BCTs are. -/
def TestPackageTransactions : List txiter → Checked String Bool
  | [] => pure true
  | it :: rest => do
    let e := mempool.entry it
    if !menv.isFinalTx e.tx nHeight nLockTimeCutoff then pure false
    else if !fIncludeWitness && e.hasWitness then pure false
    else if !fIncludeBCTs then do
      -- `IsBCT` is called only when BCTs are inhibited
      if ← e.tx.IsBCT (env.scriptForAddress env.params.beeCreationAddress) then pure false
      else TestPackageTransactions rest
    else TestPackageTransactions rest

variable (nBlockMaxWeight : Nat) (blockMinFeeRate : CFeeRate)

/-- The loop of `addPackageTxs` over the picks `candidates`, with
`nConsecutiveFailed` failures in a row so far. -/
def addPackageTxs : List PackageCandidate → Nat → BlockAssembler →
    Checked String BlockAssembler
  | [], _, s => pure s
  | c :: rest, nConsecutiveFailed, s => do
    -- `mapTx` entries in the block are skipped and `mapModifiedTx` holds none
    Checked.assert (!s.inBlock.contains c.iter)
    let minFee ← blockMinFeeRate.GetFee c.packageSize
    if c.packageFees < minFee then
      -- everything else has a lower fee rate
      pure s
    else if !s.TestPackage nBlockMaxWeight c.packageSize c.packageSigOpsCost then
      if nConsecutiveFailed + 1 > MAX_CONSECUTIVE_FAILURES ∧
          s.nBlockWeight > nBlockMaxWeight - 4000 then
        -- close to full and nothing fitted for a while: give up
        pure s
      else addPackageTxs rest (nConsecutiveFailed + 1) s
    else do
      let ancestors := (s.onlyUnconfirmed (mempool.ancestors c.iter)).insert c.iter
      if !(← TestPackageTransactions env menv mempool nHeight nLockTimeCutoff fIncludeWitness
          fIncludeBCTs ancestors) then
        addPackageTxs rest nConsecutiveFailed s
      else
        let sortedEntries := SortForBlock env mempool ancestors
        addPackageTxs rest 0 (sortedEntries.foldl (BlockAssembler.AddToBlock mempool) s)

end Selection

/-! ## What the selection keeps -/

namespace BlockAssembler

variable (mempool : CTxMemPool) (s : BlockAssembler) (iter : txiter)

@[simp] theorem AddToBlock_vtx : (s.AddToBlock mempool iter).vtx = s.vtx ++ [(mempool.entry iter).tx] :=
  rfl

@[simp] theorem AddToBlock_vTxFees :
    (s.AddToBlock mempool iter).vTxFees = s.vTxFees ++ [(mempool.entry iter).nFee] := rfl

@[simp] theorem AddToBlock_nFees :
    (s.AddToBlock mempool iter).nFees = s.nFees + (mempool.entry iter).nFee := rfl

end BlockAssembler

section Invariant

variable (env : ChainEnv) (menv : MinerEnv) (mempool : CTxMemPool) (nHeight nLockTimeCutoff : Int)
  (fIncludeWitness fIncludeBCTs : Bool)

/-- The checks `TestPackageTransactions` makes of one entry. -/
def PassesTxChecks (e : CTxMemPoolEntry) : Prop :=
  menv.isFinalTx e.tx nHeight nLockTimeCutoff = true ∧
    (fIncludeWitness = false → e.hasWitness = false) ∧
    (fIncludeBCTs = false → (e.tx.IsBCT (env.scriptForAddress env.params.beeCreationAddress) :
      Checked String Bool) = .ok false)

/-- A check that turns a `true` of `x` into `false` and goes on with `k` otherwise
returns `true` exactly when `x` gives `false` and `k` gives `true`. -/
theorem bind_unless_eq_true {x k : Checked String Bool} :
    (x >>= fun b => if b = true then .ok false else k) = .ok true ↔ x = .ok false ∧ k = .ok true := by
  rcases x with e | b
  · simp [Checked.error_bind]
  · cases b <;> simp

/-- A package passes exactly when its first entry passes the checks and the rest of
it does. -/
theorem TestPackageTransactions_cons_eq_true (it : txiter) (rest : List txiter) :
    TestPackageTransactions env menv mempool nHeight nLockTimeCutoff fIncludeWitness fIncludeBCTs
        (it :: rest) = .ok true ↔
      PassesTxChecks env menv nHeight nLockTimeCutoff fIncludeWitness fIncludeBCTs
          (mempool.entry it) ∧
        TestPackageTransactions env menv mempool nHeight nLockTimeCutoff fIncludeWitness
          fIncludeBCTs rest = .ok true := by
  simp only [TestPackageTransactions, PassesTxChecks]
  -- a failed check returns `false`; only the BCT check goes through a call
  cases menv.isFinalTx (mempool.entry it).tx nHeight nLockTimeCutoff <;>
    cases fIncludeWitness <;> cases (mempool.entry it).hasWitness <;> cases fIncludeBCTs <;>
    simp [bind_unless_eq_true]

/-- Every entry of a package that passes passed the checks. -/
theorem TestPackageTransactions_spec {package : List txiter}
    (h : TestPackageTransactions env menv mempool nHeight nLockTimeCutoff fIncludeWitness
      fIncludeBCTs package = .ok true) :
    ∀ it ∈ package, PassesTxChecks env menv nHeight nLockTimeCutoff fIncludeWitness fIncludeBCTs
      (mempool.entry it) := by
  induction package with
  | nil => simp
  | cons it rest ih =>
    rw [TestPackageTransactions_cons_eq_true] at h
    intro it' hmem
    rcases List.mem_cons.mp hmem with rfl | hrest
    · exact h.1
    · exact ih h.2 it' hrest

/-- The block the assembler fills holds the transactions of mempool entries that
passed the checks, and `vTxFees` and `nFees` are their fees. -/
def AssemblerInv (s : BlockAssembler) : Prop :=
  ∃ its : List txiter, s.vtx = its.map (fun it => (mempool.entry it).tx) ∧
    s.vTxFees = its.map (fun it => (mempool.entry it).nFee) ∧ s.nFees = s.vTxFees.sum ∧
    ∀ it ∈ its, PassesTxChecks env menv nHeight nLockTimeCutoff fIncludeWitness fIncludeBCTs
      (mempool.entry it)

theorem AssemblerInv_resetBlock :
    AssemblerInv env menv mempool nHeight nLockTimeCutoff fIncludeWitness fIncludeBCTs
      BlockAssembler.resetBlock :=
  ⟨[], rfl, rfl, rfl, by simp⟩

variable {env menv mempool nHeight nLockTimeCutoff fIncludeWitness fIncludeBCTs}

/-- Adding an entry that passed the checks keeps the invariant. -/
theorem AssemblerInv.AddToBlock {s : BlockAssembler}
    (hinv : AssemblerInv env menv mempool nHeight nLockTimeCutoff fIncludeWitness fIncludeBCTs s)
    {iter : txiter}
    (hpass : PassesTxChecks env menv nHeight nLockTimeCutoff fIncludeWitness fIncludeBCTs
      (mempool.entry iter)) :
    AssemblerInv env menv mempool nHeight nLockTimeCutoff fIncludeWitness fIncludeBCTs
      (s.AddToBlock mempool iter) := by
  obtain ⟨its, hvtx, hfees, hsum, hall⟩ := hinv
  refine ⟨its ++ [iter], by simp [hvtx], by simp [hfees], by simp [hsum], ?_⟩
  intro it hit
  rcases List.mem_append.mp hit with h | h
  · exact hall it h
  · rw [List.mem_singleton.mp h]
    exact hpass

/-- Adding entries that passed the checks, one after the other, keeps the invariant. -/
theorem AssemblerInv.foldl_AddToBlock {entries : List txiter}
    (hpass : ∀ it ∈ entries, PassesTxChecks env menv nHeight nLockTimeCutoff fIncludeWitness
      fIncludeBCTs (mempool.entry it)) :
    ∀ {s : BlockAssembler},
      AssemblerInv env menv mempool nHeight nLockTimeCutoff fIncludeWitness fIncludeBCTs s →
      AssemblerInv env menv mempool nHeight nLockTimeCutoff fIncludeWitness fIncludeBCTs
        (entries.foldl (BlockAssembler.AddToBlock mempool) s) := by
  induction entries with
  | nil => exact fun hinv => hinv
  | cons it rest ih =>
    intro s hinv
    exact ih (fun it' h => hpass it' (List.mem_cons_of_mem _ h))
      (hinv.AddToBlock (hpass it List.mem_cons_self))

variable {nBlockMaxWeight : Nat} {blockMinFeeRate : CFeeRate}

/-- Every state the selection loop returns keeps the invariant: each pick is skipped,
ends the loop, or adds a package every entry of which passed the checks. -/
theorem addPackageTxs_inv {candidates : List PackageCandidate} {nConsecutiveFailed : Nat}
    {s s' : BlockAssembler}
    (hinv : AssemblerInv env menv mempool nHeight nLockTimeCutoff fIncludeWitness fIncludeBCTs s)
    (h : addPackageTxs env menv mempool nHeight nLockTimeCutoff fIncludeWitness fIncludeBCTs
      nBlockMaxWeight blockMinFeeRate candidates nConsecutiveFailed s = .ok s') :
    AssemblerInv env menv mempool nHeight nLockTimeCutoff fIncludeWitness fIncludeBCTs s' := by
  induction candidates generalizing nConsecutiveFailed s with
  | nil =>
    cases h
    exact hinv
  | cons c rest ih =>
    simp only [addPackageTxs] at h
    obtain ⟨_, -, h⟩ := Checked.bind_eq_ok h
    obtain ⟨minFee, -, h⟩ := Checked.bind_eq_ok h
    split at h
    · -- the fee cutoff returns the state
      cases h
      exact hinv
    split at h
    · -- the package does not fit: the loop gives up or goes on
      split at h
      · cases h
        exact hinv
      · exact ih hinv h
    obtain ⟨passed, hpassed, h⟩ := Checked.bind_eq_ok h
    cases passed
    · exact ih hinv h
    · -- the package passed: its entries are added in sorted order
      have hall := TestPackageTransactions_spec env menv mempool nHeight nLockTimeCutoff
        fIncludeWitness fIncludeBCTs hpassed
      refine ih (AssemblerInv.foldl_AddToBlock (fun it hit => hall it ?_) hinv) h
      exact (List.perm_insertionSort _ _).mem_iff.mp hit

end Invariant

/-! ## The coinbase -/

/-- `script << n` for an integer (`push_int64`): `-1` and `1` to `16` as opcodes,
`OP_0` for zero, otherwise the serialised number as data. -/
def pushInt64 (script : CScript) (n : Int) : CScript :=
  if n = -1 ∨ (1 ≤ n ∧ n ≤ 16) then script ++ [UInt8.ofNat (n + (OP_TRUE.toNat - 1)).toNat]
  else if n = 0 then script ++ [OP_0]
  else pushData script (scriptNumSerialize n)

/-- The coinbase's `scriptSig`: `CScript() << nHeight`, padded with `OP_0` to two
bytes. -/
def coinbaseScriptSig (nHeight : Int) : CScript :=
  let scriptSig := pushInt64 [] nHeight
  if scriptSig.length < 2 then pushOpcode scriptSig OP_0 else scriptSig

/-- `COutPoint::SetNull`: the null hash and index `(uint32_t) -1`. -/
def COutPoint.null : COutPoint := ⟨Uint256.zero, 0xffffffff⟩

/-- The coinbase of `CreateNewBlock` for a block at `nHeight` above `pindexPrev` whose
other transactions pay `nFees`. A hive block's has the proof script, paying
nothing, and the honey, paying the subsidy, half as much again once MinotaurX is
enabled, and the fees; a PoW block's pays half the subsidy once MinotaurX is
enabled, and the fees. -/
def coinbaseTx (env : ChainEnv) (pindexPrev : CBlockIndex) (nHeight nFees : Int)
    (scriptPubKeyIn : CScript) : Option CScript → CTransaction
  | some hiveProofScript =>
    let nValue := GetBlockSubsidy nHeight env.params
    let nValue :=
      if IsMinotaurXEnabled env (some pindexPrev) then nValue + (nValue >>> (1 : Nat)) else nValue
    ⟨[⟨COutPoint.null, coinbaseScriptSig nHeight⟩],
      [⟨0, hiveProofScript⟩, ⟨nValue + nFees, scriptPubKeyIn⟩]⟩
  | none =>
    let nValue := GetBlockSubsidy nHeight env.params
    let nValue := if IsMinotaurXEnabled env (some pindexPrev) then nValue >>> (1 : Nat) else nValue
    ⟨[⟨COutPoint.null, coinbaseScriptSig nHeight⟩], [⟨nValue + nFees, scriptPubKeyIn⟩]⟩

/-- The hive coinbase is a coinbase whose outputs are the proof, paying nothing, and
the honey, paying `ConnectBlock`'s allowance for a hive block whose other
transactions pay `nFees`. -/
theorem coinbaseTx_hive (env : ChainEnv) (pindexPrev : CBlockIndex) (nFees : Int)
    (scriptPubKeyIn hiveProofScript : CScript) :
    (coinbaseTx env pindexPrev (pindexPrev.nHeight + 1) nFees scriptPubKeyIn
        (some hiveProofScript)).IsCoinBase = true ∧
      ∃ honey : CTxOut,
        (coinbaseTx env pindexPrev (pindexPrev.nHeight + 1) nFees scriptPubKeyIn
            (some hiveProofScript)).vout = [⟨0, hiveProofScript⟩, honey] ∧
          honey.nValue = blockRewardSubsidy env.params (pindexPrev.nHeight + 1)
            (IsMinotaurXEnabled env (some pindexPrev)) true + nFees := by
  refine ⟨rfl, _, rfl, ?_⟩
  simp only [blockRewardSubsidy, if_true]

/-! ## The witness commitment -/

/-- The start of a witness commitment script: `OP_RETURN`, a 36-byte push and the
header `0xaa21a9ed`. -/
def witnessCommitmentHeader : List UInt8 := [OP_RETURN, 0x24, 0xaa, 0x21, 0xa9, 0xed]

/-- A script `GetWitnessCommitmentIndex` takes for a commitment. -/
def isWitnessCommitment (script : CScript) : Bool :=
  decide (38 ≤ script.length) && script.take 6 == witnessCommitmentHeader

/-- `GetWitnessCommitmentIndex(block)`: the last output of the coinbase that is a
commitment, `-1` when there is none. -/
def GetWitnessCommitmentIndex (block : CBlock) : Int :=
  match block.vtx with
  | [] => -1
  | coinbase :: _ =>
    coinbase.vout.zipIdx.foldl
      (fun commitpos p => if isWitnessCommitment p.1.scriptPubKey then (p.2 : Int) else commitpos)
      (-1)

/-- `GenerateCoinbaseCommitment(block, pindexPrev, params)`: when segwit is deployed
and the coinbase commits to nothing yet, a commitment output paying nothing is
appended to it; the commitment script is returned. -/
def GenerateCoinbaseCommitment (env : ChainEnv) (menv : MinerEnv) (block : CBlock) :
    Checked String (CBlock × List UInt8) := do
  let commitpos := GetWitnessCommitmentIndex block
  if menv.segwitTimeout ≠ 0 ∧ commitpos = -1 then
    -- `CHash256` of the root and the 32 zero bytes of the witness nonce
    let witnessroot := env.hashWriter
      (Bytes.leBytes (menv.blockWitnessMerkleRoot block.vtx).toNat 32 ++ List.replicate 32 0)
    let out : CTxOut := ⟨0, witnessCommitmentHeader ++ Bytes.leBytes witnessroot.toNat 32⟩
    let coinbase ← Checked.get block.vtx 0
    return ({ block with vtx := block.vtx.set 0 { coinbase with vout := coinbase.vout ++ [out] } },
      out.scriptPubKey)
  return (block, [])

/-- `GenerateCoinbaseCommitment` appends at most one output, paying nothing, to the
coinbase, and changes nothing else. -/
theorem GenerateCoinbaseCommitment_spec (env : ChainEnv) (menv : MinerEnv)
    {header : CBlockHeader} {coinbase : CTransaction} {rest : List CTransaction}
    {fChecked : Bool} {block : CBlock} {commitment : List UInt8}
    (h : GenerateCoinbaseCommitment env menv ⟨header, coinbase :: rest, fChecked⟩ =
      .ok (block, commitment)) :
    ∃ extra : List CTxOut,
      block = ⟨header, ⟨coinbase.vin, coinbase.vout ++ extra⟩ :: rest, fChecked⟩ ∧
        extra.length ≤ 1 ∧ ∀ out ∈ extra, out.nValue = 0 := by
  unfold GenerateCoinbaseCommitment at h
  dsimp only at h
  split at h
  · simp only [Checked.get_of_lt (by simp : 0 < (coinbase :: rest).length),
      List.getElem_cons_zero, Checked.ok_bind, Checked.pure_eq, Except.ok.injEq,
      Prod.mk.injEq] at h
    obtain ⟨rfl, -⟩ := h
    refine ⟨_, rfl, by simp, ?_⟩
    simp
  · cases h
    exact ⟨[], by simp, by simp, by simp⟩

/-! ## `CreateNewBlock` -/

/-- `UpdateTime(pblock, params, pindexPrev)`: the time moves up to one past the
parent's median time past, or to the adjusted time if that is later. -/
def UpdateTime (menv : MinerEnv) (header : CBlockHeader) (pindexPrev : CBlockIndex) :
    CBlockHeader :=
  let nOldTime : Int := header.nTime.toNat
  let nNewTime := max (GetMedianTimePast pindexPrev.path + 1) menv.adjustedTime
  if nOldTime < nNewTime then { header with nTime := UInt32.ofInt nNewTime } else header

/-- `CBlockTemplate`. -/
structure CBlockTemplate where
  block : CBlock
  vTxFees : List Int
  vTxSigOpsCost : List Nat
  vchCoinbaseCommitment : List UInt8

section Create

variable (env : ChainEnv) (menv : MinerEnv)

/-- The version `CreateNewBlock` gives the block: the deployments' bits, the pow type
in bits 16 to 23 of a PoW block once MinotaurX is enabled, or `-blockversion`. -/
def blockVersion (pindexPrev : CBlockIndex) (isHive : Bool) (powType : POW_TYPE) :
    Checked String Int := do
  let nVersion := menv.computeBlockVersion pindexPrev
  if !IsMinotaurXEnabled env (some pindexPrev) && powType.toNat != 0 then
    Checked.raise "Error: Won't attempt to create a non-sha256 block before MinotaurX activation"
  let nVersion ←
    if !isHive && IsMinotaurXEnabled env (some pindexPrev) then do
      if powType.toNat ≥ NUM_BLOCK_TYPES then Checked.raise "Error: Unrecognised pow type requested"
      pure (Int.lor nVersion (powType.toNat <<< 16 : Nat))
    else pure nVersion
  return menv.blockVersionArg.getD nVersion

/-- The target `CreateNewBlock` gives the block: the hive difficulty for a hive block,
otherwise the LWMA of the pow type once MinotaurX is enabled and the older retarget
before. -/
def nextBits (pindexPrev : CBlockIndex) (header : CBlockHeader) (isHive : Bool)
    (powType : POW_TYPE) : Checked String UInt32 :=
  if isHive then pure (env.nextHiveWorkRequired pindexPrev)
  else if IsMinotaurXEnabled env (some pindexPrev) then
    GetNextWorkRequiredLWMA pindexPrev header env.params powType
  else pure (menv.nextWorkRequired pindexPrev header)

/-- `BlockAssembler::CreateNewBlock(scriptPubKeyIn, fMineWitnessTx, hiveProofScript,
powType)` on the active chain `chainActive`, with the options the assembler was built
with and the picks `candidates` of its selection loop. -/
def CreateNewBlock (options : BlockAssemblerOptions) (chainActive : CChain)
    (mempool : CTxMemPool) (candidates : List PackageCandidate) (scriptPubKeyIn : CScript)
    (fMineWitnessTx : Bool) (hiveProofScript : Option CScript) (powType : POW_TYPE) :
    Checked String CBlockTemplate := do
  Checked.assert chainActive.isSome
  let pindexPrev ← Checked.deref chainActive
  if hiveProofScript.isSome && !IsHiveEnabled env (some pindexPrev) then
    Checked.raise "Error: The Labyrinth is not yet enabled on the network"
  let nHeight := pindexPrev.nHeight + 1
  let nVersion ← blockVersion env menv pindexPrev hiveProofScript.isSome powType
  let nTime := UInt32.ofInt menv.adjustedTime
  -- `STANDARD_LOCKTIME_VERIFY_FLAGS` has `LOCKTIME_MEDIAN_TIME_PAST`
  let nLockTimeCutoff := GetMedianTimePast pindexPrev.path
  let fIncludeWitness := menv.witnessEnabled pindexPrev && fMineWitnessTx
  let fIncludeBCTs := hiveProofScript.isNone
  let s ← addPackageTxs env menv mempool nHeight nLockTimeCutoff fIncludeWitness fIncludeBCTs
    (limitBlockMaxWeight options.nBlockMaxWeight) options.blockMinFeeRate candidates 0
    BlockAssembler.resetBlock
  let coinbase := coinbaseTx env pindexPrev nHeight s.nFees scriptPubKeyIn hiveProofScript
  let (block, vchCoinbaseCommitment) ← GenerateCoinbaseCommitment env menv
    ⟨⟨nVersion, Uint256.zero, Uint256.zero, nTime, 0, 0⟩, coinbase :: s.vtx, false⟩
  let header := UpdateTime menv { block.header with hashPrevBlock := pindexPrev.hash } pindexPrev
  let nBits ← nextBits env menv pindexPrev header hiveProofScript.isSome powType
  let nNonce := if hiveProofScript.isSome then env.params.hiveNonceMarker else 0
  let block := { block with header := { header with nBits := nBits, nNonce := nNonce } }
  let coinbase ← Checked.get block.vtx 0
  if let some reason := menv.testBlockValidity block pindexPrev then
    Checked.raise ("CreateNewBlock: TestBlockValidity failed: " ++ reason)
  return ⟨block, -s.nFees :: s.vTxFees,
    WITNESS_SCALE_FACTOR * env.legacySigOpCount coinbase :: s.vTxSigOpsCost,
    vchCoinbaseCommitment⟩

/-- What `CreateNewBlock` does when it returns: the parent is the tip, the selection
returned, the coinbase went through `GenerateCoinbaseCommitment`, the target came
from `nextBits`, and the header is the block's after `UpdateTime` with that target
and the nonce of the block's kind. -/
theorem CreateNewBlock_spec (options : BlockAssemblerOptions) (chainActive : CChain)
    (mempool : CTxMemPool) (candidates : List PackageCandidate) (scriptPubKeyIn : CScript)
    (fMineWitnessTx : Bool) (hiveProofScript : Option CScript) (powType : POW_TYPE)
    {pblocktemplate : CBlockTemplate}
    (h : CreateNewBlock env menv options chainActive mempool candidates scriptPubKeyIn
      fMineWitnessTx hiveProofScript powType = .ok pblocktemplate) :
    ∃ pindexPrev s nVersion block commitment nBits, chainActive = some pindexPrev ∧
      addPackageTxs env menv mempool (pindexPrev.nHeight + 1) (GetMedianTimePast pindexPrev.path)
          (menv.witnessEnabled pindexPrev && fMineWitnessTx) hiveProofScript.isNone
          (limitBlockMaxWeight options.nBlockMaxWeight) options.blockMinFeeRate candidates 0
          BlockAssembler.resetBlock = .ok s ∧
      GenerateCoinbaseCommitment env menv
          ⟨⟨nVersion, Uint256.zero, Uint256.zero, UInt32.ofInt menv.adjustedTime, 0, 0⟩,
            coinbaseTx env pindexPrev (pindexPrev.nHeight + 1) s.nFees scriptPubKeyIn
              hiveProofScript :: s.vtx, false⟩ = .ok (block, commitment) ∧
      nextBits env menv pindexPrev
          (UpdateTime menv { block.header with hashPrevBlock := pindexPrev.hash } pindexPrev)
          hiveProofScript.isSome powType = .ok nBits ∧
      pblocktemplate.block =
        { block with header :=
          { UpdateTime menv { block.header with hashPrevBlock := pindexPrev.hash } pindexPrev with
            nBits := nBits
            nNonce := if hiveProofScript.isSome then env.params.hiveNonceMarker else 0 } } := by
  unfold CreateNewBlock at h
  cases hchain : chainActive with
  | none => simp [hchain] at h
  | some pindexPrev =>
    simp only [hchain, Option.isSome_some, Checked.assert_true, Checked.deref_some,
      Checked.ok_bind] at h
    -- the refusal of a hive block before Hive is enabled throws
    split at h
    · simp at h
    obtain ⟨nVersion, -, h⟩ := Checked.bind_eq_ok h
    obtain ⟨s, hs, h⟩ := Checked.bind_eq_ok h
    obtain ⟨⟨block, commitment⟩, hgen, h⟩ := Checked.bind_eq_ok h
    obtain ⟨nBits, hbits, h⟩ := Checked.bind_eq_ok h
    obtain ⟨coinbase, -, h⟩ := Checked.bind_eq_ok h
    -- a template `TestBlockValidity` rejects throws
    split at h
    · simp at h
    cases h
    exact ⟨pindexPrev, s, nVersion, block, commitment, nBits, rfl, hs, hgen, hbits, rfl⟩

/-- A template's nonce is the hive marker for a hive block and 0 for a PoW block. -/
theorem CreateNewBlock_nNonce (options : BlockAssemblerOptions) (chainActive : CChain)
    (mempool : CTxMemPool) (candidates : List PackageCandidate) (scriptPubKeyIn : CScript)
    (fMineWitnessTx : Bool) (hiveProofScript : Option CScript) (powType : POW_TYPE)
    {pblocktemplate : CBlockTemplate}
    (h : CreateNewBlock env menv options chainActive mempool candidates scriptPubKeyIn
      fMineWitnessTx hiveProofScript powType = .ok pblocktemplate) :
    pblocktemplate.block.header.nNonce =
      if hiveProofScript.isSome then env.params.hiveNonceMarker else 0 := by
  obtain ⟨_, _, _, _, _, _, -, -, -, -, hblock⟩ :=
    CreateNewBlock_spec env menv options chainActive mempool candidates scriptPubKeyIn
      fMineWitnessTx hiveProofScript powType h
  rw [hblock]

/-- What a hive template is made of: the parent is the tip, the transactions after
the coinbase are what the selection returned with BCTs inhibited, the coinbase is
the hive coinbase with at most a commitment output added, and the header has the
hive target and the hive marker as nonce. -/
theorem CreateNewBlock_hive_spec (options : BlockAssemblerOptions) (chainActive : CChain)
    (mempool : CTxMemPool) (candidates : List PackageCandidate) (scriptPubKeyIn : CScript)
    (fMineWitnessTx : Bool) (hiveProofScript : CScript) (powType : POW_TYPE)
    {pblocktemplate : CBlockTemplate}
    (h : CreateNewBlock env menv options chainActive mempool candidates scriptPubKeyIn
      fMineWitnessTx (some hiveProofScript) powType = .ok pblocktemplate) :
    ∃ pindexPrev s extra, chainActive = some pindexPrev ∧
      addPackageTxs env menv mempool (pindexPrev.nHeight + 1) (GetMedianTimePast pindexPrev.path)
          (menv.witnessEnabled pindexPrev && fMineWitnessTx) false
          (limitBlockMaxWeight options.nBlockMaxWeight) options.blockMinFeeRate candidates 0
          BlockAssembler.resetBlock = .ok s ∧
      pblocktemplate.block.vtx =
        ⟨(coinbaseTx env pindexPrev (pindexPrev.nHeight + 1) s.nFees scriptPubKeyIn
            (some hiveProofScript)).vin,
          (coinbaseTx env pindexPrev (pindexPrev.nHeight + 1) s.nFees scriptPubKeyIn
            (some hiveProofScript)).vout ++ extra⟩ :: s.vtx ∧
      extra.length ≤ 1 ∧ (∀ out ∈ extra, out.nValue = 0) ∧
      pblocktemplate.block.header.nBits = env.nextHiveWorkRequired pindexPrev ∧
      pblocktemplate.block.header.nNonce = env.params.hiveNonceMarker := by
  obtain ⟨pindexPrev, s, _, block, _, nBits, hchain, hs, hgen, hbits, hblock⟩ :=
    CreateNewBlock_spec env menv options chainActive mempool candidates scriptPubKeyIn
      fMineWitnessTx (some hiveProofScript) powType h
  obtain ⟨extra, rfl, hlen, hzero⟩ := GenerateCoinbaseCommitment_spec env menv hgen
  -- a hive block's target is the hive difficulty at the parent
  have hnBits : nBits = env.nextHiveWorkRequired pindexPrev := by
    simpa [nextBits] using hbits.symm
  rw [Option.isNone_some] at hs
  rw [hblock]
  exact ⟨pindexPrev, s, extra, hchain, hs, rfl, hlen, hzero, hnBits, by simp⟩

end Create

/-! ## What the validator sees of a hive template -/

/-- `CheckHiveProof`'s BCT check passes when no transaction after the first is a BCT. -/
theorem checkNoBCTs_of_forall {scriptPubKeyBCF : CScript} {vtx : List CTransaction}
    (h : ∀ tx ∈ vtx.drop 1, (tx.IsBCT scriptPubKeyBCF : Checked String Bool) = .ok false) :
    checkNoBCTs scriptPubKeyBCF vtx = .ok () := by
  unfold checkNoBCTs
  split
  · refine Checked.forM_eq_ok fun tx htx => ?_
    simp [h tx htx]
  · rfl

/-- `CheckHiveProof`'s coinbase checks pass on a coinbase with two or three outputs
whose first carries the proof: what is left is decoding it. -/
theorem readHiveProof_of_coinbase {coinbase : CTransaction} (rest : List CTransaction)
    {hiveProofScript : CScript} {others : List CTxOut} (hcb : coinbase.IsCoinBase = true)
    (hvout : coinbase.vout = ⟨0, hiveProofScript⟩ :: others)
    (hlen : 1 ≤ others.length ∧ others.length ≤ 2) :
    readHiveProof (coinbase :: rest) =
      (fun proof => (coinbase, proof)) <$> decodeHiveProof hiveProofScript := by
  have hnOut : ¬ (coinbase.vout.length < 2 ∨ coinbase.vout.length > 3) := by
    rw [hvout, List.length_cons]
    omega
  simp only [readHiveProof, Checked.get_of_lt (by simp : 0 < (coinbase :: rest).length),
    List.getElem_cons_zero, Checked.ok_bind, hcb, Bool.not_true, Bool.false_eq_true, if_false,
    hnOut, Checked.pure_eq]
  simp only [hvout, Checked.get_of_lt (by simp : 0 < (⟨0, hiveProofScript⟩ :: others).length),
    List.getElem_cons_zero, Checked.ok_bind]
  cases decodeHiveProof hiveProofScript <;> rfl

/-- A hive template passes the checks of the validator that do not depend on the bee
search. Its parent is the tip; its nonce is the hive marker and its target the hive
difficulty at the parent (`ContextualCheckBlockHeader`); its coinbase is a coinbase
with two or three outputs, the first the proof script paying nothing, so that
`CheckHiveProof` goes on to decode the proof; after the coinbase come the transactions
of mempool entries, none of them a BCT (`CheckHiveProof`'s BCT check); and the
coinbase pays exactly `ConnectBlock`'s allowance for the block: the subsidy, half as
much again once MinotaurX is enabled at the parent, and the entries' fees. -/
theorem CreateNewBlock_hive_valid (env : ChainEnv) (menv : MinerEnv)
    (options : BlockAssemblerOptions) (chainActive : CChain) (mempool : CTxMemPool)
    (candidates : List PackageCandidate) (scriptPubKeyIn : CScript) (fMineWitnessTx : Bool)
    (hiveProofScript : CScript) (powType : POW_TYPE) {pblocktemplate : CBlockTemplate}
    (h : CreateNewBlock env menv options chainActive mempool candidates scriptPubKeyIn
      fMineWitnessTx (some hiveProofScript) powType = .ok pblocktemplate) :
    ∃ (pindexPrev : CBlockIndex) (coinbase : CTransaction) (its : List txiter),
      chainActive = some pindexPrev ∧
      pblocktemplate.block.vtx = coinbase :: its.map (fun it => (mempool.entry it).tx) ∧
      pblocktemplate.block.header.nNonce = env.params.hiveNonceMarker ∧
      pblocktemplate.block.header.nBits = env.nextHiveWorkRequired pindexPrev ∧
      coinbase.IsCoinBase = true ∧
      (coinbase.vout.length = 2 ∨ coinbase.vout.length = 3) ∧
      coinbase.vout.head? = some ⟨0, hiveProofScript⟩ ∧
      readHiveProof pblocktemplate.block.vtx =
        (fun proof => (coinbase, proof)) <$> decodeHiveProof hiveProofScript ∧
      (∀ tx ∈ pblocktemplate.block.vtx.drop 1,
        (tx.IsBCT (env.scriptForAddress env.params.beeCreationAddress) : Checked String Bool) =
          .ok false) ∧
      checkNoBCTs (env.scriptForAddress env.params.beeCreationAddress) pblocktemplate.block.vtx =
        .ok () ∧
      (coinbase.vout.map CTxOut.nValue).sum =
        blockRewardSubsidy env.params (pindexPrev.nHeight + 1)
            (IsMinotaurXEnabled env (some pindexPrev))
            (pblocktemplate.block.header.IsHiveMined env.params.hiveNonceMarker) +
          (its.map fun it => (mempool.entry it).nFee).sum := by
  obtain ⟨pindexPrev, s, extra, hchain, hs, hvtx, hlen, hzero, hbits, hnonce⟩ :=
    CreateNewBlock_hive_spec env menv options chainActive mempool candidates scriptPubKeyIn
      fMineWitnessTx hiveProofScript powType h
  -- the selection ran with BCTs inhibited, so every entry it added is no BCT
  obtain ⟨its, hsvtx, hfees, hsum, hpass⟩ := addPackageTxs_inv (AssemblerInv_resetBlock env menv
    mempool (pindexPrev.nHeight + 1) (GetMedianTimePast pindexPrev.path)
    (menv.witnessEnabled pindexPrev && fMineWitnessTx) false) hs
  obtain ⟨hcb, honey, hvout, hhoney⟩ :=
    coinbaseTx_hive env pindexPrev s.nFees scriptPubKeyIn hiveProofScript
  rw [hvout] at hvtx
  have hnoBCT : ∀ tx ∈ pblocktemplate.block.vtx.drop 1,
      (tx.IsBCT (env.scriptForAddress env.params.beeCreationAddress) : Checked String Bool) =
        .ok false := by
    rw [hvtx, hsvtx, List.drop_one, List.tail_cons]
    intro tx htx
    obtain ⟨it, hit, rfl⟩ := List.mem_map.mp htx
    exact (hpass it hit).2.2 rfl
  have hextra : (extra.map CTxOut.nValue).sum = 0 := List.sum_eq_zero (by simpa using hzero)
  have hhive : pblocktemplate.block.header.IsHiveMined env.params.hiveNonceMarker = true := by
    simp [CBlockHeader.IsHiveMined, hnonce]
  refine ⟨pindexPrev, ⟨(coinbaseTx env pindexPrev (pindexPrev.nHeight + 1) s.nFees scriptPubKeyIn
    (some hiveProofScript)).vin, [⟨0, hiveProofScript⟩, honey] ++ extra⟩, its, hchain,
    by rw [hvtx, hsvtx], hnonce, hbits, hcb, ?_, rfl, ?_, hnoBCT,
    checkNoBCTs_of_forall hnoBCT, ?_⟩
  · simp only [List.length_append, List.length_cons, List.length_nil]
    omega
  · rw [hvtx]
    exact readHiveProof_of_coinbase _ hcb rfl (by simp; omega)
  · rw [hhive, List.map_append, List.sum_append, hextra, ← hfees, ← hsum]
    simp [hhoney]



set_option maxRecDepth 8000 in
/-- A hive template on the genesis block, with every deployment active and segwit
deployed, from a mempool whose one transaction pays 1000 in fees, for a proof script
`BusyBees` writes. -/
theorem CreateNewBlock_hive_valid_one_tx :
    let env := constEnv mainParams
    let menv : MinerEnv := ⟨fun _ => 0x20000000, none, 1000, fun _ => true, 1,
      fun _ _ _ => true, fun _ => Uint256.zero, fun _ _ => 0, fun _ _ => none⟩
    let options : BlockAssemblerOptions := ⟨4000000, ⟨1000⟩⟩
    let genesis := CBlockIndex.genesis Uint256.zero ⟨1, Uint256.zero, Uint256.zero, 0, 0, 0⟩ true 1
    let mempool : CTxMemPool :=
      ⟨fun _ => ⟨⟨[⟨⟨Uint256.zero, 0⟩, []⟩], [⟨5000, [OP_TRUE]⟩]⟩, 1000, 400, 4, 1, false⟩,
        fun _ => []⟩
    let candidates : List PackageCandidate := [⟨0, 100, 1000, 4⟩]
    let P := hiveProofScript 0 0 false (List.replicate 64 0x30) (List.replicate 65 0)
    ∃ pblocktemplate, CreateNewBlock env menv options (some genesis) mempool candidates [OP_TRUE]
        true (some P) .POW_TYPE_SHA256 = .ok pblocktemplate ∧
      ∃ (pindexPrev : CBlockIndex) (coinbase : CTransaction) (its : List txiter),
        some genesis = some pindexPrev ∧
        pblocktemplate.block.vtx = coinbase :: its.map (fun it => (mempool.entry it).tx) ∧
        pblocktemplate.block.header.nNonce = env.params.hiveNonceMarker ∧
        pblocktemplate.block.header.nBits = env.nextHiveWorkRequired pindexPrev ∧
        coinbase.IsCoinBase = true ∧
        (coinbase.vout.length = 2 ∨ coinbase.vout.length = 3) ∧
        coinbase.vout.head? = some ⟨0, P⟩ ∧
        readHiveProof pblocktemplate.block.vtx =
          (fun proof => (coinbase, proof)) <$> decodeHiveProof P ∧
        (∀ tx ∈ pblocktemplate.block.vtx.drop 1,
          (tx.IsBCT (env.scriptForAddress env.params.beeCreationAddress) :
            Checked String Bool) = .ok false) ∧
        checkNoBCTs (env.scriptForAddress env.params.beeCreationAddress)
          pblocktemplate.block.vtx = .ok () ∧
        (coinbase.vout.map CTxOut.nValue).sum =
          blockRewardSubsidy env.params (pindexPrev.nHeight + 1)
              (IsMinotaurXEnabled env (some pindexPrev))
              (pblocktemplate.block.header.IsHiveMined env.params.hiveNonceMarker) +
            (its.map fun it => (mempool.entry it).nFee).sum := by
  intro env menv options genesis mempool candidates P
  obtain ⟨pblocktemplate, h⟩ : ∃ t, CreateNewBlock env menv options (some genesis) mempool
      candidates [OP_TRUE] true (some P) .POW_TYPE_SHA256 = .ok t := ⟨_, rfl⟩
  exact ⟨pblocktemplate, h, CreateNewBlock_hive_valid env menv options (some genesis) mempool
    candidates [OP_TRUE] true P .POW_TYPE_SHA256 h⟩

end Cascoin
