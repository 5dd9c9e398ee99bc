import Cascoin.Models.Hive.Proof
import Cascoin.Models.Consensus.TxVerify

/-!
# `CheckBlock`

The context-free block checks of `validation.cpp`. A hive-mined block skips the
proof-of-work check of its header and runs `CheckHiveProof` instead, before the
merkle root, the size limits and the coinbase checks. `CheckBlock` returns the
block with its `fChecked` cache set when the full check passed.

`ProcessNewBlock` runs `CheckBlock` before `AcceptBlock`, which is given here as
a parameter: a fault of `CheckBlock` is a fault of `ProcessNewBlock`.

`CheckHiveProof` dereferences the parent it looks up before testing it for
null, and the lookup inserts a null entry on a miss: a hive-mined block whose
parent is unknown makes `CheckBlock` fault (`CheckBlock_hive_unknown_parent`).
A hive block whose parent is known but whose transaction list is empty, or
whose second transaction has no outputs, makes it read past the end of a
vector before the size and `CheckTransaction` checks that would reject it.
-/

namespace Cascoin

open Checked

/-- `MAX_BLOCK_SIGOPS_COST`. -/
def MAX_BLOCK_SIGOPS_COST : Nat := 80000

/-- Serialised size of a block without witness data: the 80-byte header and the
transactions. -/
def CBlock.GetSerializeSize (block : CBlock) : Nat :=
  80 + GetSizeOfCompactSize block.vtx.length + (block.vtx.map CTransaction.GetSerializeSize).sum

/-- `CheckBlockHeader(block, state, consensusParams, fCheckPOW)`. -/
def CheckBlockHeader (env : ChainEnv) (header : CBlockHeader) (fCheckPOW : Bool) :
    Checked Reject Unit := do
  if fCheckPOW && !header.IsHiveMined env.params.hiveNonceMarker then
    if !(← CheckProofOfWork env.params (env.powHash header) header.nBits) then
      DoS 50 .invalid "high-hash"

/-- The first transaction is the only coinbase. -/
def checkCoinbases : List CTransaction → Checked Reject Unit
  | [] => DoS 100 .invalid "bad-cb-missing"
  | tx :: rest => do
    if !tx.IsCoinBase then
      DoS 100 .invalid "bad-cb-missing"
    rest.forM fun tx => if tx.IsCoinBase then DoS 100 .invalid "bad-cb-multiple" else pure ()

/-- `CheckBlock(block, state, consensusParams, fCheckPOW, fCheckMerkleRoot)`: the block
with `fChecked` as the check leaves it. -/
def CheckBlock (env : ChainEnv) (s : NodeState) (depth : Nat) (block : CBlock)
    (fCheckPOW fCheckMerkleRoot : Bool) : Checked Reject CBlock := do
  if block.fChecked then return block
  CheckBlockHeader env block.header fCheckPOW
  if block.header.IsHiveMined env.params.hiveNonceMarker then
    if let .error _ ← Checked.attempt (CheckHiveProof env s depth block) then
      DoS 100 .invalid "bad-hive-proof"
  if fCheckMerkleRoot then
    let (hashMerkleRoot2, mutated) := env.blockMerkleRoot block.vtx
    if block.header.hashMerkleRoot != hashMerkleRoot2 then
      DoS 100 .invalid "bad-txnmrklroot"
    if mutated then
      DoS 100 .invalid "bad-txns-duplicate"
  if block.vtx.isEmpty || decide (block.vtx.length * WITNESS_SCALE_FACTOR > MAX_BLOCK_WEIGHT) ||
      decide (block.GetSerializeSize * WITNESS_SCALE_FACTOR > MAX_BLOCK_WEIGHT) then
    DoS 100 .invalid "bad-blk-length"
  checkCoinbases block.vtx
  block.vtx.forM fun tx => CheckTransaction env.validAddress tx true
  let nSigOps := (block.vtx.map env.legacySigOpCount).sum
  if nSigOps * WITNESS_SCALE_FACTOR > MAX_BLOCK_SIGOPS_COST then
    DoS 100 .invalid "bad-blk-sigops"
  return if fCheckPOW && fCheckMerkleRoot then { block with fChecked := true } else block

/-- `ProcessNewBlock` up to storing the block: `CheckBlock`, then `acceptBlock`. -/
def ProcessNewBlock (acceptBlock : CBlock → Checked Reject Unit) (env : ChainEnv)
    (s : NodeState) (depth : Nat) (pblock : CBlock) : Checked Reject Unit := do
  let block ← CheckBlock env s depth pblock true true
  acceptBlock block

/-! ## The parent lookup -/

section ParentLookup

variable (env : ChainEnv) (s : NodeState)

/-- A lookup that finds no parent (a missing key, or a null entry) dereferences null. -/
theorem hiveParent_of_null {pblock : CBlock}
    (h : (FunMap.subscript s.mapBlockIndex pblock.header.hashPrevBlock none).1 = none) :
    hiveParent env s pblock = .error (.fault .nullDeref) := by
  simp [hiveParent, h]

/-- A fault of the parent lookup is a fault of the whole proof check. -/
theorem hiveProofBody_of_hiveParent {recheck : CBlock → Checked String Unit} {pblock : CBlock}
    {f : Fault} (h : hiveParent env s pblock = .error (.fault f)) :
    hiveProofBody recheck env s pblock = .error (.fault f) := by
  simp [hiveProofBody, hiveProofFront, h]

theorem CheckHiveProof_of_hiveParent (depth : Nat) {pblock : CBlock} {f : Fault}
    (h : hiveParent env s pblock = .error (.fault f)) :
    CheckHiveProof env s depth pblock = .error (.fault f) := by
  obtain ⟨recheck, hbody⟩ := CheckHiveProof_eq_body env s depth
  rw [hbody]
  exact hiveProofBody_of_hiveParent env s h

/-- A hive-mined header passes `CheckBlockHeader`: its work is the hive proof's. -/
theorem CheckBlockHeader_of_hive {header : CBlockHeader}
    (h : header.IsHiveMined env.params.hiveNonceMarker = true) (fCheckPOW : Bool) :
    CheckBlockHeader env header fCheckPOW = .ok () := by
  simp [CheckBlockHeader, h]

/-- A fault of the hive proof check of an unchecked hive block is a fault of `CheckBlock`. -/
theorem CheckBlock_of_CheckHiveProof {depth : Nat} {block : CBlock} {f : Fault}
    (hhive : block.header.IsHiveMined env.params.hiveNonceMarker = true)
    (hnew : block.fChecked = false)
    (h : CheckHiveProof env s depth block = .error (.fault f)) (fCheckPOW fCheckMerkleRoot : Bool) :
    CheckBlock env s depth block fCheckPOW fCheckMerkleRoot = .error (.fault f) := by
  simp [CheckBlock, hnew, CheckBlockHeader_of_hive env hhive, hhive, h]

theorem CheckHiveProof_unknown_parent (depth : Nat) {pblock : CBlock}
    (hmiss : s.mapBlockIndex pblock.header.hashPrevBlock = none) :
    CheckHiveProof env s depth pblock = .error (.fault .nullDeref) :=
  CheckHiveProof_of_hiveParent env s depth
    (hiveParent_of_null env s (by rw [FunMap.subscript_of_none none hmiss]))

/-- A hive-mined block whose parent hash `mapBlockIndex` does not hold: the lookup
inserts a null entry, and `CheckBlock`, whatever its flags, and so
`ProcessNewBlock`, whatever `AcceptBlock` does, dereference it. -/
theorem CheckBlock_hive_unknown_parent (acceptBlock : CBlock → Checked Reject Unit) (depth : Nat)
    {block : CBlock} (hhive : block.header.IsHiveMined env.params.hiveNonceMarker = true)
    (hnew : block.fChecked = false)
    (hmiss : s.mapBlockIndex block.header.hashPrevBlock = none) (fCheckPOW fCheckMerkleRoot : Bool) :
    (FunMap.subscript s.mapBlockIndex block.header.hashPrevBlock none).2 ≠ s.mapBlockIndex ∧
      CheckBlock env s depth block fCheckPOW fCheckMerkleRoot = .error (.fault .nullDeref) ∧
      ProcessNewBlock acceptBlock env s depth block = .error (.fault .nullDeref) := by
  have hinsert : (FunMap.subscript s.mapBlockIndex block.header.hashPrevBlock none).2 ≠
      s.mapBlockIndex := by
    rw [Ne, FunMap.subscript_snd_eq_iff, hmiss]
    simp
  have hcheck := CheckBlock_of_CheckHiveProof env s hhive hnew
    (CheckHiveProof_unknown_parent env s depth hmiss)
  refine ⟨hinsert, hcheck fCheckPOW fCheckMerkleRoot, ?_⟩
  simp [ProcessNewBlock, hcheck true true]

end ParentLookup

/-- The lookup of an unknown parent on the empty node: the hive block with nonce
marker 192 and the all-zero parent hash. -/
theorem CheckBlock_hive_unknown_parent_on_empty_node :
    CBlockHeader.IsHiveMined ⟨1, Uint256.zero, Uint256.zero, 0, 0, 192⟩
        (constEnv mainParams).params.hiveNonceMarker = true ∧
      NodeState.empty.mapBlockIndex Uint256.zero = none ∧
      (FunMap.subscript NodeState.empty.mapBlockIndex Uint256.zero none).2 ≠
        NodeState.empty.mapBlockIndex ∧
      CheckBlock (constEnv mainParams) NodeState.empty 0
          ⟨⟨1, Uint256.zero, Uint256.zero, 0, 0, 192⟩, [], false⟩ true true =
        .error (.fault .nullDeref) ∧
      ProcessNewBlock (fun _ => .ok ()) (constEnv mainParams) NodeState.empty 0
          ⟨⟨1, Uint256.zero, Uint256.zero, 0, 0, 192⟩, [], false⟩ =
        .error (.fault .nullDeref) :=
  ⟨rfl, rfl, @CheckBlock_hive_unknown_parent (constEnv mainParams) NodeState.empty (fun _ => .ok ()) 0
    ⟨⟨1, Uint256.zero, Uint256.zero, 0, 0, 192⟩, [], false⟩ rfl rfl rfl true true⟩

end Cascoin
