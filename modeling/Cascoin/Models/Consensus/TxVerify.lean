import Cascoin.Models.BeeNFT.Validate

/-!
# `CheckTransaction`

The context-free transaction checks of `consensus/tx_verify.cpp`, with the
Cascoin NFT scan at their end. A rejection is the `CValidationState::DoS`
report: its DoS score, reject code and reason text.

The NFT scan reads `scriptPubKey[0]` of every output and builds
`data(begin() + 2, end())` from every `OP_RETURN` output, neither behind a
size test. `CheckTransaction` returns a verdict for every transaction whose
output scripts are all `scannable` (`noFault_CheckTransaction`); a transaction
that passes the earlier checks and has an empty output script, or a bare
`OP_RETURN` output script, makes the scan read past the end.
-/

namespace Cascoin

open Checked

/-- The `REJECT_*` codes of `consensus/validation.h` that the modelled checks use. -/
inductive RejectCode where
  /-- `REJECT_INVALID`, `0x10`. -/
  | invalid
  /-- `REJECT_NONSTANDARD`, `0x40`. -/
  | nonstandard
  deriving DecidableEq, Repr

/-- The report of `state.DoS(nDoS, false, code, reason)`. -/
structure Reject where
  nDoS : Nat
  code : RejectCode
  reason : String
  deriving DecidableEq, Repr

/-- `state.DoS(nDoS, false, code, reason)`: reject with that report. -/
def DoS {α : Type} (nDoS : Nat) (code : RejectCode) (reason : String) : Checked Reject α :=
  Checked.reject ⟨nDoS, code, reason⟩

/-- `MAX_BLOCK_WEIGHT`. -/
def MAX_BLOCK_WEIGHT : Nat := 4000000

/-- `WITNESS_SCALE_FACTOR`. -/
def WITNESS_SCALE_FACTOR : Nat := 4

/-- The basic checks that do not depend on any context, and the size limit. -/
def checkTransactionShape (tx : CTransaction) : Checked Reject Unit := do
  if tx.vin.isEmpty then
    DoS 10 .invalid "bad-txns-vin-empty"
  if tx.vout.isEmpty then
    DoS 10 .invalid "bad-txns-vout-empty"
  if MAX_BLOCK_WEIGHT < tx.GetSerializeSize * WITNESS_SCALE_FACTOR then
    DoS 100 .invalid "bad-txns-oversize"

/-- The loop over the outputs' values, with the running total `nValueOut`. -/
def checkOutputValues : Int → List CTxOut → Checked Reject Unit
  | _, [] => pure ()
  | nValueOut, txout :: rest => do
    if txout.nValue < 0 then
      DoS 100 .invalid "bad-txns-vout-negative"
    if MAX_MONEY < txout.nValue then
      DoS 100 .invalid "bad-txns-vout-toolarge"
    let total := nValueOut + txout.nValue
    if !MoneyRange total then
      DoS 100 .invalid "bad-txns-txouttotal-toolarge"
    checkOutputValues total rest

/-- The loop over the inputs with the set `vInOutPoints` of outpoints seen so far. -/
def checkDuplicateInputs : List COutPoint → List CTxIn → Checked Reject Unit
  | _, [] => pure ()
  | vInOutPoints, txin :: rest => do
    if txin.prevout ∈ vInOutPoints then
      DoS 100 .invalid "bad-txns-inputs-duplicate"
    checkDuplicateInputs (txin.prevout :: vInOutPoints) rest

/-- The coinbase script length check, or the null-prevout check of the inputs of
any other transaction. -/
def checkInputScripts (tx : CTransaction) : Checked Reject Unit :=
  if tx.IsCoinBase then do
    let scriptSig := (← Checked.get tx.vin 0).scriptSig
    if scriptSig.length < 2 ∨ 100 < scriptSig.length then
      DoS 100 .invalid "bad-cb-length"
  else
    tx.vin.forM fun txin => do
      if txin.prevout.IsNull then
        DoS 10 .invalid "bad-txns-prevout-null"

section NFTScan

variable (validAddress : List UInt8 → Bool)

/-- Run an NFT validator; when it returns `false`, reject the transaction with
`reason` and DoS score 0. -/
def requireValidNFT (validator : NFTCheck Unit) (reason : String) : Checked Reject Unit := do
  match ← attempt validator with
  | .error _ => DoS 0 .nonstandard reason
  | .ok _ => pure ()

/-- The Bee NFT block of the scan: the validator the magic `CASTOK` or `CASXFR` names. -/
def checkBeeNFTMagic (tx : CTransaction) (magic : List UInt8) : Checked Reject Unit :=
  if magic = magicCASTOK then
    requireValidNFT (IsValidBeeNFTTokenTransaction validAddress tx) "invalid-bee-nft-token"
  else if magic = magicCASXFR then
    requireValidNFT (IsValidBeeNFTTransferTransaction validAddress tx) "invalid-bee-nft-transfer"
  else pure ()

/-- The generic NFT block of the scan: the validator the magic `CASNFT` or `CASGEN` names. -/
def checkGenericNFTMagic (tx : CTransaction) (magic : List UInt8) : Checked Reject Unit :=
  if magic = magicCASNFT then
    requireValidNFT (IsValidGenericNFTTransaction tx) "invalid-generic-nft"
  else if magic = magicCASGEN then
    requireValidNFT (IsValidGenericNFTTransferTransaction tx) "invalid-generic-nft-transfer"
  else pure ()

/-- The body of the NFT scan of `CheckTransaction` for one output. -/
def checkNFTOutput (tx : CTransaction) (output : CTxOut) : Checked Reject Unit := do
  let spk := output.scriptPubKey
  if (← Checked.get spk 0) = OP_RETURN then
    let data ← Checked.suffix spk 2
    if 6 ≤ data.length then
      let magic := data.take 6
      checkBeeNFTMagic validAddress tx magic
      checkGenericNFTMagic tx magic

/-- `CheckTransaction(tx, state, fCheckDuplicateInputs)`. -/
def CheckTransaction (tx : CTransaction) (fCheckDuplicateInputs : Bool) :
    Checked Reject Unit := do
  checkTransactionShape tx
  checkOutputValues 0 tx.vout
  if fCheckDuplicateInputs then
    checkDuplicateInputs [] tx.vin
  checkInputScripts tx
  -- Cascoin: the NFT scan
  tx.vout.forM (checkNFTOutput validAddress tx)

end NFTScan

/-! ## Fault freedom of `CheckTransaction` -/

theorem CTransaction.vin_length_of_IsCoinBase {tx : CTransaction} (h : tx.IsCoinBase = true) :
    0 < tx.vin.length := by
  unfold CTransaction.IsCoinBase at h
  split at h <;> simp_all

theorem noFault_checkTransactionShape (tx : CTransaction) :
    NoFault (checkTransactionShape tx) := by
  unfold checkTransactionShape
  split_ifs <;> simp [DoS]

theorem noFault_checkOutputValues (nValueOut : Int) (outs : List CTxOut) :
    NoFault (checkOutputValues nValueOut outs) := by
  induction outs generalizing nValueOut with
  | nil => simp [checkOutputValues]
  | cons txout rest ih =>
    simp only [checkOutputValues]
    split_ifs <;> simp [DoS, ih]

theorem noFault_checkDuplicateInputs (seen : List COutPoint) (ins : List CTxIn) :
    NoFault (checkDuplicateInputs seen ins) := by
  induction ins generalizing seen with
  | nil => simp [checkDuplicateInputs]
  | cons txin rest ih =>
    simp only [checkDuplicateInputs]
    split_ifs <;> simp [DoS, ih]

/-- The coinbase branch reads `vin[0]` only after `IsCoinBase` has found one input. -/
theorem noFault_checkInputScripts (tx : CTransaction) : NoFault (checkInputScripts tx) := by
  unfold checkInputScripts
  split
  · rename_i hcb
    rw [get_of_lt (CTransaction.vin_length_of_IsCoinBase hcb), ok_bind]
    dsimp only
    split <;> simp [DoS]
  · exact noFault_forM fun txin _ => by split <;> simp [DoS]

section NFTScanFaults

variable (validAddress : List UInt8 → Bool)

theorem noFault_requireValidNFT {validator : NFTCheck Unit} (h : NoFault validator)
    (reason : String) : NoFault (requireValidNFT validator reason) := by
  unfold requireValidNFT
  refine noFault_bind ((noFault_attempt_iff validator).2 h) fun r _ => ?_
  cases r <;> simp [DoS]

theorem noFault_checkBeeNFTMagic (tx : CTransaction) (magic : List UInt8) :
    NoFault (checkBeeNFTMagic validAddress tx magic) := by
  unfold checkBeeNFTMagic
  split_ifs
  · exact noFault_requireValidNFT (noFault_IsValidBeeNFTTokenTransaction validAddress tx) _
  · exact noFault_requireValidNFT (noFault_IsValidBeeNFTTransferTransaction validAddress tx) _
  · simp

theorem noFault_checkGenericNFTMagic {tx : CTransaction}
    (h : ∀ o ∈ tx.vout, scannable o.scriptPubKey = true) (magic : List UInt8) :
    NoFault (checkGenericNFTMagic tx magic) := by
  unfold checkGenericNFTMagic
  split_ifs
  · exact noFault_requireValidNFT (noFault_IsValidGenericNFTTransaction h) _
  · exact noFault_requireValidNFT (noFault_IsValidGenericNFTTransferTransaction h) _
  · simp

/-- One step of the scan never faults on a `scannable` output, once the generic
validators it may call can read every output. -/
theorem noFault_checkNFTOutput {tx : CTransaction}
    (h : ∀ o ∈ tx.vout, scannable o.scriptPubKey = true) {output : CTxOut}
    (ho : scannable output.scriptPubKey = true) :
    NoFault (checkNFTOutput validAddress tx output) := by
  unfold checkNFTOutput
  match hspk : output.scriptPubKey, ho with
  | [b], ho =>
    have hb : b ≠ OP_RETURN := by simpa [scannable] using ho
    simp [hb]
  | b :: c :: rest, _ =>
    dsimp only
    rw [get_of_lt (by simp), ok_bind]
    split
    · rw [suffix_of_le (by simp), ok_bind]
      split
      · exact noFault_bind (noFault_checkBeeNFTMagic validAddress tx _) fun _ _ =>
          noFault_checkGenericNFTMagic h _
      · simp
    · simp

/-- A step of the scan on an output that is not `scannable` reads past its end. -/
theorem checkNFTOutput_of_not_scannable (tx : CTransaction) {output : CTxOut}
    (ho : scannable output.scriptPubKey = false) :
    checkNFTOutput validAddress tx output = .error (.fault .outOfRange) := by
  unfold checkNFTOutput
  match hspk : output.scriptPubKey, ho with
  | [], _ => simp [get_of_le]
  | [b], ho =>
    have hb : b = OP_RETURN := by simpa [scannable] using ho
    simp [hb, suffix_of_gt]

/-- `CheckTransaction` returns a verdict for every transaction whose output
scripts are all `scannable`; the earlier checks never fault. -/
theorem noFault_CheckTransaction {tx : CTransaction}
    (h : ∀ o ∈ tx.vout, scannable o.scriptPubKey = true) (fCheckDuplicateInputs : Bool) :
    NoFault (CheckTransaction validAddress tx fCheckDuplicateInputs) := by
  unfold CheckTransaction
  refine noFault_bind (noFault_checkTransactionShape tx) fun _ _ => ?_
  refine noFault_bind (noFault_checkOutputValues 0 tx.vout) fun _ _ => ?_
  have hrest : NoFault (do
      checkInputScripts tx
      tx.vout.forM (checkNFTOutput validAddress tx)) :=
    noFault_bind (noFault_checkInputScripts tx) fun _ _ =>
      noFault_forM fun o ho => noFault_checkNFTOutput validAddress h (h o ho)
  split
  · exact noFault_bind (noFault_checkDuplicateInputs [] tx.vin) fun _ _ => hrest
  · exact hrest

/-- A transaction with one spending input and one bare `OP_RETURN` output passes
every check before the NFT scan, and the scan then builds
`data(begin() + 2, end())` from a one-byte script. -/
theorem CheckTransaction_bare_OP_RETURN_fault (fCheckDuplicateInputs : Bool) :
    CheckTransaction validAddress ⟨[⟨⟨Uint256.zero, 0⟩, []⟩], [⟨0, [OP_RETURN]⟩]⟩
      fCheckDuplicateInputs = .error (.fault .outOfRange) := by
  cases fCheckDuplicateInputs <;> rfl

end NFTScanFaults

/-! ## What acceptance requires -/

section Acceptance

variable (validAddress : List UInt8 → Bool)

/-- The scan passes a validator's output exactly when the validator accepts. -/
theorem requireValidNFT_eq_ok_iff (validator : NFTCheck Unit) (reason : String) :
    requireValidNFT validator reason = .ok () ↔ validator = .ok () := by
  unfold requireValidNFT
  match validator with
  | .ok _ => simp
  | .error (.reject e) => simp [DoS]
  | .error (.fault f) => simp

/-- `CheckTransaction` accepts only a transaction whose NFT scan passes every output. -/
theorem checkNFTOutput_of_CheckTransaction {tx : CTransaction} {fCheckDuplicateInputs : Bool}
    (h : CheckTransaction validAddress tx fCheckDuplicateInputs = .ok ()) {output : CTxOut}
    (ho : output ∈ tx.vout) : checkNFTOutput validAddress tx output = .ok () := by
  unfold CheckTransaction at h
  obtain ⟨_, _, h⟩ := bind_eq_ok h
  obtain ⟨_, _, h⟩ := bind_eq_ok h
  -- the duplicate-input check runs only when asked for; the scan comes last either way
  have hscan : tx.vout.forM (checkNFTOutput validAddress tx) = .ok () := by
    split at h
    · obtain ⟨_, _, h⟩ := bind_eq_ok h
      obtain ⟨_, _, h⟩ := bind_eq_ok h
      exact h
    · obtain ⟨_, _, h⟩ := bind_eq_ok h
      exact h
  exact eq_ok_of_forM_eq_ok hscan ho

/-- On an output that pushes a six-byte magic after `OP_RETURN`, the scan runs
the validators that magic names. -/
theorem checkNFTOutput_pushed (tx : CTransaction) {output : CTxOut} {magic rest : List UInt8}
    (hmagic : magic.length = 6) (hout : output.scriptPubKey = OP_RETURN :: 0x06 :: magic ++ rest) :
    checkNFTOutput validAddress tx output =
      (checkBeeNFTMagic validAddress tx magic >>= fun _ => checkGenericNFTMagic tx magic) := by
  unfold checkNFTOutput
  rw [hout]
  simp [hmagic]

/-- A pushed `CASTOK` output passes the scan exactly when the token validator accepts. -/
theorem checkNFTOutput_pushed_CASTOK (tx : CTransaction) {output : CTxOut} {rest : List UInt8}
    (hout : output.scriptPubKey = OP_RETURN :: 0x06 :: magicCASTOK ++ rest) :
    checkNFTOutput validAddress tx output =
      requireValidNFT (IsValidBeeNFTTokenTransaction validAddress tx) "invalid-bee-nft-token" := by
  rw [checkNFTOutput_pushed validAddress tx rfl hout]
  simp [checkBeeNFTMagic, checkGenericNFTMagic, magicCASTOK, magicCASNFT, magicCASGEN,
    bind_ok_unit]

/-- A pushed `CASXFR` output passes the scan exactly when the transfer validator accepts. -/
theorem checkNFTOutput_pushed_CASXFR (tx : CTransaction) {output : CTxOut} {rest : List UInt8}
    (hout : output.scriptPubKey = OP_RETURN :: 0x06 :: magicCASXFR ++ rest) :
    checkNFTOutput validAddress tx output =
      requireValidNFT (IsValidBeeNFTTransferTransaction validAddress tx)
        "invalid-bee-nft-transfer" := by
  rw [checkNFTOutput_pushed validAddress tx rfl hout]
  simp [checkBeeNFTMagic, checkGenericNFTMagic, magicCASTOK, magicCASXFR, magicCASNFT,
    magicCASGEN, bind_ok_unit]

end Acceptance

end Cascoin
