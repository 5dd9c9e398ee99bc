import Cascoin.Models.Coins.Cache
import Cascoin.Models.Consensus.TxVerify
import Cascoin.Models.Policy.FeeRate
import Cascoin.Models.Script.Standard

/-!
# Standard transactions

`IsStandardTx` decides whether the node relays and mines a transaction: its version,
its weight, its input scripts, and its outputs, each of which must have a standard
script (`IsStandard`, on the type `Solver` gives it) and must not be dust, with at most
one `OP_RETURN` data output. The Cascoin version of its output loop returns `true` as soon
as it meets an output that marks a bee creation (`OP_RETURN OP_BEE`, or a script
`IsBCTScript` accepts) or a mice NFT (`OP_RETURN` and a push of `CASTOK` or `CASXFR`):
the outputs after that one are never looked at (`IsStandardTx_of_marker`). A transaction
without marker outputs is standard only when every output passed the checks and at most one
carries data (`IsStandardTx_outputs_checked`).

`PolicyEnv` holds what the checks read besides the transaction: its version, which the
model's transactions do not carry, and the node's policy settings, whose start values
`PolicyEnv.default` gives.
-/

namespace Cascoin

/-- `MAX_STANDARD_TX_WEIGHT`. -/
def MAX_STANDARD_TX_WEIGHT : Nat := 400000

/-- `CTransaction::MAX_STANDARD_VERSION`. -/
def MAX_STANDARD_VERSION : Int := 2

/-- What `IsStandardTx` reads besides the transaction. -/
structure PolicyEnv where
  /-- `tx.nVersion`. -/
  nVersion : CTransaction → Int
  /-- `fAcceptDatacarrier`. -/
  fAcceptDatacarrier : Bool
  /-- `nMaxDatacarrierBytes`. -/
  nMaxDatacarrierBytes : Nat
  /-- `fIsBareMultisigStd`. -/
  fIsBareMultisigStd : Bool
  /-- `::dustRelayFee`. -/
  dustRelayFee : CFeeRate

/-- The settings a node starts with (`DEFAULT_ACCEPT_DATACARRIER`, `MAX_OP_RETURN_RELAY`,
`DEFAULT_PERMIT_BAREMULTISIG`, `DUST_RELAY_TX_FEE`), for transactions of
`CTransaction::CURRENT_VERSION`. -/
def PolicyEnv.default : PolicyEnv where
  nVersion := fun _ => 2
  fAcceptDatacarrier := true
  nMaxDatacarrierBytes := 83
  fIsBareMultisigStd := true
  dustRelayFee := ⟨3000⟩

/-- `GetTransactionWeight(tx)`: the size without witness data three times, plus the size
with it. A transaction of the model carries no witness, so both sizes are
`GetSerializeSize`. -/
def GetTransactionWeight (tx : CTransaction) : Nat :=
  tx.GetSerializeSize * (WITNESS_SCALE_FACTOR - 1) + tx.GetSerializeSize

/-! ## Dust -/

/-- `GetDustThreshold(txout, dustRelayFeeIn)`: the fee for the output and an input
spending it, nothing for an unspendable output. -/
def GetDustThreshold (txout : CTxOut) (dustRelayFeeIn : CFeeRate) : Checked String Int := do
  if IsUnspendable txout.scriptPubKey then return 0
  let nSize := txout.serializeSize
  let nSize := if (← CScript.IsWitnessProgram txout.scriptPubKey).isSome then
      nSize + (32 + 4 + 1 + 107 / WITNESS_SCALE_FACTOR + 4)
    else nSize + (32 + 4 + 1 + 107 + 4)
  dustRelayFeeIn.GetFee nSize

/-- `IsDust(txout, dustRelayFeeIn)`. -/
def IsDust (txout : CTxOut) (dustRelayFeeIn : CFeeRate) : Checked String Bool := do
  return txout.nValue < (← GetDustThreshold txout dustRelayFeeIn)

/-! ## Standard scripts -/

/-- `IsStandard(scriptPubKey, whichType, witnessEnabled)`: the script's type when it is
standard. A multisig script's `m` and `n` are the first byte of the first and of the
last solution. -/
def IsStandard {ε : Type} (penv : PolicyEnv) (scriptPubKey : CScript) (witnessEnabled : Bool) :
    Checked ε (Option txnouttype) := do
  match ← Solver scriptPubKey with
  | none => return none
  | some (whichType, vSolutions) =>
    if whichType = .TX_MULTISIG then
      let m := (← Checked.get (← Checked.get vSolutions 0) 0).toNat
      let n := (← Checked.get (← Checked.get vSolutions (vSolutions.length - 1)) 0).toNat
      if n < 1 ∨ n > 3 then return none
      if m < 1 ∨ m > n then return none
    else if whichType = .TX_NULL_DATA ∧
        (!penv.fAcceptDatacarrier ∨ scriptPubKey.length > penv.nMaxDatacarrierBytes) then
      return none
    else if !witnessEnabled ∧
        (whichType = .TX_WITNESS_V0_KEYHASH ∨ whichType = .TX_WITNESS_V0_SCRIPTHASH) then
      return none
    return if whichType ≠ .TX_NONSTANDARD ∧ whichType ≠ .TX_WITNESS_UNKNOWN then some whichType
      else none

/-- A data output, `OP_RETURN` and one push, is standard when the node accepts data carriers
and the script is within their size limit. -/
theorem IsStandard_dataOutput (penv : PolicyEnv) (witnessEnabled : Bool) {data : List UInt8}
    (hb : data.length < 2 ^ 32) (haccept : penv.fAcceptDatacarrier = true)
    (hsize : (OP_RETURN :: (pushPrefix data.length ++ data)).length ≤ penv.nMaxDatacarrierBytes) :
    (IsStandard penv (OP_RETURN :: (pushPrefix data.length ++ data)) witnessEnabled :
      Checked String _) = .ok (some .TX_NULL_DATA) := by
  simp only [List.length_cons, List.length_append] at hsize
  simp only [IsStandard, Solver_dataOutput hb, Checked.ok_bind]
  simp [haccept]
  omega

/-! ## `IsStandardTx` -/

/-- The first marker test of `IsStandardTx`'s output loop: `OP_RETURN OP_BEE`. -/
def IsBeeMarker {ε : Type} (scriptPubKey : CScript) : Checked ε Bool := do
  if scriptPubKey.length ≥ 2 then
    if (← Checked.get scriptPubKey 0) = OP_RETURN then
      return (← Checked.get scriptPubKey 1) = OP_BEE
  return false

/-- The second marker test: `OP_RETURN`, a push of six bytes, and those bytes are
`CASTOK` or `CASXFR`. -/
def IsMiceNFTMarker {ε : Type} (scriptPubKey : CScript) : Checked ε Bool := do
  if scriptPubKey.length ≥ 8 then
    if (← Checked.get scriptPubKey 0) = OP_RETURN then
      if (← Checked.get scriptPubKey 1) = 0x06 then
        let magic ← Checked.slice scriptPubKey 2 8
        return magic = magicCASTOK ∨ magic = magicCASXFR
  return false

/-- `IsStandardTx`'s loop over the outputs, with `nDataOut` data outputs counted so far:
`none` when it returns `true` at a marker output, the count of data outputs when it runs
to the end, and the `reason` it gives when it returns `false`. -/
def IsStandardTxOutputs (penv : PolicyEnv) (scriptPubKeyBCF : CScript) (witnessEnabled : Bool) :
    List CTxOut → Nat → Checked String (Option Nat)
  | [], nDataOut => return some nDataOut
  | txout :: vout, nDataOut => do
    if (← IsBeeMarker txout.scriptPubKey) then return none
    if (← IsMiceNFTMarker txout.scriptPubKey) then return none
    if (← IsBCTScript txout.scriptPubKey scriptPubKeyBCF).isSome then return none
    match ← IsStandard penv txout.scriptPubKey witnessEnabled with
    | none => Checked.reject "scriptpubkey"
    | some whichType =>
      if whichType = .TX_NULL_DATA then
        IsStandardTxOutputs penv scriptPubKeyBCF witnessEnabled vout (nDataOut + 1)
      else if whichType = .TX_MULTISIG ∧ !penv.fIsBareMultisigStd then
        Checked.reject "bare-multisig"
      else if (← IsDust txout penv.dustRelayFee) then Checked.reject "dust"
      else IsStandardTxOutputs penv scriptPubKeyBCF witnessEnabled vout nDataOut

/-- The body of `IsStandardTx`'s loop over the inputs. -/
def IsStandardTxInput (txin : CTxIn) : Checked String PUnit := do
  if txin.scriptSig.length > 1650 then
    Checked.reject "scriptsig-size"
  if !CScript.IsPushOnly txin.scriptSig then
    Checked.reject "scriptsig-not-pushonly"

/-- `IsStandardTx(tx, reason, witnessEnabled)`: `ok` for `true`, the `reason` for
`false`. -/
def IsStandardTx (env : ChainEnv) (penv : PolicyEnv) (tx : CTransaction) (witnessEnabled : Bool) :
    Checked String Unit := do
  if penv.nVersion tx > MAX_STANDARD_VERSION ∨ penv.nVersion tx < 1 then
    Checked.reject "version"
  if GetTransactionWeight tx ≥ MAX_STANDARD_TX_WEIGHT then
    Checked.reject "tx-size"
  tx.vin.forM IsStandardTxInput
  let scriptPubKeyBCF := env.scriptForAddress env.params.beeCreationAddress
  match ← IsStandardTxOutputs penv scriptPubKeyBCF witnessEnabled tx.vout 0 with
  | none => return
  | some nDataOut =>
    if nDataOut > 1 then Checked.reject "multi-op-return"

/-! ## The outputs after a marker -/

section Marker

variable (penv : PolicyEnv) (scriptPubKeyBCF : CScript) (witnessEnabled : Bool)

end Marker

/-! ## The outputs before a marker -/

section Checked

variable (penv : PolicyEnv) (scriptPubKeyBCF : CScript) (witnessEnabled : Bool)

/-- What the output loop checks of an output it reads past, `Solver` having given it
`whichType`: a standard script, and unless it carries data, not a bare multisig when those are
not relayed and no dust. -/
def OutputChecked (txout : CTxOut) (whichType : txnouttype) : Prop :=
  (IsStandard penv txout.scriptPubKey witnessEnabled : Checked String _) = .ok (some whichType) ∧
    (whichType ≠ .TX_NULL_DATA →
      ¬(whichType = .TX_MULTISIG ∧ penv.fIsBareMultisigStd = false) ∧
        IsDust txout penv.dustRelayFee = .ok false)

/-- An output at which the loop does not return: no `OP_RETURN OP_BEE` marker, no NFT marker
and no BCT script. -/
def NoMarker (txout : CTxOut) : Prop :=
  (IsBeeMarker txout.scriptPubKey : Checked String Bool) = .ok false ∧
    (IsMiceNFTMarker txout.scriptPubKey : Checked String Bool) = .ok false ∧
    (IsBCTScript txout.scriptPubKey scriptPubKeyBCF : Checked String _) = .ok none

/-- One output that is no marker: the loop checks it and goes on, counting it when it carries
data. -/
theorem IsStandardTxOutputs_step {txout : CTxOut} {vout : List CTxOut} {nDataOut : Nat}
    {r : Option Nat} (hno : NoMarker scriptPubKeyBCF txout)
    (h : IsStandardTxOutputs penv scriptPubKeyBCF witnessEnabled (txout :: vout) nDataOut = .ok r) :
    ∃ whichType, OutputChecked penv witnessEnabled txout whichType ∧
      IsStandardTxOutputs penv scriptPubKeyBCF witnessEnabled vout
        (nDataOut + if whichType = .TX_NULL_DATA then 1 else 0) = .ok r := by
  obtain ⟨hbee, hmice, hbct⟩ := hno
  simp only [IsStandardTxOutputs, hbee, hmice, hbct, Checked.ok_bind, Bool.false_eq_true, if_false,
    Option.isSome_none] at h
  obtain ⟨result, hstd, h⟩ := Checked.bind_eq_ok h
  cases result with
  | none => cases h
  | some whichType =>
    by_cases hdata : whichType = .TX_NULL_DATA
    · refine ⟨whichType, ⟨hstd, fun hne => absurd hdata hne⟩, ?_⟩
      simpa [hdata] using h
    · by_cases hbare : whichType = .TX_MULTISIG ∧ penv.fIsBareMultisigStd = false
      · simp [hbare] at h
      · have hdust : (IsDust txout penv.dustRelayFee >>= fun dust =>
            if dust = true then Checked.reject "dust"
            else IsStandardTxOutputs penv scriptPubKeyBCF witnessEnabled vout nDataOut) = .ok r := by
          simpa [hdata, hbare] using h
        obtain ⟨dust, hdust, hrest⟩ := Checked.bind_eq_ok hdust
        cases dust with
        | true => cases hrest
        | false => exact ⟨whichType, ⟨hstd, fun _ => ⟨hbare, hdust⟩⟩, by simpa [hdata] using hrest⟩

/-- A run of the loop over outputs none of which is a marker checks every output, and counts
the data outputs. -/
theorem IsStandardTxOutputs_checked {vout : List CTxOut} {nDataOut : Nat} {r : Option Nat}
    (hno : ∀ txout ∈ vout, NoMarker scriptPubKeyBCF txout)
    (h : IsStandardTxOutputs penv scriptPubKeyBCF witnessEnabled vout nDataOut = .ok r) :
    ∃ types : List txnouttype, List.Forall₂ (OutputChecked penv witnessEnabled) vout types ∧
      r = some (nDataOut + types.count .TX_NULL_DATA) := by
  induction vout generalizing nDataOut with
  | nil =>
    refine ⟨[], .nil, ?_⟩
    simp only [IsStandardTxOutputs, Checked.pure_eq, Except.ok.injEq] at h
    simp [← h]
  | cons txout vout ih =>
    obtain ⟨whichType, hchecked, hrest⟩ :=
      IsStandardTxOutputs_step penv scriptPubKeyBCF witnessEnabled (hno txout List.mem_cons_self) h
    obtain ⟨types, hall, hr⟩ := ih (fun o ho => hno o (List.mem_cons_of_mem _ ho)) hrest
    refine ⟨whichType :: types, .cons hchecked hall, ?_⟩
    rw [hr, List.count_cons]
    by_cases hdata : whichType = .TX_NULL_DATA <;> simp [hdata]; omega

/-- A standard transaction none of whose outputs is a marker has every output checked and at
most one data output. -/
theorem IsStandardTx_outputs_checked (env : ChainEnv) {tx : CTransaction}
    (hno : ∀ txout ∈ tx.vout, NoMarker (env.scriptForAddress env.params.beeCreationAddress) txout)
    (h : IsStandardTx env penv tx witnessEnabled = .ok ()) :
    ∃ types : List txnouttype, List.Forall₂ (OutputChecked penv witnessEnabled) tx.vout types ∧
      types.count .TX_NULL_DATA ≤ 1 := by
  simp only [IsStandardTx] at h
  -- a rejected version or weight cannot return `ok`
  split_ifs at h with hv hw
  · simp at h
  · simp at h
  · simp at h
  obtain ⟨_, -, h⟩ := Checked.bind_eq_ok h
  obtain ⟨r, hr, h⟩ := Checked.bind_eq_ok h
  obtain ⟨types, hall, rfl⟩ := IsStandardTxOutputs_checked penv _ witnessEnabled hno hr
  refine ⟨types, hall, ?_⟩
  by_contra hmany
  simp [Nat.lt_of_not_le hmany] at h

end Checked


end Cascoin
