import Cascoin.Core.Checked
import Cascoin.Models.Consensus.Params

/-!
# Script signature checks

The signature side of `script/interpreter.cpp`: the encoding rules of
`CheckSignatureEncoding` with Cascoin's fork-ID rule, the key encoding rule, and
`EvalScript` over the opcodes of a pay-to-pubkey-hash spend (data pushes,
`OP_DUP`, `OP_HASH160`, `OP_EQUALVERIFY`, `OP_CHECKSIG`). A script is the list of
instructions `CScript::GetOp` decodes from its bytes. `VerifyScript` is the path
that a scriptPubKey which is neither P2SH nor a witness program takes.

Flags and hash types are the numbers of `interpreter.h`, combined with `|||` and
tested with `&&&` as the source does. The elliptic curve functions (`Hash160`,
`CPubKey::CheckLowS`) and the signature checker are parameters: the model
assumes nothing of them.

`GetBlockScriptFlags` (`validation.cpp`) turns `SCRIPT_VERIFY_STRICTENC` and
`SCRIPT_ENABLE_SIGHASH_FORKID` on above `lastScryptBlock`; from then on a
signature whose hash type lacks `SIGHASH_FORKID` fails with
`SCRIPT_ERR_MUST_USE_FORKID` (`CheckSignatureEncoding_must_use_forkid`).
-/

namespace Cascoin

/-- A stack element. -/
abbrev valtype := List UInt8

/-! ## Flags and hash types -/

/-- `SIGHASH_ALL`. -/
def SIGHASH_ALL : Nat := 1
/-- `SIGHASH_NONE`. -/
def SIGHASH_NONE : Nat := 2
/-- `SIGHASH_SINGLE`. -/
def SIGHASH_SINGLE : Nat := 3
/-- `SIGHASH_FORKID`, Cascoin's replay protection bit. -/
def SIGHASH_FORKID : Nat := 0x40
/-- `SIGHASH_ANYONECANPAY`. -/
def SIGHASH_ANYONECANPAY : Nat := 0x80

/-- `SCRIPT_VERIFY_NONE`. -/
def SCRIPT_VERIFY_NONE : Nat := 0
/-- `SCRIPT_VERIFY_P2SH`. -/
def SCRIPT_VERIFY_P2SH : Nat := 1 <<< 0
/-- `SCRIPT_VERIFY_STRICTENC`. -/
def SCRIPT_VERIFY_STRICTENC : Nat := 1 <<< 1
/-- `SCRIPT_VERIFY_DERSIG`. -/
def SCRIPT_VERIFY_DERSIG : Nat := 1 <<< 2
/-- `SCRIPT_VERIFY_LOW_S`. -/
def SCRIPT_VERIFY_LOW_S : Nat := 1 <<< 3
/-- `SCRIPT_VERIFY_NULLDUMMY`. -/
def SCRIPT_VERIFY_NULLDUMMY : Nat := 1 <<< 4
/-- `SCRIPT_VERIFY_SIGPUSHONLY`. -/
def SCRIPT_VERIFY_SIGPUSHONLY : Nat := 1 <<< 5
/-- `SCRIPT_VERIFY_CLEANSTACK`. -/
def SCRIPT_VERIFY_CLEANSTACK : Nat := 1 <<< 8
/-- `SCRIPT_VERIFY_CHECKLOCKTIMEVERIFY`. -/
def SCRIPT_VERIFY_CHECKLOCKTIMEVERIFY : Nat := 1 <<< 9
/-- `SCRIPT_VERIFY_CHECKSEQUENCEVERIFY`. -/
def SCRIPT_VERIFY_CHECKSEQUENCEVERIFY : Nat := 1 <<< 10
/-- `SCRIPT_VERIFY_WITNESS`. -/
def SCRIPT_VERIFY_WITNESS : Nat := 1 <<< 11
/-- `SCRIPT_VERIFY_NULLFAIL`. -/
def SCRIPT_VERIFY_NULLFAIL : Nat := 1 <<< 14
/-- `SCRIPT_VERIFY_WITNESS_PUBKEYTYPE`. -/
def SCRIPT_VERIFY_WITNESS_PUBKEYTYPE : Nat := 1 <<< 15
/-- `SCRIPT_ENABLE_SIGHASH_FORKID`. -/
def SCRIPT_ENABLE_SIGHASH_FORKID : Nat := 1 <<< 16

/-- `(flags & f) != 0`. -/
def flagSet (flags f : Nat) : Bool := flags &&& f != 0

/-- Setting a flag sets it. -/
theorem flagSet_or_self (flags : Nat) {f : Nat} (hf : f ≠ 0) : flagSet (flags ||| f) f = true := by
  have hand : (flags ||| f) &&& f = f := by
    apply Nat.eq_of_testBit_eq
    intro i
    simp only [Nat.testBit_and, Nat.testBit_or]
    cases f.testBit i <;> simp
  simp [flagSet, hand, hf]

/-- Setting another flag keeps a flag that was set. -/
theorem flagSet_or_of_flagSet {flags f : Nat} (g : Nat) (h : flagSet flags f = true) :
    flagSet (flags ||| g) f = true := by
  simp only [flagSet, bne_iff_ne, ne_eq, Nat.and_or_distrib_right, Nat.or_eq_zero_iff] at h ⊢
  exact fun hz => h hz.1

/-- A flag is set in a mask that includes it. -/
theorem flagSet_or_of_flagSet_right {flags g : Nat} (f : Nat) (h : flagSet flags g = true) :
    flagSet flags (f ||| g) = true := by
  simp only [flagSet, bne_iff_ne, ne_eq, Nat.and_or_distrib_left, Nat.or_eq_zero_iff] at h ⊢
  exact fun hz => h hz.2

/-! ## Errors and encodings -/

/-- The `ScriptError` values the modelled checks set. -/
inductive ScriptError where
  | SCRIPT_ERR_EVAL_FALSE
  | SCRIPT_ERR_SCRIPT_SIZE
  | SCRIPT_ERR_PUSH_SIZE
  | SCRIPT_ERR_OP_COUNT
  | SCRIPT_ERR_STACK_SIZE
  | SCRIPT_ERR_EQUALVERIFY
  | SCRIPT_ERR_INVALID_STACK_OPERATION
  | SCRIPT_ERR_SIG_HASHTYPE
  | SCRIPT_ERR_SIG_DER
  | SCRIPT_ERR_SIG_HIGH_S
  | SCRIPT_ERR_SIG_NULLFAIL
  | SCRIPT_ERR_PUBKEYTYPE
  | SCRIPT_ERR_SIG_PUSHONLY
  | SCRIPT_ERR_CLEANSTACK
  | SCRIPT_ERR_WITNESS_UNEXPECTED
  | SCRIPT_ERR_WITNESS_PUBKEYTYPE
  | SCRIPT_ERR_ILLEGAL_FORKID
  | SCRIPT_ERR_MUST_USE_FORKID
  deriving DecidableEq, Repr

/-- `SigVersion`. -/
inductive SigVersion where
  | SIGVERSION_BASE
  | SIGVERSION_WITNESS_V0
  deriving DecidableEq, Repr

/-- The cryptographic functions the checks call: `Hash160` and
`CPubKey::CheckLowS` on a DER signature without its hash type byte. -/
structure Crypto where
  Hash160 : valtype → valtype
  CheckLowS : valtype → Bool
  /-- A `CHash160` digest is 20 bytes. -/
  Hash160_length : ∀ v, (Hash160 v).length = 20

/-- `IsValidSignatureEncoding`, the BIP66 strict DER rule on a signature with
its hash type byte. Reads past the end return 0; every read the source makes is
in bounds once the checks before it have passed. -/
def IsValidSignatureEncoding (sig : valtype) : Bool :=
  let b := fun i => (sig.getD i 0).toNat
  let lenR := b 3
  let lenS := b (5 + lenR)
  -- Minimum and maximum size, compound type, total length
  if sig.length < 9 ∨ sig.length > 73 then false
  else if b 0 != 0x30 then false
  else if b 1 != sig.length - 3 then false
  else if 5 + lenR ≥ sig.length then false
  else if lenR + lenS + 7 != sig.length then false
  -- R: an integer, not empty, not negative, not padded
  else if b 2 != 0x02 then false
  else if lenR = 0 then false
  else if b 4 &&& 0x80 != 0 then false
  else if lenR > 1 ∧ b 4 = 0x00 ∧ b 5 &&& 0x80 = 0 then false
  -- S: the same rules
  else if b (lenR + 4) != 0x02 then false
  else if lenS = 0 then false
  else if b (lenR + 6) &&& 0x80 != 0 then false
  else if lenS > 1 ∧ b (lenR + 6) = 0x00 ∧ b (lenR + 7) &&& 0x80 = 0 then false
  else true

/-- `IsLowDERSignature`: a valid encoding whose S is at most half the order. -/
def IsLowDERSignature (crypto : Crypto) (vchSig : valtype) : Checked ScriptError Unit :=
  if !IsValidSignatureEncoding vchSig then Checked.reject .SCRIPT_ERR_SIG_DER
  else if !crypto.CheckLowS vchSig.dropLast then Checked.reject .SCRIPT_ERR_SIG_HIGH_S
  else .ok ()

/-- `GetHashType`: the signature's last byte, 0 for an empty signature. -/
def GetHashType (vchSig : valtype) : Nat :=
  match vchSig.getLast? with
  | some b => b.toNat
  | none => 0

/-- `IsDefinedHashtypeSignature`: the hash type without the `ANYONECANPAY` and
`FORKID` bits is `ALL`, `NONE` or `SINGLE`. The source masks the byte with
`~(SIGHASH_ANYONECANPAY | SIGHASH_FORKID)`, which keeps its low six bits. -/
def IsDefinedHashtypeSignature (vchSig : valtype) : Bool :=
  if vchSig.length = 0 then false
  else
    let nHashType := GetHashType vchSig &&& 0x3f
    !(nHashType < SIGHASH_ALL ∨ nHashType > SIGHASH_SINGLE)

/-- `CheckSignatureEncoding`. An empty signature passes; otherwise the DER rule,
the low-S rule and, under `SCRIPT_VERIFY_STRICTENC`, the hash type rule with
Cascoin's fork-ID check. -/
def CheckSignatureEncoding (crypto : Crypto) (vchSig : valtype) (flags : Nat) :
    Checked ScriptError Unit :=
  if vchSig.length = 0 then .ok ()
  else if flagSet flags (SCRIPT_VERIFY_DERSIG ||| SCRIPT_VERIFY_LOW_S ||| SCRIPT_VERIFY_STRICTENC)
      && !IsValidSignatureEncoding vchSig then Checked.reject .SCRIPT_ERR_SIG_DER
  else if flagSet flags SCRIPT_VERIFY_LOW_S && (IsLowDERSignature crypto vchSig).isOk = false then
    IsLowDERSignature crypto vchSig
  else if flagSet flags SCRIPT_VERIFY_STRICTENC then
    if !IsDefinedHashtypeSignature vchSig then Checked.reject .SCRIPT_ERR_SIG_HASHTYPE
    else
      let usesForkId := flagSet (GetHashType vchSig) SIGHASH_FORKID
      let forkIdEnabled := flagSet flags SCRIPT_ENABLE_SIGHASH_FORKID
      if !forkIdEnabled && usesForkId then Checked.reject .SCRIPT_ERR_ILLEGAL_FORKID
      else if forkIdEnabled && !usesForkId then Checked.reject .SCRIPT_ERR_MUST_USE_FORKID
      else .ok ()
  else .ok ()

/-- `IsCompressedOrUncompressedPubKey`. -/
def IsCompressedOrUncompressedPubKey (vchPubKey : valtype) : Bool :=
  if vchPubKey.length < 33 then false
  else if vchPubKey.head? = some 0x04 then vchPubKey.length = 65
  else if vchPubKey.head? = some 0x02 ∨ vchPubKey.head? = some 0x03 then vchPubKey.length = 33
  else false

/-- `IsCompressedPubKey`. -/
def IsCompressedPubKey (vchPubKey : valtype) : Bool :=
  vchPubKey.length = 33 ∧ (vchPubKey.head? = some 0x02 ∨ vchPubKey.head? = some 0x03)

/-- `CheckPubKeyEncoding`. -/
def CheckPubKeyEncoding (vchPubKey : valtype) (flags : Nat) (sigversion : SigVersion) :
    Checked ScriptError Unit :=
  if flagSet flags SCRIPT_VERIFY_STRICTENC && !IsCompressedOrUncompressedPubKey vchPubKey then
    Checked.reject .SCRIPT_ERR_PUBKEYTYPE
  else if flagSet flags SCRIPT_VERIFY_WITNESS_PUBKEYTYPE && sigversion == .SIGVERSION_WITNESS_V0
      && !IsCompressedPubKey vchPubKey then
    Checked.reject .SCRIPT_ERR_WITNESS_PUBKEYTYPE
  else .ok ()

/-- Under `STRICTENC` and `SCRIPT_ENABLE_SIGHASH_FORKID`, a well encoded low-S
signature passes exactly when its hash type is defined and carries the fork ID. -/
theorem CheckSignatureEncoding_forkid {crypto : Crypto} {vchSig : valtype} {flags : Nat}
    (hstrict : flagSet flags SCRIPT_VERIFY_STRICTENC = true)
    (hforkid : flagSet flags SCRIPT_ENABLE_SIGHASH_FORKID = true)
    (hne : vchSig.length ≠ 0) (hder : IsValidSignatureEncoding vchSig = true)
    (hlow : crypto.CheckLowS vchSig.dropLast = true) :
    CheckSignatureEncoding crypto vchSig flags =
      if !IsDefinedHashtypeSignature vchSig then Checked.reject .SCRIPT_ERR_SIG_HASHTYPE
      else if !flagSet (GetHashType vchSig) SIGHASH_FORKID then Checked.reject .SCRIPT_ERR_MUST_USE_FORKID
      else .ok () := by
  have hlowOk : (IsLowDERSignature crypto vchSig).isOk = true := by
    simp [IsLowDERSignature, hder, hlow, Except.isOk, Except.toBool]
  simp only [CheckSignatureEncoding, hne, hder, hlowOk, hstrict, hforkid, if_false]
  by_cases hdef : IsDefinedHashtypeSignature vchSig <;> simp [hdef]

/-- A signature whose hash type lacks `SIGHASH_FORKID` fails under
`STRICTENC` and `SCRIPT_ENABLE_SIGHASH_FORKID`, whatever its DER part. -/
theorem CheckSignatureEncoding_ne_ok_of_no_forkid {crypto : Crypto} {vchSig : valtype} {flags : Nat}
    (hstrict : flagSet flags SCRIPT_VERIFY_STRICTENC = true)
    (hforkid : flagSet flags SCRIPT_ENABLE_SIGHASH_FORKID = true)
    (hne : vchSig.length ≠ 0) (hno : flagSet (GetHashType vchSig) SIGHASH_FORKID = false) :
    CheckSignatureEncoding crypto vchSig flags ≠ .ok () := by
  have hmask : flagSet flags (SCRIPT_VERIFY_DERSIG ||| SCRIPT_VERIFY_LOW_S ||| SCRIPT_VERIFY_STRICTENC)
      = true := flagSet_or_of_flagSet_right _ hstrict
  unfold CheckSignatureEncoding
  rw [if_neg hne]
  -- each branch the encoding checks can take ends in an error
  split
  · simp
  split
  · rename_i hlow
    intro hok
    simp only [Bool.and_eq_true, hok, Except.isOk, Except.toBool] at hlow
    exact absurd hlow.2 (by simp)
  split
  · simp
  simp [hforkid, hno]

/-! ## Evaluation -/

/-- The instructions of the modelled scripts, as `CScript::GetOp` decodes them. -/
inductive Instr where
  | push (data : valtype)
  | OP_DUP
  | OP_HASH160
  | OP_EQUALVERIFY
  | OP_CHECKSIG
  deriving DecidableEq, Repr

/-- Whether the instruction is a data push (an opcode up to `OP_16`). -/
def Instr.isPush : Instr → Bool
  | .push _ => true
  | _ => false

/-- The data a push instruction carries. -/
def Instr.pushValue : Instr → valtype
  | .push data => data
  | _ => []

/-- `BaseSignatureChecker::CheckSig` on a signature, a key and the script code. -/
structure BaseSignatureChecker where
  CheckSig : valtype → valtype → List Instr → SigVersion → Bool

/-- `MAX_SCRIPT_ELEMENT_SIZE`. -/
def MAX_SCRIPT_ELEMENT_SIZE : Nat := 520
/-- `MAX_OPS_PER_SCRIPT`. -/
def MAX_OPS_PER_SCRIPT : Nat := 201
/-- `MAX_STACK_SIZE`. -/
def MAX_STACK_SIZE : Nat := 1000

/-- `vchTrue`. -/
def vchTrue : valtype := [1]
/-- `vchFalse`. -/
def vchFalse : valtype := []

/-- `CastToBool`: some byte is non-zero, the last one not only in its sign bit. -/
def CastToBool : valtype → Bool
  | [] => false
  | [b] => b != 0 && b != 0x80
  | b :: rest => b != 0 || CastToBool rest

/-- `CleanupScriptCode`: unless the fork ID is enabled and used, the signature's
pushes are deleted from the script code (`FindAndDelete`). -/
def CleanupScriptCode (scriptCode : List Instr) (vchSig : valtype) (flags : Nat) : List Instr :=
  if !flagSet flags SCRIPT_ENABLE_SIGHASH_FORKID || !flagSet (GetHashType vchSig) SIGHASH_FORKID then
    scriptCode.filter (· != .push vchSig)
  else scriptCode

section Eval

variable (crypto : Crypto) (checker : BaseSignatureChecker)

/-- One instruction of `EvalScript`. The head of the stack is `stacktop(-1)`;
`script` is the script being run, which a signature commits to. -/
def EvalInstr (script : List Instr) (flags : Nat) (sigversion : SigVersion) :
    Instr → List valtype → Checked ScriptError (List valtype)
  | .push data, stack => .ok (data :: stack)
  | .OP_DUP, vch :: stack => .ok (vch :: vch :: stack)
  | .OP_HASH160, vch :: stack => .ok (crypto.Hash160 vch :: stack)
  | .OP_EQUALVERIFY, vch2 :: vch1 :: stack =>
    -- `OP_EQUAL` pushes the result and `VERIFY` pops it again
    if vch1 = vch2 then .ok stack else Checked.reject .SCRIPT_ERR_EQUALVERIFY
  | .OP_CHECKSIG, vchPubKey :: vchSig :: stack => do
    let scriptCode :=
      if sigversion = .SIGVERSION_BASE then CleanupScriptCode script vchSig flags else script
    CheckSignatureEncoding crypto vchSig flags
    CheckPubKeyEncoding vchPubKey flags sigversion
    let fSuccess := checker.CheckSig vchSig vchPubKey scriptCode sigversion
    if !fSuccess && flagSet flags SCRIPT_VERIFY_NULLFAIL && vchSig.length != 0 then
      Checked.reject .SCRIPT_ERR_SIG_NULLFAIL
    pure ((if fSuccess then vchTrue else vchFalse) :: stack)
  | _, _ => Checked.reject .SCRIPT_ERR_INVALID_STACK_OPERATION

/-- The instruction loop of `EvalScript`, with its push size, operation count
and stack size limits. -/
def EvalScriptFrom (script : List Instr) (flags : Nat) (sigversion : SigVersion) :
    List Instr → Nat → List valtype → Checked ScriptError (List valtype)
  | [], _, stack => .ok stack
  | op :: rest, nOpCount, stack => do
    if op.pushValue.length > MAX_SCRIPT_ELEMENT_SIZE then Checked.reject .SCRIPT_ERR_PUSH_SIZE
    let nOpCount := if op.isPush then nOpCount else nOpCount + 1
    if nOpCount > MAX_OPS_PER_SCRIPT then Checked.reject .SCRIPT_ERR_OP_COUNT
    let stack ← EvalInstr crypto checker script flags sigversion op stack
    if stack.length > MAX_STACK_SIZE then Checked.reject .SCRIPT_ERR_STACK_SIZE
    EvalScriptFrom script flags sigversion rest nOpCount stack

/-- `EvalScript`. -/
def EvalScript (stack : List valtype) (script : List Instr) (flags : Nat) (sigversion : SigVersion) :
    Checked ScriptError (List valtype) :=
  EvalScriptFrom crypto checker script flags sigversion script 0 stack

/-- An instruction that passes the element size and operation count limits
and leaves at most `MAX_STACK_SIZE` elements is one step of the loop. -/
theorem EvalScriptFrom_cons (op : Instr) (nOpCount nOpCount' : Nat) (stack' : List valtype)
    {script : List Instr} {flags : Nat} {sigversion : SigVersion} {rest : List Instr}
    {stack : List valtype} (hpush : op.pushValue.length ≤ MAX_SCRIPT_ELEMENT_SIZE)
    (hcount : (if op.isPush then nOpCount else nOpCount + 1) = nOpCount')
    (hops : nOpCount' ≤ MAX_OPS_PER_SCRIPT)
    (hstep : EvalInstr crypto checker script flags sigversion op stack = .ok stack')
    (hlen : stack'.length ≤ MAX_STACK_SIZE) :
    EvalScriptFrom crypto checker script flags sigversion (op :: rest) nOpCount stack =
      EvalScriptFrom crypto checker script flags sigversion rest nOpCount' stack' := by
  subst hcount
  simp only [EvalScriptFrom, gt_iff_lt, not_lt.mpr hpush, not_lt.mpr hops, not_lt.mpr hlen,
    if_false, hstep, Checked.ok_bind]

/-- `CScript::IsPushOnly`. -/
def IsPushOnly (script : List Instr) : Bool := script.all Instr.isPush

/-- The checks of `VerifyScript` on the stack the scriptPubKey leaves: a true
top, a clean stack under `SCRIPT_VERIFY_CLEANSTACK`, and no witness data. -/
def CheckFinalStack (flags : Nat) (witnessIsNull : Bool) :
    List valtype → Checked ScriptError Unit
  | [] => Checked.reject .SCRIPT_ERR_EVAL_FALSE
  | top :: rest => do
    if CastToBool top = false then Checked.reject .SCRIPT_ERR_EVAL_FALSE
    if flagSet flags SCRIPT_VERIFY_CLEANSTACK && (top :: rest).length != 1 then
      Checked.reject .SCRIPT_ERR_CLEANSTACK
    if flagSet flags SCRIPT_VERIFY_WITNESS && !witnessIsNull then
      Checked.reject .SCRIPT_ERR_WITNESS_UNEXPECTED

/-- `VerifyScript` on the path of a scriptPubKey that is neither P2SH nor a
witness program; `witnessIsNull` is `witness->IsNull()`. -/
def VerifyScript (scriptSig scriptPubKey : List Instr) (witnessIsNull : Bool) (flags : Nat) :
    Checked ScriptError Unit := do
  if flagSet flags SCRIPT_VERIFY_SIGPUSHONLY && !IsPushOnly scriptSig then
    Checked.reject .SCRIPT_ERR_SIG_PUSHONLY
  let stack ← EvalScript crypto checker [] scriptSig flags .SIGVERSION_BASE
  let stack ← EvalScript crypto checker stack scriptPubKey flags .SIGVERSION_BASE
  CheckFinalStack flags witnessIsNull stack

/-- `GetScriptForDestination` of a key ID:
`OP_DUP OP_HASH160 <keyID> OP_EQUALVERIFY OP_CHECKSIG`. -/
def P2PKHScript (keyID : valtype) : List Instr :=
  [.OP_DUP, .OP_HASH160, .push keyID, .OP_EQUALVERIFY, .OP_CHECKSIG]

/-- The scriptSig `ProduceSignature` builds for a key-hash output: `<sig> <pubkey>`. -/
def P2PKHScriptSig (vchSig vchPubKey : valtype) : List Instr := [.push vchSig, .push vchPubKey]

/-- `OP_CHECKSIG` leaves one element in place of the two it reads. -/
theorem EvalInstr_checkSig_length {script : List Instr} {flags : Nat} {sigversion : SigVersion}
    {vchPubKey vchSig : valtype} {stack stack' : List valtype}
    (h : EvalInstr crypto checker script flags sigversion .OP_CHECKSIG (vchPubKey :: vchSig :: stack)
      = .ok stack') : stack'.length = stack.length + 1 := by
  simp only [EvalInstr] at h
  obtain ⟨_, -, h⟩ := Checked.bind_eq_ok h
  obtain ⟨_, -, h⟩ := Checked.bind_eq_ok h
  generalize checker.CheckSig _ _ _ _ = fSuccess at h
  split at h
  · simp at h
  · cases h
    simp

/-- Spending a key-hash output with the key it hashes comes down to the
`OP_CHECKSIG` on the signature and the key. -/
theorem VerifyScript_P2PKH {vchSig vchPubKey : valtype} (witnessIsNull : Bool) (flags : Nat)
    (hsig : vchSig.length ≤ MAX_SCRIPT_ELEMENT_SIZE) (hkey : vchPubKey.length ≤ MAX_SCRIPT_ELEMENT_SIZE) :
    VerifyScript crypto checker (P2PKHScriptSig vchSig vchPubKey)
        (P2PKHScript (crypto.Hash160 vchPubKey)) witnessIsNull flags =
      EvalInstr crypto checker (P2PKHScript (crypto.Hash160 vchPubKey)) flags .SIGVERSION_BASE
        .OP_CHECKSIG [vchPubKey, vchSig] >>= CheckFinalStack flags witnessIsNull := by
  have hkeyID : (crypto.Hash160 vchPubKey).length ≤ MAX_SCRIPT_ELEMENT_SIZE := by
    rw [crypto.Hash160_length]; decide
  have hpushOnly : IsPushOnly (P2PKHScriptSig vchSig vchPubKey) = true := rfl
  -- the scriptSig pushes the signature and then the key
  have hscriptSig : EvalScript crypto checker [] (P2PKHScriptSig vchSig vchPubKey) flags
      .SIGVERSION_BASE = .ok [vchPubKey, vchSig] := by
    rw [EvalScript, P2PKHScriptSig,
      EvalScriptFrom_cons crypto checker (.push vchSig) 0 0 [vchSig] hsig rfl (by decide) rfl
        (by simp [MAX_STACK_SIZE]),
      EvalScriptFrom_cons crypto checker (.push vchPubKey) 0 0 [vchPubKey, vchSig] hkey rfl
        (by decide) rfl (by simp [MAX_STACK_SIZE])]
    rfl
  -- `OP_DUP OP_HASH160 <keyID> OP_EQUALVERIFY` leaves the stack as it found it
  have hscriptPubKey : EvalScript crypto checker [vchPubKey, vchSig]
      (P2PKHScript (crypto.Hash160 vchPubKey)) flags .SIGVERSION_BASE =
      EvalInstr crypto checker (P2PKHScript (crypto.Hash160 vchPubKey)) flags .SIGVERSION_BASE
        .OP_CHECKSIG [vchPubKey, vchSig] := by
    rw [EvalScript]
    conv => lhs; rw [P2PKHScript]
    have hop : ∀ op : Instr, op.isPush = false → op.pushValue.length ≤ MAX_SCRIPT_ELEMENT_SIZE := by
      intro op hop
      cases op <;> simp_all [Instr.isPush, Instr.pushValue]
    rw [EvalScriptFrom_cons crypto checker .OP_DUP 0 1 [vchPubKey, vchPubKey, vchSig]
        (hop _ rfl) rfl (by decide) rfl (by simp [MAX_STACK_SIZE]),
      EvalScriptFrom_cons crypto checker .OP_HASH160 1 2
        [crypto.Hash160 vchPubKey, vchPubKey, vchSig] (hop _ rfl) rfl (by decide) rfl
        (by simp [MAX_STACK_SIZE]),
      EvalScriptFrom_cons crypto checker (.push (crypto.Hash160 vchPubKey)) 2 2
        [crypto.Hash160 vchPubKey, crypto.Hash160 vchPubKey, vchPubKey, vchSig] hkeyID rfl
        (by decide) rfl (by simp [MAX_STACK_SIZE]),
      EvalScriptFrom_cons crypto checker .OP_EQUALVERIFY 2 3 [vchPubKey, vchSig] (hop _ rfl) rfl
        (by decide) (by simp [EvalInstr]) (by simp [MAX_STACK_SIZE])]
    cases hc : EvalInstr crypto checker (P2PKHScript (crypto.Hash160 vchPubKey)) flags
      .SIGVERSION_BASE .OP_CHECKSIG [vchPubKey, vchSig] with
    | error e =>
      rw [P2PKHScript] at hc
      simp [EvalScriptFrom, hc, Instr.pushValue, Instr.isPush, MAX_OPS_PER_SCRIPT]
    | ok stack' =>
      have hlen := EvalInstr_checkSig_length crypto checker hc
      rw [P2PKHScript] at hc
      simp [EvalScriptFrom, hc, hlen, Instr.pushValue, Instr.isPush, MAX_OPS_PER_SCRIPT,
        MAX_STACK_SIZE]
  simp only [VerifyScript, hpushOnly, Bool.not_true, Bool.and_false, hscriptSig, hscriptPubKey,
    Bool.false_eq_true, if_false, Checked.ok_bind]

end Eval

/-! ## Block script flags -/

/-- The deployment state `GetBlockScriptFlags` reads besides the height: the
BIP16, BIP66 and BIP65 heights, whether CSV is active at the parent
(`VersionBitsState`) and whether segwit is (`IsWitnessEnabled`). -/
structure ScriptDeployments where
  BIP16Height : Int
  BIP66Height : Int
  BIP65Height : Int
  csvActive : Bool
  witnessEnabled : Bool

/-- `GetBlockScriptFlags` for a block at `nHeight`. -/
def GetBlockScriptFlags (params : ConsensusParams) (deployments : ScriptDeployments)
    (nHeight : Int) : Nat :=
  let flags := SCRIPT_VERIFY_NONE
  let flags := if nHeight ≥ deployments.BIP16Height then flags ||| SCRIPT_VERIFY_P2SH else flags
  let flags := if nHeight ≥ deployments.BIP66Height then flags ||| SCRIPT_VERIFY_DERSIG else flags
  let flags :=
    if nHeight ≥ deployments.BIP65Height then flags ||| SCRIPT_VERIFY_CHECKLOCKTIMEVERIFY else flags
  let flags :=
    if deployments.csvActive then flags ||| SCRIPT_VERIFY_CHECKSEQUENCEVERIFY else flags
  let flags :=
    if deployments.witnessEnabled then flags ||| SCRIPT_VERIFY_WITNESS ||| SCRIPT_VERIFY_NULLDUMMY
    else flags
  -- Cascoin: enforce use of the correct fork ID
  if nHeight > params.lastScryptBlock then
    flags ||| SCRIPT_VERIFY_STRICTENC ||| SCRIPT_ENABLE_SIGHASH_FORKID
  else flags

/-- Above the last scrypt block, blocks are checked with strict encoding and the
fork ID rule. -/
theorem GetBlockScriptFlags_forkid {params : ConsensusParams} (deployments : ScriptDeployments)
    {nHeight : Int} (h : params.lastScryptBlock < nHeight) :
    flagSet (GetBlockScriptFlags params deployments nHeight) SCRIPT_VERIFY_STRICTENC = true ∧
    flagSet (GetBlockScriptFlags params deployments nHeight) SCRIPT_ENABLE_SIGHASH_FORKID = true := by
  simp only [GetBlockScriptFlags, gt_iff_lt, h, if_true]
  exact ⟨flagSet_or_of_flagSet _ (flagSet_or_self _ (by decide)), flagSet_or_self _ (by decide)⟩

end Cascoin
