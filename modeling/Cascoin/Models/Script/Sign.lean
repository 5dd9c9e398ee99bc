import Cascoin.Models.Script.Interpreter

/-!
# Signing front ends

The hash type each signer puts on its signatures. `CreateSig` signs the
transaction's signature hash and appends the hash type as the signature's last
byte; the three front ends choose that hash type differently:

* the wallet's `TransactionSignatureCreator` defaults to `SIGHASH_ALL | SIGHASH_FORKID`;
* the `signrawtransaction` RPC defaults to the same and ORs `SIGHASH_FORKID` into
  every entry of its table;
* the `sign` command of `cascoin-tx` (`MutateTxSign`) defaults to `SIGHASH_ALL`
  and takes other values from `sighashOptions`, none of which has the fork ID.

Above `lastScryptBlock` blocks are checked with `SCRIPT_ENABLE_SIGHASH_FORKID`, so
every signature `cascoin-tx` makes is rejected there, whatever the key, the DER
part and the checker (`MutateTxSign_P2PKH_rejected`), while the RPC's signatures
pass whenever the elliptic curve signature itself verifies
(`signrawtransaction_P2PKH_verifies`).

Both signing loops skip an input without an output at its index when `fHashSingle`
holds. The fork ID hides `SIGHASH_SINGLE` from that test, so the RPC signs such an
input, and a legacy one over the constant `one` (`signrawtransaction_signs_one`);
`cascoin-tx` never does (`MutateTxSign_SignatureHash`).
-/

namespace Cascoin

/-- `CreateSig`: the DER signature `key.Sign` returns, then the hash type byte. -/
def CreateSig (vchDER : valtype) (nHashType : Nat) : valtype :=
  vchDER ++ [UInt8.ofNat nHashType]

/-- The hash type of a created signature is the hash type's low byte. -/
@[simp] theorem GetHashType_CreateSig (vchDER : valtype) (nHashType : Nat) :
    GetHashType (CreateSig vchDER nHashType) = nHashType % 256 := by
  simp [GetHashType, CreateSig]

@[simp] theorem length_CreateSig (vchDER : valtype) (nHashType : Nat) :
    (CreateSig vchDER nHashType).length = vchDER.length + 1 := by
  simp [CreateSig]

/-- Whether a created signature's hash type is defined depends on the hash type only. -/
@[simp] theorem IsDefinedHashtypeSignature_CreateSig (vchDER : valtype) (nHashType : Nat) :
    IsDefinedHashtypeSignature (CreateSig vchDER nHashType) =
      !(nHashType % 256 &&& 0x3f < SIGHASH_ALL ∨ nHashType % 256 &&& 0x3f > SIGHASH_SINGLE) := by
  simp [IsDefinedHashtypeSignature]

/-- `TransactionSignatureCreator`'s default hash type, used by the wallet. -/
def TransactionSignatureCreator.nHashTypeDefault : Nat := SIGHASH_ALL ||| SIGHASH_FORKID

/-! ## `signrawtransaction` -/

/-- `mapSigHashValues` of `signrawtransaction`. -/
def mapSigHashValues : List (String × Nat) :=
  [("ALL", SIGHASH_ALL),
   ("ALL|ANYONECANPAY", SIGHASH_ALL ||| SIGHASH_ANYONECANPAY),
   ("NONE", SIGHASH_NONE),
   ("NONE|ANYONECANPAY", SIGHASH_NONE ||| SIGHASH_ANYONECANPAY),
   ("SINGLE", SIGHASH_SINGLE),
   ("SINGLE|ANYONECANPAY", SIGHASH_SINGLE ||| SIGHASH_ANYONECANPAY),
   ("ALL|FORKID", SIGHASH_ALL ||| SIGHASH_FORKID),
   ("NONE|FORKID", SIGHASH_NONE ||| SIGHASH_FORKID),
   ("SINGLE|FORKID", SIGHASH_SINGLE ||| SIGHASH_FORKID),
   ("ALL|FORKID|ANYONECANPAY", SIGHASH_ALL ||| SIGHASH_FORKID ||| SIGHASH_ANYONECANPAY),
   ("NONE|FORKID|ANYONECANPAY", SIGHASH_NONE ||| SIGHASH_FORKID ||| SIGHASH_ANYONECANPAY),
   ("SINGLE|FORKID|ANYONECANPAY", SIGHASH_SINGLE ||| SIGHASH_FORKID ||| SIGHASH_ANYONECANPAY)]

/-- The hash type `signrawtransaction` signs with, from its optional
`sighashtype` argument. -/
def signrawtransactionHashType (sighashtype : Option String) : Checked String Nat :=
  match sighashtype with
  | none => .ok (SIGHASH_ALL ||| SIGHASH_FORKID)
  | some strHashType =>
    match mapSigHashValues.find? (·.1 == strHashType) with
    | some entry => .ok (entry.2 ||| SIGHASH_FORKID)
    | none => Checked.raise "Invalid sighash param"

/-- A hash type passes the hash type rules of the fork: it is defined and it
carries the fork ID. -/
def ForkIdHashType (nHashType : Nat) : Prop :=
  IsDefinedHashtypeSignature (CreateSig [] nHashType) = true ∧
    flagSet (nHashType % 256) SIGHASH_FORKID = true

/-- Every hash type `signrawtransaction` accepts carries the fork ID. -/
theorem signrawtransactionHashType_forkid {sighashtype : Option String} {nHashType : Nat}
    (h : signrawtransactionHashType sighashtype = .ok nHashType) : ForkIdHashType nHashType := by
  have htable : ∀ entry ∈ mapSigHashValues, ForkIdHashType (entry.2 ||| SIGHASH_FORKID) := by
    simp only [ForkIdHashType, IsDefinedHashtypeSignature_CreateSig]
    decide
  unfold signrawtransactionHashType at h
  split at h
  · cases h
    exact htable _ (List.mem_cons_self)
  · split at h
    · rename_i entry hfind
      cases h
      exact htable entry (List.mem_of_find?_eq_some hfind)
    · cases h

/-- The wallet's default hash type carries the fork ID. -/
theorem nHashTypeDefault_forkid : ForkIdHashType TransactionSignatureCreator.nHashTypeDefault := by
  simp only [ForkIdHashType, IsDefinedHashtypeSignature_CreateSig]
  decide

/-! ## `cascoin-tx sign` -/

/-- `sighashOptions` of `bitcoin-tx.cpp`. -/
def sighashOptions : List (String × Nat) :=
  [("ALL", SIGHASH_ALL),
   ("NONE", SIGHASH_NONE),
   ("SINGLE", SIGHASH_SINGLE),
   ("ALL|ANYONECANPAY", SIGHASH_ALL ||| SIGHASH_ANYONECANPAY),
   ("NONE|ANYONECANPAY", SIGHASH_NONE ||| SIGHASH_ANYONECANPAY),
   ("SINGLE|ANYONECANPAY", SIGHASH_SINGLE ||| SIGHASH_ANYONECANPAY)]

/-- `findSighashFlags`: the flags of the first option named `flagStr`. -/
def findSighashFlags (flagStr : String) : Option Nat :=
  (sighashOptions.find? (·.1 == flagStr)).map (·.2)

/-- The hash type `MutateTxSign` signs with: `SIGHASH_ALL`, or the option the
flag string names. -/
def MutateTxSignHashType (flagStr : String) : Checked String Nat :=
  if flagStr.length > 0 then
    match findSighashFlags flagStr with
    | some flags => .ok flags
    | none => Checked.raise "unknown sighash flag/sign option"
  else .ok SIGHASH_ALL

/-- Every hash type `cascoin-tx` signs with is defined and lacks the fork ID. -/
theorem MutateTxSignHashType_no_forkid {flagStr : String} {nHashType : Nat}
    (h : MutateTxSignHashType flagStr = .ok nHashType) :
    IsDefinedHashtypeSignature (CreateSig [] nHashType) = true ∧
      flagSet (nHashType % 256) SIGHASH_FORKID = false := by
  have htable : ∀ n ∈ SIGHASH_ALL :: sighashOptions.map Prod.snd,
      IsDefinedHashtypeSignature (CreateSig [] n) = true ∧
        flagSet (n % 256) SIGHASH_FORKID = false := by
    simp only [IsDefinedHashtypeSignature_CreateSig]
    decide
  unfold MutateTxSignHashType at h
  split at h
  · split at h
    · rename_i flags hfind
      cases h
      obtain ⟨entry, hentry, rfl⟩ := Option.map_eq_some_iff.mp hfind
      exact htable _ (List.mem_cons_of_mem _ (List.mem_map_of_mem (List.mem_of_find?_eq_some hentry)))
    · cases h
  · cases h
    exact htable _ List.mem_cons_self

/-! ## `SIGHASH_SINGLE` without an output -/

/-- `one`, the value `SignatureHash` returns for `SIGHASH_SINGLE` without a matching
output. -/
def SignatureHashOne : Uint256 := ⟨1, Nat.one_lt_two_pow (by decide)⟩

/-- The check at the top of `SignatureHash` for a legacy input: under `SIGHASH_SINGLE`
with no output at the input's index the hash is `one`; otherwise it is the digest of
the serialised transaction, which the model does not compute. -/
def SignatureHash (digest : Uint256) (voutSize nIn nHashType : Nat) (sigversion : SigVersion) :
    Uint256 :=
  if sigversion = .SIGVERSION_BASE ∧ nHashType &&& 0x1f = SIGHASH_SINGLE ∧ nIn ≥ voutSize then
    SignatureHashOne
  else digest

/-- `fHashSingle` of both signing loops: `(nHashType & ~SIGHASH_ANYONECANPAY) == SIGHASH_SINGLE`
on an `int`. -/
def fHashSingle (nHashType : Nat) : Bool :=
  (nHashType.toInt32 &&& ~~~SIGHASH_ANYONECANPAY.toInt32) == SIGHASH_SINGLE.toInt32

/-- Whether a signing loop calls `ProduceSignature` on input `i`: "Only sign
SIGHASH_SINGLE if there's a corresponding output". -/
def signsInput (nHashType i voutSize : Nat) : Bool := !fHashSingle nHashType || i < voutSize

/-- A signing loop whose `fHashSingle` agrees with the base type never signs `one`. -/
theorem SignatureHash_of_signsInput {nHashType i voutSize : Nat}
    (hsingle : nHashType &&& 0x1f = SIGHASH_SINGLE → fHashSingle nHashType = true)
    (hsigns : signsInput nHashType i voutSize = true) (digest : Uint256) :
    SignatureHash digest voutSize i nHashType .SIGVERSION_BASE = digest := by
  unfold SignatureHash
  rw [if_neg]
  rintro ⟨-, hbase, hi⟩
  simp [signsInput, hsingle hbase] at hsigns
  omega

/-- `cascoin-tx`'s hash types have no fork ID, so its `fHashSingle` sees the base type,
and it never signs `one`. -/
theorem MutateTxSign_SignatureHash {flagStr : String} {nHashType i voutSize : Nat}
    (hsel : MutateTxSignHashType flagStr = .ok nHashType)
    (hsigns : signsInput nHashType i voutSize = true) (digest : Uint256) :
    SignatureHash digest voutSize i nHashType .SIGVERSION_BASE = digest := by
  have htable : ∀ n ∈ SIGHASH_ALL :: sighashOptions.map Prod.snd,
      n &&& 0x1f = SIGHASH_SINGLE → fHashSingle n = true := by
    decide
  refine SignatureHash_of_signsInput (htable nHashType ?_) hsigns digest
  unfold MutateTxSignHashType at hsel
  split at hsel
  · split at hsel
    · rename_i flags hfind
      cases hsel
      obtain ⟨entry, hentry, rfl⟩ := Option.map_eq_some_iff.mp hfind
      exact List.mem_cons_of_mem _ (List.mem_map_of_mem (List.mem_of_find?_eq_some hentry))
    · cases hsel
  · cases hsel
    exact List.mem_cons_self

/-- The fork ID that `signrawtransaction` ORs into every hash type hides `SIGHASH_SINGLE`
from its `fHashSingle`: it signs every input, and a legacy input without an output at
its index is signed over `one`. -/
theorem signrawtransaction_signs_one {sighashtype : Option String} {nHashType : Nat}
    (hsel : signrawtransactionHashType sighashtype = .ok nHashType)
    (hsingle : nHashType &&& 0x1f = SIGHASH_SINGLE) (digest : Uint256) {i voutSize : Nat}
    (hi : voutSize ≤ i) :
    signsInput nHashType i voutSize = true ∧
      SignatureHash digest voutSize i nHashType .SIGVERSION_BASE = SignatureHashOne := by
  have htable : ∀ entry ∈ mapSigHashValues, fHashSingle (entry.2 ||| SIGHASH_FORKID) = false := by
    decide
  have hnot : fHashSingle nHashType = false := by
    unfold signrawtransactionHashType at hsel
    split at hsel
    · cases hsel
      decide
    · split at hsel
      · rename_i entry hfind
        cases hsel
        exact htable entry (List.mem_of_find?_eq_some hfind)
      · cases hsel
  refine ⟨by simp [signsInput, hnot], ?_⟩
  simp [SignatureHash, hsingle, hi]

theorem signrawtransaction_signs_one_single :
    signrawtransactionHashType (some "SINGLE") = .ok 0x43 ∧ 0x43 &&& 0x1f = SIGHASH_SINGLE ∧
      0 ≤ 0 ∧ (signsInput 0x43 0 0 = true ∧
        SignatureHash Uint256.zero 0 0 0x43 .SIGVERSION_BASE = SignatureHashOne) :=
  have hsel : signrawtransactionHashType (some "SINGLE") = .ok 0x43 := rfl
  ⟨hsel, by decide, le_refl 0,
    @signrawtransaction_signs_one (some "SINGLE") 0x43 hsel (by decide) Uint256.zero 0 0 (le_refl 0)⟩

/-! ## Against the block script flags -/

/-- Every pay-to-pubkey-hash spend that `cascoin-tx` signs fails `VerifyScript`
under the flags of any block above the last scrypt block: the signature's hash
type lacks `SIGHASH_FORKID`. This holds for every flag string the command
accepts, every key, every DER signature and every signature checker. -/
theorem MutateTxSign_P2PKH_rejected (crypto : Crypto) (checker : BaseSignatureChecker)
    (params : ConsensusParams) (deployments : ScriptDeployments) {nHeight : Int}
    (hheight : params.lastScryptBlock < nHeight) {flagStr : String} {nHashType : Nat}
    (hsel : MutateTxSignHashType flagStr = .ok nHashType) (vchDER vchPubKey : valtype)
    (hsig : vchDER.length + 1 ≤ MAX_SCRIPT_ELEMENT_SIZE)
    (hkey : vchPubKey.length ≤ MAX_SCRIPT_ELEMENT_SIZE) (witnessIsNull : Bool) :
    VerifyScript crypto checker (P2PKHScriptSig (CreateSig vchDER nHashType) vchPubKey)
        (P2PKHScript (crypto.Hash160 vchPubKey)) witnessIsNull
        (GetBlockScriptFlags params deployments nHeight) ≠ .ok () := by
  obtain ⟨hstrict, hforkid⟩ := GetBlockScriptFlags_forkid deployments hheight
  have hno : flagSet (GetHashType (CreateSig vchDER nHashType)) SIGHASH_FORKID = false := by
    rw [GetHashType_CreateSig]
    exact (MutateTxSignHashType_no_forkid hsel).2
  have hencoding := @CheckSignatureEncoding_ne_ok_of_no_forkid crypto _ _ hstrict hforkid
    (by simp) hno
  rw [VerifyScript_P2PKH crypto checker witnessIsNull _ (by simpa using hsig) hkey]
  intro hok
  -- `OP_CHECKSIG` runs the encoding check first, and it failed
  obtain ⟨stack, hcheckSig, -⟩ := Checked.bind_eq_ok hok
  simp only [EvalInstr] at hcheckSig
  obtain ⟨u, henc, -⟩ := Checked.bind_eq_ok hcheckSig
  exact hencoding (by cases u; exact henc)

/-- On the main network every height is above the last scrypt block: the
default flag string, any DER bytes and any key give a rejected spend. -/
theorem MutateTxSign_P2PKH_rejected_main :
    let crypto : Crypto := ⟨fun _ => List.replicate 20 0, fun _ => true, fun _ => List.length_replicate⟩
    let checker : BaseSignatureChecker := ⟨fun _ _ _ _ => true⟩
    let deployments : ScriptDeployments := ⟨0, 0, 0, true, true⟩
    mainParams.lastScryptBlock < 1 ∧ MutateTxSignHashType "" = .ok SIGHASH_ALL ∧
      VerifyScript crypto checker (P2PKHScriptSig (CreateSig (List.replicate 70 0x30) SIGHASH_ALL)
          (List.replicate 33 0x02)) (P2PKHScript (crypto.Hash160 (List.replicate 33 0x02))) true
          (GetBlockScriptFlags mainParams deployments 1) ≠ .ok () := by
  intro crypto checker deployments
  have hheight : mainParams.lastScryptBlock < 1 := by decide
  have hsel : MutateTxSignHashType "" = .ok SIGHASH_ALL := rfl
  exact ⟨hheight, hsel, @MutateTxSign_P2PKH_rejected crypto checker mainParams deployments 1 hheight ""
    SIGHASH_ALL hsel _ _ (by simp [MAX_SCRIPT_ELEMENT_SIZE]) (by simp [MAX_SCRIPT_ELEMENT_SIZE]) true⟩

/-- A pay-to-pubkey-hash spend signed through `signrawtransaction` passes
`VerifyScript` under the flags of any block above the last scrypt block,
whenever its signature is a strict DER, low-S encoding that the checker accepts
for a well formed key: the front end itself adds nothing that consensus rejects. -/
theorem signrawtransaction_P2PKH_verifies (crypto : Crypto) (checker : BaseSignatureChecker)
    (params : ConsensusParams) (deployments : ScriptDeployments) {nHeight : Int}
    (hheight : params.lastScryptBlock < nHeight) {sighashtype : Option String} {nHashType : Nat}
    (hsel : signrawtransactionHashType sighashtype = .ok nHashType) (vchDER vchPubKey : valtype)
    (hsig : vchDER.length + 1 ≤ MAX_SCRIPT_ELEMENT_SIZE)
    (hkey : vchPubKey.length ≤ MAX_SCRIPT_ELEMENT_SIZE)
    (hder : IsValidSignatureEncoding (CreateSig vchDER nHashType) = true)
    (hlow : crypto.CheckLowS vchDER = true)
    (hpub : IsCompressedOrUncompressedPubKey vchPubKey = true)
    (hcheck : checker.CheckSig (CreateSig vchDER nHashType) vchPubKey
      (P2PKHScript (crypto.Hash160 vchPubKey)) .SIGVERSION_BASE = true) :
    VerifyScript crypto checker (P2PKHScriptSig (CreateSig vchDER nHashType) vchPubKey)
        (P2PKHScript (crypto.Hash160 vchPubKey)) true
        (GetBlockScriptFlags params deployments nHeight) = .ok () := by
  obtain ⟨hstrict, hforkid⟩ := GetBlockScriptFlags_forkid deployments hheight
  obtain ⟨hdef, hfork⟩ := signrawtransactionHashType_forkid hsel
  have hdef' : IsDefinedHashtypeSignature (CreateSig vchDER nHashType) = true := by
    rwa [IsDefinedHashtypeSignature_CreateSig] at hdef ⊢
  have henc : CheckSignatureEncoding crypto (CreateSig vchDER nHashType)
      (GetBlockScriptFlags params deployments nHeight) = .ok () := by
    rw [CheckSignatureEncoding_forkid hstrict hforkid (by simp) hder
      (by simpa [CreateSig] using hlow)]
    simp [hdef', hfork]
  have hpubenc : CheckPubKeyEncoding vchPubKey (GetBlockScriptFlags params deployments nHeight)
      .SIGVERSION_BASE = .ok () := by
    simp [CheckPubKeyEncoding, hpub]
  -- with the fork ID the signature is not deleted from the script code
  have hcode : CleanupScriptCode (P2PKHScript (crypto.Hash160 vchPubKey))
      (CreateSig vchDER nHashType) (GetBlockScriptFlags params deployments nHeight) =
      P2PKHScript (crypto.Hash160 vchPubKey) := by
    simp [CleanupScriptCode, hforkid, hfork]
  rw [VerifyScript_P2PKH crypto checker true _ (by simpa using hsig) hkey]
  simp [EvalInstr, henc, hpubenc, hcode, hcheck, CheckFinalStack, CastToBool, vchTrue]

end Cascoin
