import Cascoin.Models.Primitives.Script

/-!
# Transactions

The transaction fields the modelled code reads: outpoints, input scripts and
output values and scripts. A `uint256` is the number `UintToArith256` reads
from it, so a hash compares with a target as that number does. Amounts are
integers (`CAmount`), with `MoneyRange` over the scaled `COIN` of `amount.h`.

`GetSerializeSize` is the size of the serialisation without witness data,
the only serialisation the modelled size checks measure; the version and
lock time are four bytes each and never read otherwise, so they are not
fields of the model.
-/

namespace Cascoin

/-- `uint256`, by its value as `arith_uint256`. -/
structure Uint256 where
  /-- The number the 32 little-endian bytes store. -/
  toNat : Nat
  /-- A hash has 256 bits. -/
  toNat_lt : toNat < 2 ^ 256
  deriving DecidableEq

namespace Uint256

/-- The all-zero hash. -/
def zero : Uint256 := ⟨0, by decide⟩

/-- `uint256::IsNull`. -/
def IsNull (h : Uint256) : Bool := h.toNat == 0

end Uint256

/-- `COIN`, scaled by the 10:1 coin swap. Amounts (`CAmount`) are integers. -/
def COIN : Int := 100000000 / 10

/-- `MAX_MONEY`. -/
def MAX_MONEY : Int := 84000000 * COIN

/-- `MoneyRange`. -/
def MoneyRange (nValue : Int) : Bool := 0 ≤ nValue ∧ nValue ≤ MAX_MONEY

/-- `COutPoint`. -/
structure COutPoint where
  hash : Uint256
  n : UInt32
  deriving DecidableEq

/-- `COutPoint::IsNull`: the null hash and index `(uint32_t) -1`. -/
def COutPoint.IsNull (o : COutPoint) : Bool := o.hash.IsNull && o.n == 0xffffffff

/-- `CTxIn`. -/
structure CTxIn where
  prevout : COutPoint
  scriptSig : CScript
  deriving DecidableEq

/-- `CTxOut`. -/
structure CTxOut where
  nValue : Int
  scriptPubKey : CScript
  deriving DecidableEq

/-- `CTxOut::IsNull`: the value `-1` that `SetNull` gives. -/
def CTxOut.IsNull (out : CTxOut) : Bool := out.nValue == -1

/-- `CTransaction`. -/
structure CTransaction where
  vin : List CTxIn
  vout : List CTxOut
  deriving DecidableEq

/-- `CTransaction::IsCoinBase`. -/
def CTransaction.IsCoinBase (tx : CTransaction) : Bool :=
  match tx.vin with
  | [txin] => txin.prevout.IsNull
  | _ => false

/-- `GetSizeOfCompactSize`. -/
def GetSizeOfCompactSize (nSize : Nat) : Nat :=
  if nSize < 253 then 1
  else if nSize ≤ 0xffff then 3
  else if nSize ≤ 0xffffffff then 5
  else 9

/-- `WriteCompactSize`. -/
def WriteCompactSize (nSize : Nat) : List UInt8 :=
  if nSize < 253 then [UInt8.ofNat nSize]
  else if nSize ≤ 0xffff then 253 :: Bytes.leBytes nSize 2
  else if nSize ≤ 0xffffffff then 254 :: Bytes.leBytes nSize 4
  else 255 :: Bytes.leBytes nSize 8

/-- Serialisation of a `std::string` or byte vector: its compact size, then its bytes. -/
def serializeBytes (b : List UInt8) : List UInt8 := WriteCompactSize b.length ++ b

/-- Serialised size of a byte vector: its compact size and its bytes. -/
def sizeOfBytes (b : List UInt8) : Nat := GetSizeOfCompactSize b.length + b.length

/-- Serialised size of a `CTxIn`: outpoint, script and sequence. -/
def CTxIn.serializeSize (txin : CTxIn) : Nat := 36 + sizeOfBytes txin.scriptSig + 4

/-- Serialised size of a `CTxOut`: value and script. -/
def CTxOut.serializeSize (txout : CTxOut) : Nat := 8 + sizeOfBytes txout.scriptPubKey

/-- `GetSerializeSize(tx, SER_NETWORK, PROTOCOL_VERSION | SERIALIZE_TRANSACTION_NO_WITNESS)`:
version, inputs, outputs and lock time. -/
def CTransaction.GetSerializeSize (tx : CTransaction) : Nat :=
  4 + GetSizeOfCompactSize tx.vin.length + (tx.vin.map CTxIn.serializeSize).sum +
    GetSizeOfCompactSize tx.vout.length + (tx.vout.map CTxOut.serializeSize).sum + 4

/-- `CTransaction::IsBCT(consensusParams, scriptPubKeyBCF, &beeFeePaid, &scriptPubKeyHoney)`:
the fee `vout[0]` pays and the honey script it carries, when it is a bee creation
script. The output is read without a check that it exists. -/
def CTransaction.IsBCTFee {ε : Type} (tx : CTransaction) (scriptPubKeyBCF : CScript) :
    Checked ε (Option (Int × CScript)) := do
  let out ← Checked.get tx.vout 0
  return (← IsBCTScript out.scriptPubKey scriptPubKeyBCF).map fun honey => (out.nValue, honey)

/-- A fee and honey script come from a first output with a bee creation script. -/
theorem CTransaction.IsBCTFee_eq_some {ε : Type} {tx : CTransaction} {scriptPubKeyBCF : CScript}
    {fee : Int} {honey : CScript}
    (h : (tx.IsBCTFee scriptPubKeyBCF : Checked ε _) = .ok (some (fee, honey))) :
    ∃ out0 rest, tx.vout = out0 :: rest ∧ fee = out0.nValue ∧
      (IsBCTScript out0.scriptPubKey scriptPubKeyBCF : Checked ε _) = .ok (some honey) := by
  unfold CTransaction.IsBCTFee at h
  cases hv : tx.vout with
  | nil => simp [hv, Checked.get] at h
  | cons out0 rest =>
    simp only [hv, Checked.get_of_lt (by simp : 0 < (out0 :: rest).length), Checked.ok_bind,
      List.getElem_cons_zero] at h
    cases hs : (IsBCTScript out0.scriptPubKey scriptPubKeyBCF : Checked ε _) with
    | error e => simp [hs] at h
    | ok r =>
      cases r with
      | none => simp [hs] at h
      | some honey' =>
        simp only [hs, Checked.ok_bind, Option.map_some] at h
        obtain ⟨rfl, rfl⟩ := h
        exact ⟨out0, rest, rfl, rfl, hs⟩

/-- `IsBCT` called without the fee and honey outputs. -/
def CTransaction.IsBCT {ε : Type} (tx : CTransaction) (scriptPubKeyBCF : CScript) :
    Checked ε Bool := do
  return (← tx.IsBCTFee scriptPubKeyBCF).isSome

end Cascoin
