import Cascoin.Core.Bytes

/-!
# Scripts

A `CScript` is its byte string. The opcodes are the byte values of
`script/script.h` that the modelled code compares with, and `pushOpcode` and
`pushData` are `CScript::operator<<` for an opcode and for a byte vector: a
data push is its length prefix (one byte below `OP_PUSHDATA1`, then
`OP_PUSHDATA1`/`2`/`4` with a 1, 2 or 4 byte length) followed by the data.

`IsBCTScript` recognises the bee creation script in either of its two formats
and returns the honey script it carries.
-/

namespace Cascoin

/-- `CScript`: the bytes of a script. -/
abbrev CScript := List UInt8

/-- `OP_0`, also `OP_FALSE`. -/
def OP_0 : UInt8 := 0x00
/-- `OP_FALSE`. -/
def OP_FALSE : UInt8 := OP_0
/-- `OP_PUSHDATA1`. -/
def OP_PUSHDATA1 : UInt8 := 0x4c
/-- `OP_PUSHDATA2`. -/
def OP_PUSHDATA2 : UInt8 := 0x4d
/-- `OP_PUSHDATA4`. -/
def OP_PUSHDATA4 : UInt8 := 0x4e
/-- `OP_1`, also `OP_TRUE`. -/
def OP_TRUE : UInt8 := 0x51
/-- `OP_RETURN`. -/
def OP_RETURN : UInt8 := 0x6a
/-- `OP_DUP`. -/
def OP_DUP : UInt8 := 0x76
/-- `OP_EQUAL`. -/
def OP_EQUAL : UInt8 := 0x87
/-- `OP_EQUALVERIFY`. -/
def OP_EQUALVERIFY : UInt8 := 0x88
/-- `OP_HASH160`. -/
def OP_HASH160 : UInt8 := 0xa9
/-- `OP_CHECKSIG`. -/
def OP_CHECKSIG : UInt8 := 0xac
/-- `OP_BEE`, the Hive marker. -/
def OP_BEE : UInt8 := 0xbe
/-- `OP_NICK_CREATE`, the Rialto nick registration marker. -/
def OP_NICK_CREATE : UInt8 := 0xbf

/-- `script << opcode`. -/
def pushOpcode (script : CScript) (opcode : UInt8) : CScript := script ++ [opcode]

/-- The length prefix `script << b` writes before the bytes of `b`. -/
def pushPrefix (size : Nat) : List UInt8 :=
  if size < OP_PUSHDATA1.toNat then [UInt8.ofNat size]
  else if size ≤ 0xff then [OP_PUSHDATA1, UInt8.ofNat size]
  else if size ≤ 0xffff then OP_PUSHDATA2 :: Bytes.leBytes size 2
  else OP_PUSHDATA4 :: Bytes.leBytes size 4

/-- `script << b` for a byte vector `b`. -/
def pushData (script : CScript) (b : List UInt8) : CScript :=
  script ++ pushPrefix b.length ++ b

/-- A short push is one length byte followed by the data. -/
theorem pushPrefix_of_lt {size : Nat} (h : size < 0x4c) : pushPrefix size = [UInt8.ofNat size] := by
  simp [pushPrefix, OP_PUSHDATA1, h]

/-- A push of 76 to 255 bytes is `OP_PUSHDATA1` and a one-byte length. -/
theorem pushPrefix_of_pushdata1 {size : Nat} (h1 : 0x4c ≤ size) (h2 : size ≤ 0xff) :
    pushPrefix size = [OP_PUSHDATA1, UInt8.ofNat size] := by
  have hn : ¬ size < OP_PUSHDATA1.toNat := by simpa [OP_PUSHDATA1] using h1
  simp [pushPrefix, hn, h2]

/-- Every other push starts with a byte other than `OP_PUSHDATA1`: the length
itself below 76, `OP_PUSHDATA2` or `OP_PUSHDATA4` above 255. -/
theorem pushPrefix_head_ne {size : Nat} (h : ¬ (0x4c ≤ size ∧ size ≤ 0xff)) :
    ∃ b rest, pushPrefix size = b :: rest ∧ b ≠ OP_PUSHDATA1 := by
  unfold pushPrefix
  split
  · rename_i hlt
    refine ⟨UInt8.ofNat size, [], rfl, fun he => ?_⟩
    have hlt' : size < 0x4c := by simpa [OP_PUSHDATA1] using hlt
    have hsize : (UInt8.ofNat size).toNat = size := by
      simp
      omega
    simp only [he, OP_PUSHDATA1, UInt8.reduceToNat] at hsize
    omega
  · rename_i hge
    split
    · rename_i hle
      have hge' : ¬ size < 0x4c := by simpa [OP_PUSHDATA1] using hge
      exact absurd ⟨by omega, hle⟩ h
    · split
      · exact ⟨OP_PUSHDATA2, _, rfl, by decide⟩
      · exact ⟨OP_PUSHDATA4, _, rfl, by decide⟩

/-- A push of 76 bytes or more has a header of one opcode and one, two or four
length bytes. -/
theorem pushPrefix_long {size : Nat} (h : 0x4c ≤ size) :
    ∃ opcode lengthBytes, pushPrefix size = opcode :: lengthBytes ∧
      (lengthBytes.length = 1 ∨ lengthBytes.length = 2 ∨ lengthBytes.length = 4) := by
  have hn : ¬ size < OP_PUSHDATA1.toNat := by simpa [OP_PUSHDATA1] using h
  unfold pushPrefix
  rw [if_neg hn]
  split
  · exact ⟨_, _, rfl, by simp⟩
  · split
    · exact ⟨_, _, rfl, by simp⟩
    · exact ⟨_, _, rfl, by simp⟩

@[simp] theorem length_pushOpcode (script : CScript) (opcode : UInt8) :
    (pushOpcode script opcode).length = script.length + 1 := by
  simp [pushOpcode]

theorem length_pushData_of_lt (script : CScript) {b : List UInt8} (h : b.length < 0x4c) :
    (pushData script b).length = script.length + 1 + b.length := by
  simp [pushData, pushPrefix_of_lt h]
  omega

/-- `ReadLE32(&v[i])`. -/
def readLE32 {ε : Type} (v : List UInt8) (i : Nat) : Checked ε UInt32 := do
  return UInt32.ofNat (← Bytes.readLE v i 4)

theorem readLE32_of_le {ε : Type} {v : List UInt8} {i : Nat} (h : i + 4 ≤ v.length) :
    (readLE32 v i : Checked ε UInt32) = .ok (UInt32.ofNat (Bytes.leValue ((v.drop i).take 4))) := by
  simp [readLE32, Bytes.readLE_of_le h]

/-- `CScript::IsBCTScript(scriptPubKey, scriptPubKeyBCF, &scriptPubKeyHoney)`: `none`
when the script is not a bee creation script, otherwise the honey script it
carries (empty when the simplified format has nothing after the marker). -/
def IsBCTScript {ε : Type} (scriptPubKey scriptPubKeyBCF : CScript) :
    Checked ε (Option CScript) := do
  -- Format 1: the fee script, `OP_RETURN OP_BEE`, then the honey script.
  let format1 : Checked ε (Option CScript) := do
    if scriptPubKey.length = 52 then
      if (← Checked.slice scriptPubKey 0 25) = scriptPubKeyBCF then
        if (← Checked.get scriptPubKey 25) = OP_RETURN then
          if (← Checked.get scriptPubKey 26) = OP_BEE then
            return some (← Checked.slice scriptPubKey 27 scriptPubKey.length)
    return none
  match ← format1 with
  | some honey => return some honey
  | none =>
    -- Format 2: a bare `OP_RETURN OP_BEE` marker.
    if 2 ≤ scriptPubKey.length then
      if (← Checked.get scriptPubKey 0) = OP_RETURN then
        if (← Checked.get scriptPubKey 1) = OP_BEE then
          if 2 < scriptPubKey.length then
            return some (← Checked.slice scriptPubKey 2 scriptPubKey.length)
          return some []
    return none

end Cascoin
