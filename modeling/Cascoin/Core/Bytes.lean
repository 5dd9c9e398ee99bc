import Cascoin.Core.Checked

/-!
# Little-endian byte codecs

`WriteLE16/32/64` store a number in its low `width` bytes, least significant
first; `ReadLE*` read them back. Here both are stated once for every width:
`leValue` is the number a byte string stands for, `leBytes n w` the `w`
bytes that store `n`, and `leValue_leBytes` the round trip. `readLE` is the
checked read of `w` bytes at an offset, the model of `ReadLE32(&v[i])`.

Text is a byte string too: `HexStr` writes two lowercase hex digits per byte,
and `HexDigit` is the value of one hex digit character.

The C++ conversions between `int` and `uint32_t` are Lean's `UInt32.ofInt`
(reduction modulo `2 ^ 32`) and `UInt32.toInt32` (the two's complement
reading); their values are stated last.
-/

namespace Bytes

/-- The number stored by a little-endian byte string. -/
def leValue : List UInt8 → Nat
  | [] => 0
  | b :: bs => b.toNat + 256 * leValue bs

/-- The `width` little-endian bytes storing `n` modulo `256 ^ width`. -/
def leBytes (n : Nat) : Nat → List UInt8
  | 0 => []
  | w + 1 => UInt8.ofNat (n % 256) :: leBytes (n / 256) w

@[simp] theorem leValue_nil : leValue [] = 0 := rfl

@[simp] theorem leValue_cons (b : UInt8) (bs : List UInt8) :
    leValue (b :: bs) = b.toNat + 256 * leValue bs := rfl

@[simp] theorem length_leBytes (n w : Nat) : (leBytes n w).length = w := by
  induction w generalizing n with
  | zero => rfl
  | succ w ih => simp [leBytes, ih]

theorem leValue_lt (bs : List UInt8) : leValue bs < 256 ^ bs.length := by
  induction bs with
  | nil => simp
  | cons b bs ih =>
    have hb : b.toNat < 256 := by simpa using b.toNat_lt
    rw [leValue_cons, List.length_cons, Nat.pow_succ]
    omega

/-- Reading back the stored bytes gives the number modulo the width. -/
theorem leValue_leBytes (n w : Nat) : leValue (leBytes n w) = n % 256 ^ w := by
  induction w generalizing n with
  | zero => simp [leBytes, Nat.mod_one]
  | succ w ih =>
    have hmod : (UInt8.ofNat (n % 256)).toNat = n % 256 := by simp
    rw [leBytes, leValue_cons, hmod, ih, Nat.pow_succ', Nat.mod_mul]

theorem leBytes_leValue (bs : List UInt8) : leBytes (leValue bs) bs.length = bs := by
  induction bs with
  | nil => rfl
  | cons b bs ih =>
    have hb : b.toNat < 256 := by simpa using b.toNat_lt
    have h1 : (b.toNat + 256 * leValue bs) % 256 = b.toNat := by omega
    have h2 : (b.toNat + 256 * leValue bs) / 256 = leValue bs := by omega
    simp only [List.length_cons, leBytes, leValue_cons, h1, h2, ih, UInt8.ofNat_toNat]

theorem leValue_append (a b : List UInt8) :
    leValue (a ++ b) = leValue a + 256 ^ a.length * leValue b := by
  induction a with
  | nil => simp
  | cons x a ih =>
    rw [List.cons_append, leValue_cons, leValue_cons, ih, List.length_cons, Nat.pow_succ]
    ring

theorem leValue_concat (bs : List UInt8) (b : UInt8) :
    leValue (bs ++ [b]) = leValue bs + 256 ^ bs.length * b.toNat := by
  rw [leValue_append, leValue_cons, leValue_nil, Nat.mul_zero, Nat.add_zero]

/-- A byte string stands for the number its bytes are the base-256 digits of. -/
theorem leValue_eq_ofDigits (bs : List UInt8) : leValue bs = Nat.ofDigits 256 (bs.map UInt8.toNat) := by
  induction bs with
  | nil => rfl
  | cons b bs ih => rw [leValue_cons, List.map_cons, Nat.ofDigits_cons, ih]

/-- The bytes of base-256 digits store the number the digits stand for. -/
theorem leValue_map_ofNat {ds : List Nat} (h : ∀ d ∈ ds, d < 256) :
    leValue (ds.map UInt8.ofNat) = Nat.ofDigits 256 ds := by
  induction ds with
  | nil => rfl
  | cons d ds ih =>
    rw [List.map_cons, leValue_cons, Nat.ofDigits_cons, ih (fun x hx => h x (by simp [hx])),
      UInt8.toNat_ofNat', Nat.mod_eq_of_lt (h d (by simp))]

/-! ### The top bit of a byte -/

theorem and_0x7f_toNat (b : UInt8) : (b &&& 0x7f).toNat = b.toNat % 0x80 := by
  rw [UInt8.toNat_and, show (0x7f : UInt8).toNat = 2 ^ 7 - 1 from rfl,
    Nat.and_two_pow_sub_one_eq_mod]

theorem and_0x80_eq_zero_iff (b : UInt8) : b &&& 0x80 = 0 ↔ b.toNat < 0x80 := by
  have hb : b.toNat < 256 := b.toNat_lt
  rw [← UInt8.toNat_inj, UInt8.toNat_and, show (0x80 : UInt8).toNat = 2 ^ 7 from rfl,
    Nat.and_two_pow, Nat.testBit_eq_decide_div_mod_eq]
  by_cases hx : b.toNat < 128
  · have hbit : b.toNat / 128 % 2 = 0 := by omega
    simp [hbit, hx]
  · have hbit : b.toNat / 128 % 2 = 1 := by omega
    simp [hbit, hx]

theorem or_0x80_toNat (b : UInt8) (h : b.toNat < 0x80) : (b ||| 0x80).toNat = b.toNat + 0x80 := by
  rw [UInt8.toNat_or, show (0x80 : UInt8).toNat = 2 ^ 7 * 1 from rfl, Nat.lor_comm,
    ← Nat.two_pow_add_eq_or_of_lt h]
  omega

/-- `ReadLE<8w>(&v[i])`: the `width` bytes from offset `i`, which must all exist. -/
def readLE {ε : Type} (xs : List UInt8) (i width : Nat) : Checked ε Nat := do
  let bs ← Checked.slice xs i (i + width)
  pure (leValue bs)

theorem readLE_of_le {ε : Type} {xs : List UInt8} {i width : Nat} (h : i + width ≤ xs.length) :
    (readLE xs i width : Checked ε Nat) = .ok (leValue ((xs.drop i).take width)) := by
  simp [readLE, Checked.slice_of_le (Nat.le_add_right i width) h]

/-- Reading the stored bytes of a number back at their own offset. -/
theorem readLE_append_leBytes {ε : Type} (pre post : List UInt8) (n w : Nat) :
    (readLE (pre ++ leBytes n w ++ post) pre.length w : Checked ε Nat) = .ok (n % 256 ^ w) := by
  rw [readLE_of_le (by simp)]
  simp [leValue_leBytes]

/-! ## Hex text -/

/-- The lowercase hex digit of a value below 16 (`hexmap` of `HexStr`). -/
def hexChar (v : Nat) : UInt8 :=
  if v < 10 then UInt8.ofNat (0x30 + v) else UInt8.ofNat (0x61 + v - 10)

/-- `HexStr`: two lowercase hex digits per byte, high nibble first. -/
def HexStr : List UInt8 → List UInt8
  | [] => []
  | b :: bs => hexChar (b.toNat / 16) :: hexChar (b.toNat % 16) :: HexStr bs

/-- `HexDigit`: the value of a hex digit character of either case, `none` (`-1`)
for any other byte. -/
def HexDigit (c : UInt8) : Option Nat :=
  if 0x30 ≤ c ∧ c ≤ 0x39 then some (c.toNat - 0x30)
  else if 0x61 ≤ c ∧ c ≤ 0x66 then some (c.toNat - 0x61 + 10)
  else if 0x41 ≤ c ∧ c ≤ 0x46 then some (c.toNat - 0x41 + 10)
  else none

@[simp] theorem length_HexStr (bs : List UInt8) : (HexStr bs).length = 2 * bs.length := by
  induction bs with
  | nil => rfl
  | cons b bs ih => simp [HexStr, ih]; omega

theorem hexChar_ne_zero (v : Nat) (h : v < 16) : hexChar v ≠ 0 := by
  unfold hexChar
  split <;> intro he <;> have := congrArg UInt8.toNat he <;>
    simp [UInt8.toNat_ofNat] at this <;> omega

/-- `HexStr` writes no NUL byte, so its text survives `c_str()`. -/
theorem zero_not_mem_HexStr (bs : List UInt8) : 0 ∉ HexStr bs := by
  induction bs with
  | nil => simp [HexStr]
  | cons b bs ih =>
    have hb : b.toNat < 256 := by simpa using b.toNat_lt
    simp only [HexStr, List.mem_cons, not_or]
    exact ⟨(hexChar_ne_zero _ (by omega)).symm, (hexChar_ne_zero _ (by omega)).symm, ih⟩

end Bytes

/-! ## C++ integer conversions -/

/-- `(uint32_t)i` of an `int`: its residue modulo `2 ^ 32`. -/
theorem toNat_uint32OfInt (i : Int) : (UInt32.ofInt i).toNat = (i % 2 ^ 32).toNat := by
  have h0 : 0 ≤ i % 2 ^ 32 := Int.emod_nonneg _ (by decide)
  have h1 : i % 2 ^ 32 < 2 ^ 32 := Int.emod_lt_of_pos _ (by decide)
  rw [UInt32.ofInt, UInt32.toNat_ofNat']
  omega

/-- `(int)c` of a `uint32_t`: values from `2 ^ 31` on turn negative. -/
theorem toInt_uint32ToInt32 (c : UInt32) :
    c.toInt32.toInt = if c.toNat < 2 ^ 31 then (c.toNat : Int) else c.toNat - 2 ^ 32 := by
  rw [← Int32.toInt_toBitVec, UInt32.toBitVec_toInt32, BitVec.toInt_eq_toNat_cond]
  simp only [UInt32.toNat_toBitVec]
  split <;> split <;> omega

/-- `(int)(uint32_t)x` of a height: the height itself. -/
theorem toInt_toInt32_uint32OfInt {x : Int} (h0 : 0 ≤ x) (h1 : x < 2 ^ 31) :
    (UInt32.ofInt x).toInt32.toInt = x := by
  rw [toInt_uint32ToInt32, toNat_uint32OfInt, Int.emod_eq_of_lt h0 (by omega), if_pos (by omega)]
  omega

/-- `int - uint32_t` stored into an `int`, of two heights: their difference. -/
theorem toInt_toInt32_uint32OfInt_sub {a b : Int} (hb : 0 ≤ b) (hba : b ≤ a) (ha : a < 2 ^ 31) :
    (UInt32.ofInt a - UInt32.ofInt b).toInt32.toInt = a - b := by
  have hle : UInt32.ofInt b ≤ UInt32.ofInt a := by
    rw [UInt32.le_iff_toNat_le, toNat_uint32OfInt, toNat_uint32OfInt,
      Int.emod_eq_of_lt hb (by omega), Int.emod_eq_of_lt (by omega) (by omega)]
    omega
  have hsub : (UInt32.ofInt a - UInt32.ofInt b).toNat = (a - b).toNat := by
    rw [UInt32.toNat_sub_of_le _ _ hle, toNat_uint32OfInt, toNat_uint32OfInt,
      Int.emod_eq_of_lt hb (by omega), Int.emod_eq_of_lt (by omega) (by omega)]
    omega
  rw [toInt_uint32ToInt32, hsub, if_pos (by omega)]
  omega

/-- `uint32_t` values of numbers in range compare as the numbers. -/
theorem uint32OfInt_lt_iff {a b : Int} (ha : 0 ≤ a ∧ a < 2 ^ 32) (hb : 0 ≤ b ∧ b < 2 ^ 32) :
    UInt32.ofInt a < UInt32.ofInt b ↔ a < b := by
  rw [UInt32.lt_iff_toNat_lt, toNat_uint32OfInt, toNat_uint32OfInt,
    Int.emod_eq_of_lt ha.1 ha.2, Int.emod_eq_of_lt hb.1 hb.2]
  omega
