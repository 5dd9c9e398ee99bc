import Cascoin.Core.Checked

/-!
# The compact target encoding

`arith_uint256::SetCompact` and `GetCompact` on the value of the 256-bit
number. A compact word is an exponent byte `nSize` and a 23-bit mantissa with
a sign bit: the value is the mantissa shifted by `8 * (nSize - 3)` bits, cut
to 256 bits as `operator<<=` cuts it. The two `assert`s of `GetCompact` are
checked steps.

What the encoding keeps is stated on bytes (`keepTopBytes`, `compactKeptBytes`):
the three most significant bytes of the number, or two when the top one has the
bit the word uses for the sign. For every 256-bit number `GetCompact` passes its
`assert`s (`GetCompact_eq_ok`), `SetCompact` reads its word back as the kept bytes
with neither flag (`SetCompact_of_GetCompact`), and encoding that target gives the
same word (`GetCompact_keepTopBytes`).
-/

namespace Cascoin

/-- `arith_uint256::SetCompact(nCompact, &fNegative, &fOverflow)`: the value and the
two flags. The flags read the mantissa after its shift. -/
def SetCompact (nCompact : UInt32) : Nat × Bool × Bool :=
  let nSize := nCompact.toNat >>> 24
  let nWord := nCompact.toNat &&& 0x007fffff
  let nWord := if nSize ≤ 3 then nWord >>> (8 * (3 - nSize)) else nWord
  let value := if nSize ≤ 3 then nWord else (nWord <<< (8 * (nSize - 3))) % 2 ^ 256
  let fNegative := nWord != 0 && nCompact.toNat &&& 0x00800000 != 0
  let fOverflow := nWord != 0 &&
    (decide (nSize > 34) || (decide (nWord > 0xff) && decide (nSize > 33)) ||
      (decide (nWord > 0xffff) && decide (nSize > 32)))
  (value, fNegative, fOverflow)

/-- `base_uint::bits`: the position of the highest set bit, plus one. -/
def bits (x : Nat) : Nat := if x = 0 then 0 else x.log2 + 1

/-- `arith_uint256::GetCompact(fNegative)`. -/
def GetCompact {ε : Type} (x : Nat) (fNegative : Bool) : Checked ε UInt32 := do
  let nSize := (bits x + 7) / 8
  -- `GetLow64()` of the value, or of the value shifted down, kept to 32 bits
  let nCompact :=
    if nSize ≤ 3 then ((x % 2 ^ 64) <<< (8 * (3 - nSize))) % 2 ^ 32
    else ((x >>> (8 * (nSize - 3))) % 2 ^ 64) % 2 ^ 32
  -- the sign bit is set: move the mantissa down a byte
  let (nCompact, nSize) :=
    if nCompact &&& 0x00800000 != 0 then (nCompact >>> 8, nSize + 1) else (nCompact, nSize)
  Checked.assert (nCompact < 2 ^ 23)
  Checked.assert (nSize < 256)
  let nCompact := nCompact ||| (nSize <<< 24)
  let nCompact :=
    nCompact ||| (if fNegative && nCompact &&& 0x007fffff != 0 then 0x00800000 else 0)
  return UInt32.ofNat nCompact

theorem SetCompact_value_lt (nCompact : UInt32) : (SetCompact nCompact).1 < 2 ^ 256 := by
  simp only [SetCompact]
  split
  · have h : nCompact.toNat &&& 0x007fffff ≤ 0x007fffff := Nat.and_le_right
    rw [Nat.shiftRight_eq_div_pow]
    exact lt_of_le_of_lt (Nat.div_le_self _ _) (by omega)
  · exact Nat.mod_lt _ (Nat.two_pow_pos 256)

/-! ## Byte lengths

What the encoding is for, stated without its shifts: `keepTopBytes x k` clears
every byte of `x` below its `k` most significant ones. -/

/-- The number of bytes of `x`: the least `n` with `x < 256 ^ n`. -/
def byteLength (x : Nat) : Nat := (x.size + 7) / 8

/-- `x` with every byte below its `k` most significant ones cleared. -/
def keepTopBytes (x k : Nat) : Nat := x / 256 ^ (byteLength x - k) * 256 ^ (byteLength x - k)

/-- The bytes the compact encoding keeps: three, or two when the most significant
byte has its top bit set, the bit the encoding gives the sign. -/
def compactKeptBytes (x : Nat) : Nat :=
  if 0x80 ≤ x / 256 ^ (byteLength x - 1) then 2 else 3

theorem two_pow_eight_mul (m : Nat) : 2 ^ (8 * m) = 256 ^ m := by
  rw [pow_mul]
  norm_num

/-- `base_uint::bits` is the bit length. -/
theorem bits_eq_size (x : Nat) : bits x = x.size := by
  unfold bits
  split
  · subst x
    simp
  · rename_i hx
    apply le_antisymm
    · have hlt : x.log2 < x.size := Nat.lt_size.mpr (Nat.log2_self_le hx)
      omega
    · exact Nat.size_le.mpr Nat.lt_log2_self

theorem byteLength_bounds {x : Nat} (hx : x ≠ 0) :
    256 ^ (byteLength x - 1) ≤ x ∧ x < 256 ^ byteLength x := by
  have hsize : 0 < x.size := Nat.size_pos.mpr (Nat.pos_of_ne_zero hx)
  have hlo : 2 ^ (x.size - 1) ≤ x := Nat.lt_size.mp (by omega)
  constructor
  · calc 256 ^ (byteLength x - 1) = 2 ^ (8 * (byteLength x - 1)) := (two_pow_eight_mul _).symm
      _ ≤ 2 ^ (x.size - 1) := Nat.pow_le_pow_right (by decide) (by unfold byteLength; omega)
      _ ≤ x := hlo
  · calc x < 2 ^ x.size := Nat.lt_size_self x
      _ ≤ 2 ^ (8 * byteLength x) := Nat.pow_le_pow_right (by decide) (by unfold byteLength; omega)
      _ = 256 ^ byteLength x := two_pow_eight_mul _

theorem byteLength_eq_of_bounds {y n : Nat} (hn : 0 < n) (hlo : 256 ^ (n - 1) ≤ y)
    (hhi : y < 256 ^ n) : byteLength y = n := by
  have h1 : y.size ≤ 8 * n := Nat.size_le.mpr (by rwa [two_pow_eight_mul])
  have h2 : 8 * (n - 1) < y.size := Nat.lt_size.mpr (by rwa [two_pow_eight_mul])
  unfold byteLength
  omega

theorem byteLength_le {x : Nat} (hx : x < 2 ^ 256) : byteLength x ≤ 32 := by
  have h : x.size ≤ 256 := Nat.size_le.mpr hx
  unfold byteLength
  omega

theorem byteLength_pos {x : Nat} (hx : x ≠ 0) : 0 < byteLength x := by
  have hsize : 0 < x.size := Nat.size_pos.mpr (Nat.pos_of_ne_zero hx)
  unfold byteLength
  omega

/-- Cutting the low `t` digits, then `s ≥ t`, is cutting the low `s`. -/
theorem div_pow_mul_pow_div {b : Nat} (x : Nat) {t s : Nat} (hb : 0 < b) (h : t ≤ s) :
    x / b ^ t * b ^ t / b ^ s = x / b ^ s := by
  obtain ⟨d, rfl⟩ := Nat.exists_eq_add_of_le h
  rw [pow_add, Nat.mul_comm (b ^ t) (b ^ d), Nat.mul_div_mul_right _ _ (pow_pos hb t),
    Nat.div_div_eq_div_mul, Nat.mul_comm]

/-- Scaling by `256 ^ a` and cutting `b` bytes. -/
theorem mul_pow_div_pow (x : Nat) {a b : Nat} :
    x * 256 ^ a / 256 ^ b = if b ≤ a then x * 256 ^ (a - b) else x / 256 ^ (b - a) := by
  split
  · rename_i h
    rw [show a = (a - b) + b by omega, pow_add, ← Nat.mul_assoc,
      Nat.mul_div_cancel _ (pow_pos (by decide) b), Nat.add_sub_cancel]
  · rename_i h
    rw [show b = a + (b - a) by omega, pow_add, Nat.mul_comm x, Nat.mul_div_mul_left _ _
      (pow_pos (by decide) a), Nat.add_sub_cancel_left]

section Keep

variable {x k : Nat}

theorem keepTopBytes_le : keepTopBytes x k ≤ x := Nat.div_mul_le_self _ _

theorem keepTopBytes_of_le (h : byteLength x ≤ k) : keepTopBytes x k = x := by
  simp [keepTopBytes, Nat.sub_eq_zero_of_le h]

/-- Cutting at `t` bytes or more ignores the bytes `keepTopBytes` cleared. -/
theorem keepTopBytes_div (h : byteLength x - k ≤ t) :
    keepTopBytes x k / 256 ^ t = x / 256 ^ t :=
  div_pow_mul_pow_div x (by decide) h

/-- Keeping at least one byte keeps the most significant one, and so the length. -/
theorem byteLength_keepTopBytes (hx : x ≠ 0) (hk : 0 < k) :
    byteLength (keepTopBytes x k) = byteLength x := by
  obtain ⟨hlo, hhi⟩ := byteLength_bounds hx
  have hdvd : 256 ^ (byteLength x - k) ∣ 256 ^ (byteLength x - 1) :=
    Nat.pow_dvd_pow _ (by omega)
  have hkeep : 256 ^ (byteLength x - 1) ≤ keepTopBytes x k := by
    calc 256 ^ (byteLength x - 1)
        = 256 ^ (byteLength x - 1) / 256 ^ (byteLength x - k) * 256 ^ (byteLength x - k) :=
          (Nat.div_mul_cancel hdvd).symm
      _ ≤ keepTopBytes x k := Nat.mul_le_mul_right _ (Nat.div_le_div_right hlo)
  exact byteLength_eq_of_bounds (byteLength_pos hx) hkeep (lt_of_le_of_lt keepTopBytes_le hhi)

theorem keepTopBytes_pos (hx : x ≠ 0) (hk : 0 < k) : 0 < keepTopBytes x k := by
  have hlen := byteLength_keepTopBytes hx hk
  have hpos := byteLength_pos hx
  have hzero : byteLength 0 = 0 := by simp [byteLength]
  by_contra h
  rw [Nat.eq_zero_of_not_pos h, hzero] at hlen
  omega

end Keep

/-! ## The compact word of a number

`GetCompact` writes the kept bytes as a mantissa at the top of three bytes, and
the byte count of the number (one more when only two bytes are kept). -/

/-- The mantissa `GetCompact` writes: the kept bytes of `x`, at the top of three bytes. -/
def compactMantissa (x : Nat) : Nat := x * 256 ^ compactKeptBytes x / 256 ^ byteLength x

/-- The size byte `GetCompact` writes. -/
def compactSize (x : Nat) : Nat := byteLength x + 3 - compactKeptBytes x

section CompactWord

variable {x : Nat}

theorem compactKeptBytes_cases (x : Nat) : compactKeptBytes x = 2 ∨ compactKeptBytes x = 3 := by
  unfold compactKeptBytes
  split <;> simp

/-- Without its sign bit set, the top byte leaves the mantissa below the sign bit. -/
theorem compactMantissa_lt (x : Nat) : compactMantissa x < 2 ^ 23 := by
  by_cases hx : x = 0
  · subst x
    simp [compactMantissa]
  obtain ⟨hlo, hhi⟩ := byteLength_bounds hx
  have hn := byteLength_pos hx
  have hpow : 256 ^ byteLength x = 256 ^ (byteLength x - 1) * 256 := by
    rw [← pow_succ, Nat.sub_add_cancel hn]
  unfold compactMantissa
  rw [Nat.div_lt_iff_lt_mul (pow_pos (by decide) _)]
  unfold compactKeptBytes
  split
  · calc x * 256 ^ 2 < 256 ^ byteLength x * 256 ^ 2 :=
          Nat.mul_lt_mul_of_pos_right hhi (by decide)
      _ ≤ 2 ^ 23 * 256 ^ byteLength x := by rw [Nat.mul_comm]; exact Nat.mul_le_mul_right _ (by decide)
  · rename_i htop
    have hx' : x < 0x80 * 256 ^ (byteLength x - 1) :=
      (Nat.div_lt_iff_lt_mul (pow_pos (by decide) _)).mp (Nat.lt_of_not_le htop)
    calc x * 256 ^ 3 < 0x80 * 256 ^ (byteLength x - 1) * 256 ^ 3 :=
          Nat.mul_lt_mul_of_pos_right hx' (by decide)
      _ = 2 ^ 23 * 256 ^ byteLength x := by rw [hpow]; ring

/-- With two bytes kept, the mantissa has two bytes. -/
theorem compactMantissa_lt_of_two (h : compactKeptBytes x = 2) : compactMantissa x < 2 ^ 16 := by
  by_cases hx : x = 0
  · subst x
    simp [compactMantissa]
  have hhi := (byteLength_bounds hx).2
  unfold compactMantissa
  rw [h, Nat.div_lt_iff_lt_mul (pow_pos (by decide) _)]
  calc x * 256 ^ 2 < 256 ^ byteLength x * 256 ^ 2 := Nat.mul_lt_mul_of_pos_right hhi (by decide)
    _ = 2 ^ 16 * 256 ^ byteLength x := by ring

/-- The size byte of a 256-bit number is at most 33, and 33 only with a two-byte mantissa. -/
theorem compactSize_le (hx : x < 2 ^ 256) :
    compactSize x ≤ 32 ∨ compactSize x = 33 ∧ compactMantissa x < 2 ^ 16 := by
  have hn := byteLength_le hx
  unfold compactSize
  rcases compactKeptBytes_cases x with h2 | h3
  · by_cases h32 : byteLength x = 32
    · exact .inr ⟨by omega, compactMantissa_lt_of_two h2⟩
    · exact .inl (by omega)
  · exact .inl (by omega)

/-- The mantissa at the size byte's position is `x` with the bytes below the kept
ones cleared. -/
theorem compactMantissa_value (x : Nat) :
    compactMantissa x * 256 ^ compactSize x / 256 ^ 3 = keepTopBytes x (compactKeptBytes x) := by
  have hk := compactKeptBytes_cases x
  unfold compactMantissa compactSize keepTopBytes
  rw [mul_pow_div_pow x, mul_pow_div_pow]
  by_cases hle : byteLength x ≤ compactKeptBytes x
  · -- the whole number fits in the kept bytes: it is shifted up and back down
    have hzero : byteLength x - compactKeptBytes x = 0 := by omega
    rw [if_pos hle, hzero]
    split
    · rename_i h3
      rw [show byteLength x + 3 - compactKeptBytes x - 3 = 0 by omega,
        show compactKeptBytes x - byteLength x = 0 by omega]
      simp
    · rw [show 3 - (byteLength x + 3 - compactKeptBytes x) =
          compactKeptBytes x - byteLength x by omega,
        Nat.mul_div_cancel _ (pow_pos (by decide) _)]
      simp
  · rw [if_neg hle, if_pos (by omega),
      show byteLength x + 3 - compactKeptBytes x - 3 = byteLength x - compactKeptBytes x by omega]

/-- The kept bytes depend on the length and the most significant byte only. -/
theorem compactKeptBytes_congr {y : Nat} (hlen : byteLength y = byteLength x)
    (htop : y / 256 ^ (byteLength x - 1) = x / 256 ^ (byteLength x - 1)) :
    compactKeptBytes y = compactKeptBytes x := by
  unfold compactKeptBytes
  rw [hlen, htop]

/-- The kept bytes of `x` are kept again. -/
theorem compactKeptBytes_keepTopBytes (x : Nat) :
    compactKeptBytes (keepTopBytes x (compactKeptBytes x)) = compactKeptBytes x := by
  by_cases hx : x = 0
  · subst x
    simp [keepTopBytes]
  have hk := compactKeptBytes_cases x
  have hlen := byteLength_keepTopBytes hx (show 0 < compactKeptBytes x by omega)
  have htop := keepTopBytes_div (x := x) (k := compactKeptBytes x)
    (t := byteLength x - 1) (by omega)
  exact compactKeptBytes_congr hlen htop

/-- Truncating `x` to its kept bytes does not change its compact word. -/
theorem compactMantissa_keepTopBytes (x : Nat) :
    compactMantissa (keepTopBytes x (compactKeptBytes x)) = compactMantissa x ∧
      compactSize (keepTopBytes x (compactKeptBytes x)) = compactSize x := by
  by_cases hx : x = 0
  · subst x
    simp [keepTopBytes]
  have hk := compactKeptBytes_cases x
  have hlen := byteLength_keepTopBytes hx (show 0 < compactKeptBytes x by omega)
  have hkept := compactKeptBytes_keepTopBytes x
  refine ⟨?_, by rw [compactSize, compactSize, hlen, hkept]⟩
  unfold compactMantissa
  rw [hlen, hkept, mul_pow_div_pow, mul_pow_div_pow x]
  split
  · rw [keepTopBytes_of_le (by omega)]
  · exact keepTopBytes_div le_rfl

end CompactWord

/-! ## Shifts and masks of the compact word -/

theorem lt_pow_byteLength (x : Nat) : x < 256 ^ byteLength x := by
  by_cases hx : x = 0
  · subst x
    simp
  · exact (byteLength_bounds hx).2

/-- The first `nCompact` of `GetCompact`: the top three bytes of the number. -/
theorem compact_window {x : Nat} :
    (if byteLength x ≤ 3 then (x % 2 ^ 64) <<< (8 * (3 - byteLength x)) % 2 ^ 32
      else x >>> (8 * (byteLength x - 3)) % 2 ^ 64 % 2 ^ 32) =
      x * 256 ^ 3 / 256 ^ byteLength x := by
  have hhi := lt_pow_byteLength x
  rw [mul_pow_div_pow]
  split
  · rename_i hle
    have hpow : 256 ^ byteLength x ≤ 2 ^ 24 :=
      (Nat.pow_le_pow_right (by decide) hle).trans (by norm_num)
    have hprod : x * 256 ^ (3 - byteLength x) < 2 ^ 24 := by
      calc x * 256 ^ (3 - byteLength x) < 256 ^ byteLength x * 256 ^ (3 - byteLength x) :=
            Nat.mul_lt_mul_of_pos_right hhi (pow_pos (by decide) _)
        _ = 2 ^ 24 := by rw [← pow_add, Nat.add_sub_cancel' hle]; norm_num
    rw [Nat.mod_eq_of_lt (show x < 2 ^ 64 by omega), Nat.shiftLeft_eq, two_pow_eight_mul,
      Nat.mod_eq_of_lt (show x * 256 ^ (3 - byteLength x) < 2 ^ 32 by omega)]
  · rename_i hgt
    have hquot : x / 256 ^ (byteLength x - 3) < 2 ^ 24 := by
      rw [Nat.div_lt_iff_lt_mul (pow_pos (by decide) _)]
      calc x < 256 ^ byteLength x := hhi
        _ = 2 ^ 24 * 256 ^ (byteLength x - 3) := by
          rw [show byteLength x = 3 + (byteLength x - 3) by omega, pow_add,
            Nat.add_sub_cancel_left]
          norm_num
    rw [Nat.shiftRight_eq_div_pow, two_pow_eight_mul,
      Nat.mod_eq_of_lt (show x / 256 ^ (byteLength x - 3) < 2 ^ 64 by omega),
      Nat.mod_eq_of_lt (show x / 256 ^ (byteLength x - 3) < 2 ^ 32 by omega)]

/-- `nCompact & 0x00800000` of a three-byte word tests its top bit. -/
theorem sign_bit_ne_zero {w : Nat} (hw : w < 2 ^ 24) :
    (w &&& 0x00800000 != 0) = decide (2 ^ 23 ≤ w) := by
  rw [show (0x00800000 : Nat) = 2 ^ 23 by norm_num, Nat.and_two_pow,
    Nat.testBit_eq_decide_div_mod_eq]
  by_cases h : 2 ^ 23 ≤ w
  · have hdiv : w / 8388608 = 1 := by omega
    simp [hdiv]
    omega
  · have hdiv : w / 8388608 = 0 := by omega
    simp [hdiv]
    omega

/-- The top byte of the window is the most significant byte of the number, so the
sign bit is set exactly when two bytes are kept. -/
theorem compactKeptBytes_eq_two_iff (x : Nat) :
    compactKeptBytes x = 2 ↔ 2 ^ 23 ≤ x * 256 ^ 3 / 256 ^ byteLength x := by
  by_cases hx : x = 0
  · subst x
    simp [compactKeptBytes]
  have hn := byteLength_pos hx
  have htop : x * 256 ^ 3 / 256 ^ byteLength x / 256 ^ 2 = x / 256 ^ (byteLength x - 1) := by
    rw [Nat.div_div_eq_div_mul, ← pow_add, mul_pow_div_pow]
    split
    · rw [show byteLength x - 1 = 0 by omega, show 3 - (byteLength x + 2) = 0 by omega]
      simp
    · rw [show byteLength x + 2 - 3 = byteLength x - 1 by omega]
  have hsign : 2 ^ 23 ≤ x * 256 ^ 3 / 256 ^ byteLength x ↔
      0x80 ≤ x * 256 ^ 3 / 256 ^ byteLength x / 256 ^ 2 := by
    rw [Nat.le_div_iff_mul_le (k := 256 ^ 2) (by norm_num)]
    norm_num
  rw [hsign, htop]
  unfold compactKeptBytes
  split <;> simp_all

theorem or_shiftLeft_eq_add {M : Nat} (S : Nat) (hM : M < 2 ^ 24) :
    M ||| S <<< 24 = M + S * 2 ^ 24 := by
  rw [Nat.lor_comm, ← Nat.shiftLeft_add_eq_or_of_lt hM, Nat.shiftLeft_eq]
  ring

/-! ## Encoder and decoder -/

/-- `GetCompact` of a 256-bit number passes its `assert`s and writes the compact
word of the number. -/
theorem GetCompact_eq_ok {ε : Type} {x : Nat} (hx : x < 2 ^ 256) :
    (GetCompact x false : Checked ε UInt32) =
      .ok (UInt32.ofNat (compactMantissa x + compactSize x * 2 ^ 24)) := by
  have hn : (bits x + 7) / 8 = byteLength x := by rw [bits_eq_size]; rfl
  have hwlt : x * 256 ^ 3 / 256 ^ byteLength x < 2 ^ 24 := by
    rw [Nat.div_lt_iff_lt_mul (pow_pos (by decide) _)]
    calc x * 256 ^ 3 < 256 ^ byteLength x * 256 ^ 3 :=
          Nat.mul_lt_mul_of_pos_right (lt_pow_byteLength x) (by decide)
      _ = 2 ^ 24 * 256 ^ byteLength x := by ring
  have hM := compactMantissa_lt x
  have hS : compactSize x < 256 := by rcases compactSize_le hx with h | h <;> omega
  simp only [GetCompact, hn, compact_window, sign_bit_ne_zero hwlt]
  rcases compactKeptBytes_cases x with h2 | h3
  · -- the sign bit is set: the mantissa moves down a byte and the size up
    have hsign : 2 ^ 23 ≤ x * 256 ^ 3 / 256 ^ byteLength x := (compactKeptBytes_eq_two_iff x).mp h2
    have hshift : (x * 256 ^ 3 / 256 ^ byteLength x) >>> 8 = compactMantissa x := by
      rw [Nat.shiftRight_eq_div_pow, Nat.div_div_eq_div_mul, compactMantissa, h2,
        show x * 256 ^ 3 = x * 256 ^ 2 * 2 ^ 8 by ring,
        Nat.mul_div_mul_right _ _ (show 0 < 2 ^ 8 by decide)]
    have hsize : byteLength x + 1 = compactSize x := by unfold compactSize; omega
    simp only [hsign, decide_true, if_true]
    rw [hshift, hsize]
    simp only [hM, hS, decide_true, Checked.assert_true, Checked.ok_bind, Bool.false_and,
      Bool.false_eq_true, if_false, Nat.or_zero,
      or_shiftLeft_eq_add _ (show compactMantissa x < 2 ^ 24 by omega)]
    rfl
  · have hsign : ¬ 2 ^ 23 ≤ x * 256 ^ 3 / 256 ^ byteLength x := by
      rw [← compactKeptBytes_eq_two_iff x]
      omega
    have hmant : x * 256 ^ 3 / 256 ^ byteLength x = compactMantissa x := by
      rw [compactMantissa, h3]
    have hsize : byteLength x = compactSize x := by unfold compactSize; omega
    simp only [hsign, decide_false, Bool.false_eq_true, if_false]
    rw [hmant, hsize]
    simp only [hM, hS, decide_true, Checked.assert_true, Checked.ok_bind, Bool.false_and,
      Bool.false_eq_true, if_false, Nat.or_zero,
      or_shiftLeft_eq_add _ (show compactMantissa x < 2 ^ 24 by omega)]
    rfl

/-- `SetCompact` reads back a word of mantissa `M` and size byte `S` that `GetCompact`
can write: its value, with neither flag. -/
theorem SetCompact_pack {M S : Nat} (hM : M < 2 ^ 23) (hS : S ≤ 32 ∨ S = 33 ∧ M < 2 ^ 16) :
    SetCompact (UInt32.ofNat (M + S * 2 ^ 24)) = (M * 256 ^ S / 256 ^ 3, false, false) := by
  have hc : (UInt32.ofNat (M + S * 2 ^ 24)).toNat = M + S * 2 ^ 24 := by
    rw [UInt32.toNat_ofNat', Nat.mod_eq_of_lt (by omega)]
  have hsize : (M + S * 2 ^ 24) >>> 24 = S := by
    rw [Nat.shiftRight_eq_div_pow]
    omega
  have hword : (M + S * 2 ^ 24) &&& 0x007fffff = M := by
    rw [show (0x007fffff : Nat) = 2 ^ 23 - 1 by norm_num, Nat.and_two_pow_sub_one_eq_mod]
    omega
  have hsign : (M + S * 2 ^ 24) &&& 0x00800000 = 0 := by
    rw [show (0x00800000 : Nat) = 2 ^ 23 by norm_num, Nat.and_two_pow,
      Nat.testBit_eq_decide_div_mod_eq]
    have hbit : (M + S * 16777216) / 8388608 % 2 = 0 := by omega
    simp [hbit]
  simp only [SetCompact, hc, hsize, hword, hsign]
  by_cases hS3 : S ≤ 3
  · -- a size of three bytes or fewer shifts the mantissa down
    have hv : M >>> (8 * (3 - S)) = M * 256 ^ S / 256 ^ 3 := by
      rw [Nat.shiftRight_eq_div_pow, two_pow_eight_mul, mul_pow_div_pow]
      split
      · rw [show S - 3 = 0 by omega, show 3 - S = 0 by omega]
        simp
      · rfl
    simp only [hS3, if_true, hv]
    refine Prod.ext rfl (Prod.ext ?_ ?_)
    · simp
    · simp
      omega
  · have hv : M <<< (8 * (S - 3)) % 2 ^ 256 = M * 256 ^ S / 256 ^ 3 := by
      rw [Nat.shiftLeft_eq, two_pow_eight_mul, mul_pow_div_pow, if_pos (by omega)]
      apply Nat.mod_eq_of_lt
      rcases hS with h32 | ⟨rfl, h16⟩
      · calc M * 256 ^ (S - 3) < 2 ^ 23 * 256 ^ 29 :=
              Nat.mul_lt_mul_of_lt_of_le hM (Nat.pow_le_pow_right (by decide) (by omega))
                (by positivity)
          _ ≤ 2 ^ 256 := by norm_num
      · calc M * 256 ^ (33 - 3) < 2 ^ 16 * 256 ^ 30 :=
              Nat.mul_lt_mul_of_pos_right h16 (by positivity)
          _ = 2 ^ 256 := by norm_num
    simp only [hS3, if_false, hv]
    refine Prod.ext rfl (Prod.ext ?_ ?_)
    · simp
    · simp
      omega

/-- The target of the word `GetCompact` writes is the number cut to its kept bytes. -/
theorem SetCompact_of_GetCompact {ε : Type} {x : Nat} {c : UInt32} (hx : x < 2 ^ 256)
    (h : (GetCompact x false : Checked ε UInt32) = .ok c) :
    SetCompact c = (keepTopBytes x (compactKeptBytes x), false, false) := by
  rw [GetCompact_eq_ok hx] at h
  cases h
  rw [SetCompact_pack (compactMantissa_lt x) (compactSize_le hx), compactMantissa_value]

/-- `GetCompact` does not see the bytes it drops. -/
theorem GetCompact_keepTopBytes {ε : Type} {x : Nat} (hx : x < 2 ^ 256) :
    (GetCompact (keepTopBytes x (compactKeptBytes x)) false : Checked ε UInt32) =
      GetCompact x false := by
  have hkeep : keepTopBytes x (compactKeptBytes x) < 2 ^ 256 := lt_of_le_of_lt keepTopBytes_le hx
  obtain ⟨hmant, hsize⟩ := compactMantissa_keepTopBytes x
  rw [GetCompact_eq_ok hkeep, GetCompact_eq_ok hx, hmant, hsize]

/-- The word `GetCompact` writes for a target at most `limit` stands for a target
at most `limit`. -/
theorem target_le_of_GetCompact {ε : Type} {t limit : Nat} {c : UInt32} (htl : t ≤ limit)
    (hlimit : limit < 2 ^ 256) (h : (GetCompact t false : Checked ε UInt32) = .ok c) :
    (SetCompact c).1 ≤ limit := by
  rw [SetCompact_of_GetCompact (lt_of_le_of_lt htl hlimit) h]
  exact keepTopBytes_le.trans htl

/-- The word `GetCompact` writes for a target in `(0, limit]` stands for a positive
target at most `limit`. -/
theorem target_of_GetCompact {ε : Type} {t limit : Nat} {c : UInt32} (ht : 0 < t)
    (htl : t ≤ limit) (hlimit : limit < 2 ^ 256)
    (h : (GetCompact t false : Checked ε UInt32) = .ok c) :
    0 < (SetCompact c).1 ∧ (SetCompact c).1 ≤ limit := by
  have hk := compactKeptBytes_cases t
  refine ⟨?_, target_le_of_GetCompact htl hlimit h⟩
  rw [SetCompact_of_GetCompact (lt_of_le_of_lt htl hlimit) h]
  exact keepTopBytes_pos (Nat.pos_iff_ne_zero.mp ht) (by omega)

/-- The compact encoding of a 256-bit number: `GetCompact` writes a word that
`SetCompact` reads as the number with its bytes below the kept ones cleared, with
neither flag, and that `GetCompact` writes again from that target. A retarget that
encodes a target in `(0, limit]` so gets a positive target at most `limit`. -/
theorem GetCompact_round_trip {ε : Type} :
    (∀ x, x < 2 ^ 256 → ∃ c, (GetCompact x false : Checked ε UInt32) = .ok c ∧
      SetCompact c = (keepTopBytes x (compactKeptBytes x), false, false) ∧
      keepTopBytes x (compactKeptBytes x) ≤ x ∧
      (GetCompact (SetCompact c).1 false : Checked ε UInt32) = .ok c) ∧
    (∀ t limit, 0 < t → t ≤ limit → limit < 2 ^ 256 →
      ∃ c, (GetCompact t false : Checked ε UInt32) = .ok c ∧
        0 < (SetCompact c).1 ∧ (SetCompact c).1 ≤ limit) := by
  refine ⟨fun x hx => ?_, fun t limit ht htl hlimit => ?_⟩
  · have hok := @GetCompact_eq_ok ε _ hx
    have hset := SetCompact_of_GetCompact hx hok
    refine ⟨_, hok, hset, keepTopBytes_le, ?_⟩
    rw [hset, GetCompact_keepTopBytes hx, hok]
  · have hok := @GetCompact_eq_ok ε _ (lt_of_le_of_lt htl hlimit)
    exact ⟨_, hok, target_of_GetCompact ht htl hlimit hok⟩

/-- The encoding of `0x800001`, whose top byte sets the sign bit, and of the same
number as a target below the limit `0x1000000`. -/
theorem GetCompact_round_trip_sign_bit :
    (∃ c, (GetCompact 0x800001 false : Checked Unit UInt32) = .ok c ∧
      SetCompact c = (keepTopBytes 0x800001 (compactKeptBytes 0x800001), false, false) ∧
      keepTopBytes 0x800001 (compactKeptBytes 0x800001) ≤ 0x800001 ∧
      (GetCompact (SetCompact c).1 false : Checked Unit UInt32) = .ok c) ∧
    (∃ c, (GetCompact 0x800001 false : Checked Unit UInt32) = .ok c ∧
      0 < (SetCompact c).1 ∧ (SetCompact c).1 ≤ 0x1000000) :=
  ⟨(@GetCompact_round_trip Unit).1 0x800001 (by norm_num),
    (@GetCompact_round_trip Unit).2 0x800001 0x1000000 (by norm_num) (by norm_num) (by norm_num)⟩

end Cascoin
