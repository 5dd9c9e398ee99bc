import Mathlib

/-!
# Single-precision rounding

An IEEE 754 binary32 operation returns its exact result rounded to the nearest
float, ties to an even significand. A finite float is an integer significand
below `2^24` times a power of two (`IsFloat`); the exponent range is left out,
so what follows holds where no value overflows or is subnormal.

For a positive `x` the floats around it are the multiples of `ulp x`, the
spacing in its binade, and `round x` is the nearest multiple. It is at least as
close to `x` as every float (`abs_round_sub_le`), and the rest follows from
that: floats are fixed, rounding never crosses a float, and the quotient of two
naturals up to `2^24` rounds to a value with the same ceiling as the exact
quotient (`ceil_round_div`).
-/

namespace Binary32

/-- The integer nearest `y`, the even one on a tie. -/
def roundHalfEven (y : ℚ) : ℤ :=
  if 1 < 2 * (y - ⌊y⌋) ∨ (2 * (y - ⌊y⌋) = 1 ∧ ⌊y⌋ % 2 = 1) then ⌊y⌋ + 1 else ⌊y⌋

/-- A finite float, exponent range aside: a significand below `2^24` times a power
of two. -/
def IsFloat (x : ℚ) : Prop := ∃ m e : ℤ, |m| < 2 ^ 24 ∧ x = m * 2 ^ e

/-- The spacing of the floats in the binade `[2^L, 2^(L+1))` of `|x|`. -/
def ulp (x : ℚ) : ℚ := 2 ^ (Int.log 2 |x| - 23)

/-- Rounding to the nearest float, ties to even: the nearest multiple of the
spacing. -/
def round (x : ℚ) : ℚ := roundHalfEven (x / ulp x) * ulp x

/-! ## The nearest integer -/

/-- `roundHalfEven y` is within a half of `y`. -/
theorem abs_roundHalfEven_sub_le_half (y : ℚ) : |(roundHalfEven y : ℚ) - y| ≤ 1 / 2 := by
  have h₁ := Int.floor_le y
  have h₂ := Int.lt_floor_add_one y
  unfold roundHalfEven
  split_ifs with h
  · push_cast
    rw [abs_le]
    rcases h with h | ⟨h, -⟩ <;> constructor <;> linarith
  · push Not at h
    have h₃ : 2 * (y - ⌊y⌋) ≤ 1 := h.1
    rw [abs_le]
    constructor <;> linarith

/-- No integer is nearer `y` than `roundHalfEven y`: another integer is at least
1 away from it, so at least a half away from `y`. -/
theorem abs_roundHalfEven_sub_le (y : ℚ) (k : ℤ) : |(roundHalfEven y : ℚ) - y| ≤ |k - y| := by
  by_cases hk : roundHalfEven y = k
  · rw [hk]
  have hi : (1 : ℤ) ≤ |roundHalfEven y - k| := Int.one_le_abs (sub_ne_zero.mpr hk)
  have hr : (1 : ℚ) ≤ |(roundHalfEven y : ℚ) - k| := by exact_mod_cast hi
  have ht := abs_sub_le (roundHalfEven y : ℚ) y k
  have hhalf := abs_roundHalfEven_sub_le_half y
  rw [abs_sub_comm y] at ht
  linarith

/-! ## The spacing of a binade -/

section Ulp

variable {x : ℚ}

theorem ulp_pos (x : ℚ) : 0 < ulp x := zpow_pos (by norm_num) _

/-- `2^23` spacings make the bottom of the binade. -/
theorem ulp_mul_two_pow (x : ℚ) : ulp x * 2 ^ 23 = 2 ^ Int.log 2 |x| := by
  rw [ulp, ← zpow_natCast, ← zpow_add₀ two_ne_zero]
  norm_num

/-- A positive value is at least `2^23` spacings of its binade. -/
theorem ulp_mul_le (hx : 0 < x) : ulp x * 2 ^ 23 ≤ x := by
  have h := Int.zpow_log_le_self (b := 2) (by norm_num) hx
  rw [ulp_mul_two_pow, abs_of_pos hx]
  exact_mod_cast h

/-- The distance of a multiple of the spacing from `x`, in spacings. -/
theorem abs_intCast_mul_ulp_sub (k : ℤ) (x : ℚ) :
    |k * ulp x - x| = ulp x * |k - x / ulp x| := by
  have hu := ulp_pos x
  rw [← abs_of_pos hu, ← abs_mul, abs_of_pos hu]
  congr 1
  field_simp

end Ulp

/-! ## Rounding to the nearest float -/

section Nearest

variable {x f : ℚ}

/-- No multiple of the spacing is nearer `x` than `round x`. -/
theorem abs_round_sub_le_intCast_mul (k : ℤ) (x : ℚ) : |round x - x| ≤ |k * ulp x - x| := by
  rw [round, abs_intCast_mul_ulp_sub, abs_intCast_mul_ulp_sub]
  exact mul_le_mul_of_nonneg_left (abs_roundHalfEven_sub_le _ k) (ulp_pos x).le

/-- `round x` is within half a spacing of `x`. -/
theorem abs_round_sub_le_half (x : ℚ) : |round x - x| ≤ ulp x / 2 := by
  rw [round, abs_intCast_mul_ulp_sub]
  have h := abs_roundHalfEven_sub_le_half (x / ulp x)
  have hu := ulp_pos x
  nlinarith

/-- A float is a multiple of the spacing at `x`, or below `2^23` spacings. -/
theorem IsFloat.mul_ulp_or_lt (hf : IsFloat f) (x : ℚ) :
    (∃ k : ℤ, f = k * ulp x) ∨ |f| < ulp x * 2 ^ 23 := by
  obtain ⟨m, e, hm, rfl⟩ := hf
  rcases le_or_gt (Int.log 2 |x| - 23) e with he | he
  · left
    refine ⟨m * 2 ^ (e - (Int.log 2 |x| - 23)).toNat, ?_⟩
    rw [ulp]
    push_cast
    rw [mul_assoc, ← zpow_natCast, ← zpow_add₀ two_ne_zero, Int.toNat_of_nonneg (by omega)]
    congr 2
    omega
  · right
    have hm' : (|m| : ℚ) < 2 ^ 24 := by exact_mod_cast hm
    have he' : (2 : ℚ) ^ e * 2 ^ 24 ≤ ulp x * 2 ^ 23 := by
      rw [ulp, ← zpow_natCast, ← zpow_natCast, ← zpow_add₀ two_ne_zero, ← zpow_add₀ two_ne_zero]
      exact zpow_le_zpow_right₀ (by norm_num) (by push_cast; omega)
    rw [abs_mul, abs_of_pos (zpow_pos (by norm_num : (0 : ℚ) < 2) e)]
    calc (|m| : ℚ) * 2 ^ e < 2 ^ 24 * 2 ^ e := by gcongr
      _ ≤ ulp x * 2 ^ 23 := by linarith

/-- `round x` is at least as close to a positive `x` as every float. -/
theorem abs_round_sub_le (hx : 0 < x) (hf : IsFloat f) : |round x - x| ≤ |f - x| := by
  rcases hf.mul_ulp_or_lt x with ⟨k, rfl⟩ | hsmall
  · exact abs_round_sub_le_intCast_mul k x
  · -- below the binade: its first float, `2^23` spacings, is closer
    have hlow := ulp_mul_le hx
    calc |round x - x| ≤ |((2 ^ 23 : ℤ) : ℚ) * ulp x - x| := abs_round_sub_le_intCast_mul _ x
      _ = x - ulp x * 2 ^ 23 := by
        push_cast
        rw [abs_of_nonpos (by linarith)]
        ring
      _ ≤ |x| - |f| := by rw [abs_of_pos hx]; linarith
      _ ≤ |f - x| := by rw [abs_sub_comm]; exact abs_sub_abs_le_abs_sub x f

/-- A float rounds to itself. -/
theorem round_eq_self (hx : 0 < x) (hf : IsFloat x) : round x = x := by
  have h := abs_round_sub_le hx hf
  rw [sub_self, abs_zero] at h
  exact sub_eq_zero.mp (abs_nonpos_iff.mp h)

/-- Rounding does not cross a float above. -/
theorem round_le_of_le {y : ℚ} (hx : 0 < x) (hy : IsFloat y) (hxy : x ≤ y) : round x ≤ y := by
  by_contra h
  push Not at h
  have hnear := abs_round_sub_le hx hy
  rw [abs_of_pos (by linarith), abs_of_nonneg (by linarith)] at hnear
  linarith

/-- Rounding does not cross a float below. -/
theorem le_round_of_le {y : ℚ} (hx : 0 < x) (hy : IsFloat y) (hyx : y ≤ x) : y ≤ round x := by
  by_contra h
  push Not at h
  have hnear := abs_round_sub_le hx hy
  rw [abs_of_neg (by linarith), abs_of_nonpos (by linarith)] at hnear
  linarith

end Nearest

/-! ## Quotients of naturals -/

section Quotient

/-- Up to `2^24` in magnitude, an integer times a power of two is a float. -/
theorem isFloat_intCast_mul_zpow {k : ℤ} (hk : |k| ≤ 2 ^ 24) (e : ℤ) : IsFloat (k * 2 ^ e) := by
  rcases hk.lt_or_eq with hk | hk
  · exact ⟨k, e, hk, rfl⟩
  · -- `±2^24` is `±1` at the next exponent
    have hsign : k = k.sign * 2 ^ 24 := by rw [← hk, Int.sign_mul_abs]
    refine ⟨k.sign, e + 24, by rcases Int.sign_trichotomy k with h | h | h <;> simp [h], ?_⟩
    rw [zpow_add₀ two_ne_zero]
    nth_rewrite 1 [hsign]
    push_cast
    ring

/-- The naturals up to `2^24` are floats. -/
theorem isFloat_natCast {n : ℕ} (hn : n ≤ 2 ^ 24) : IsFloat n := by
  have h := isFloat_intCast_mul_zpow (k := n) (by rw [abs_of_nonneg (by positivity)]; exact_mod_cast hn) 0
  simpa using h

/-- The powers of two are floats. -/
theorem isFloat_zpow (e : ℤ) : IsFloat (2 ^ e) := ⟨1, e, by norm_num, by simp⟩

/-- A positive value rounds to a positive float. -/
theorem round_pos {x : ℚ} (hx : 0 < x) : 0 < round x := by
  have hlog := Int.zpow_log_le_self (b := 2) (by norm_num) hx
  push_cast at hlog
  exact lt_of_lt_of_le (zpow_pos (by norm_num) _) (le_round_of_le hx (isFloat_zpow _) hlog)

/-- A quotient `B / t` of naturals with `t ≤ B ≤ 2^24` that is not an integer
rounds above its floor: the spacing there is at most `2 / t`, and a tie at the
floor would make the quotient a power of two at least 1, an integer. -/
theorem floor_lt_round_div {B t : ℕ} (ht : 0 < t) (hB24 : B ≤ 2 ^ 24) (htB : t ≤ B)
    (hdvd : ¬ t ∣ B) : ((B / t : ℕ) : ℚ) < round ((B : ℚ) / t) := by
  have htq : (0 : ℚ) < t := by exact_mod_cast ht
  have hr : 1 ≤ B % t := Nat.pos_of_ne_zero (fun h => hdvd (Nat.dvd_of_mod_eq_zero h))
  have hone : (1 : ℚ) ≤ (B : ℚ) / t := (one_le_div htq).mpr (by exact_mod_cast htB)
  have hx : (0 : ℚ) < (B : ℚ) / t := by linarith
  -- the quotient is its floor plus `(B % t) / t`, at least `1 / t` above it
  have hgap : 1 / (t : ℚ) ≤ (B : ℚ) / t - ((B / t : ℕ) : ℚ) := by
    have hsplit : (B : ℚ) = t * ((B / t : ℕ) : ℚ) + ((B % t : ℕ) : ℚ) := by
      exact_mod_cast (Nat.div_add_mod B t).symm
    have hr' : (1 : ℚ) ≤ ((B % t : ℕ) : ℚ) := by exact_mod_cast hr
    have hfrac : 1 / (t : ℚ) ≤ ((B % t : ℕ) : ℚ) / t := by gcongr
    rw [hsplit, add_div, mul_div_cancel_left₀ _ htq.ne']
    linarith
  -- the spacing at the quotient is at most `2 / t`
  have hulp : ulp ((B : ℚ) / t) * 2 ^ 23 ≤ (B : ℚ) / t := ulp_mul_le hx
  have hxle : (B : ℚ) / t ≤ 2 ^ 24 / t := by
    gcongr
    exact_mod_cast hB24
  have hround := abs_round_sub_le_half ((B : ℚ) / t)
  by_contra hle
  push Not at hle
  have hnear : (B : ℚ) / t - ((B / t : ℕ) : ℚ) ≤ ulp ((B : ℚ) / t) / 2 := by
    have := (abs_le.mp hround).1
    linarith
  -- every bound is tight, so the quotient is `2^23` spacings, a power of two
  have hpow : ulp ((B : ℚ) / t) * 2 ^ 23 = (B : ℚ) / t := by
    have h2 : 2 / (t : ℚ) ≤ ulp ((B : ℚ) / t) := by
      have := hgap.trans hnear
      rw [div_le_iff₀ htq] at this ⊢
      field_simp at this
      linarith
    have h3 : (2 : ℚ) ^ 24 / t = 2 / t * 2 ^ 23 := by ring
    nlinarith
  rw [ulp_mul_two_pow, abs_of_pos hx] at hpow
  have hlog : 0 ≤ Int.log 2 ((B : ℚ) / t) := by
    rw [Int.log_of_one_le_right 2 hone]
    exact Nat.cast_nonneg _
  -- a power of two at least 1 is a natural number, so `t` divides `B`
  apply hdvd
  refine ⟨2 ^ (Int.log 2 ((B : ℚ) / t)).toNat, ?_⟩
  have hm : (B : ℚ) / t = ((2 ^ (Int.log 2 ((B : ℚ) / t)).toNat : ℕ) : ℚ) := by
    conv_lhs => rw [← hpow]
    rw [Nat.cast_pow, ← zpow_natCast, Int.toNat_of_nonneg hlog]
    norm_num
  rw [div_eq_iff htq.ne'] at hm
  rw [mul_comm]
  exact_mod_cast hm

/-- `ceil(B / (float)t)` in single precision, for naturals `1 ≤ B ≤ 2^24` and
`t ≥ 1`: the two conversions and the division round, but the ceiling is the
exact one. -/
theorem ceil_round_div {B t : ℕ} (hB : 1 ≤ B) (hB24 : B ≤ 2 ^ 24) (ht : 1 ≤ t) :
    ⌈round (round (B : ℚ) / round t)⌉ = ⌈(B : ℚ) / t⌉ := by
  have hBq : (0 : ℚ) < B := by exact_mod_cast hB
  have htq : (0 : ℚ) < t := by exact_mod_cast ht
  have hx : (0 : ℚ) < (B : ℚ) / t := div_pos hBq htq
  rw [round_eq_self hBq (isFloat_natCast hB24)]
  rcases le_or_gt t B with htB | hBt
  · rw [round_eq_self htq (isFloat_natCast (htB.trans hB24))]
    by_cases hdvd : t ∣ B
    · -- an integer quotient is a float
      obtain ⟨n, rfl⟩ := hdvd
      have hq : ((t * n : ℕ) : ℚ) / t = (n : ℕ) := by
        push_cast
        field_simp
      have hn : n ≤ 2 ^ 24 := le_trans (Nat.le_mul_of_pos_left n ht) hB24
      rw [hq, round_eq_self (by rw [← hq]; exact hx) (isFloat_natCast hn)]
    · -- strictly between the floor and the next integer, before and after rounding
      have hsucc : B / t + 1 ≤ 2 ^ 24 := by
        have : B / t < B := Nat.div_lt_self hB (lt_of_le_of_ne ht (fun h => hdvd (h ▸ one_dvd B)))
        omega
      have hlt : (B : ℚ) / t < ((B / t + 1 : ℕ) : ℚ) := by
        have hB' : B < (B / t + 1) * t := by
          rw [Nat.add_one_mul]
          exact Nat.lt_div_mul_add ht
        rw [div_lt_iff₀ htq]
        exact_mod_cast hB'
      have hfloor : ((B / t : ℕ) : ℚ) < (B : ℚ) / t := by
        rw [lt_div_iff₀ htq]
        exact_mod_cast Nat.lt_of_le_of_ne (Nat.div_mul_le_self B t)
          (fun h => hdvd ⟨B / t, by rw [mul_comm]; exact h.symm⟩)
      have hlow := floor_lt_round_div ht hB24 htB hdvd
      have hup := round_le_of_le hx (isFloat_natCast hsucc) hlt.le
      push_cast at hlt hup
      have hround : ⌈round ((B : ℚ) / t)⌉ = ((B / t : ℕ) : ℤ) + 1 := by
        rw [Int.ceil_eq_iff]
        simp only [Int.cast_add, Int.cast_natCast, Int.cast_one, add_sub_cancel_right]
        constructor <;> linarith
      have hexact : ⌈(B : ℚ) / t⌉ = ((B / t : ℕ) : ℤ) + 1 := by
        rw [Int.ceil_eq_iff]
        simp only [Int.cast_add, Int.cast_natCast, Int.cast_one, add_sub_cancel_right]
        constructor <;> linarith
      rw [hround, hexact]
  · -- `t` above `B` rounds to at least `B`, so both quotients lie in `(0, 1]`
    have hrt : (B : ℚ) ≤ round t := le_round_of_le htq (isFloat_natCast hB24) (by exact_mod_cast hBt.le)
    have hq : 0 < (B : ℚ) / round t := div_pos hBq (by linarith)
    have h1 : round ((B : ℚ) / round t) ≤ 1 :=
      round_le_of_le hq ⟨1, 0, by norm_num, by norm_num⟩ ((div_le_one (by linarith)).mpr hrt)
    have hle : (B : ℚ) / t ≤ 1 := (div_le_one htq).mpr (by exact_mod_cast hBt.le)
    have hround : ⌈round ((B : ℚ) / round t)⌉ = 1 := by
      rw [Int.ceil_eq_iff]
      norm_num
      exact ⟨round_pos hq, h1⟩
    have hexact : ⌈(B : ℚ) / t⌉ = 1 := by
      rw [Int.ceil_eq_iff]
      norm_num
      exact ⟨hx, hle⟩
    rw [hround, hexact]

end Quotient

end Binary32
