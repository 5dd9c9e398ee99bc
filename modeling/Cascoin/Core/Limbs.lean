import Mathlib.Data.Nat.Digits.Defs
import Mathlib.Data.Nat.Size
import Mathlib.Tactic.Ring

/-!
# Numbers as little-endian limbs

A fixed-width unsigned integer kept as limbs in base `b`, the least significant first,
stands for `Nat.ofDigits b` of its limbs. What a loop over the limbs needs is here: the
carry of one limb into the next (`mod_add_mul_mod_pow`), an order and an equality decided
by the top limbs first (`add_mul_lt_add_mul_iff`, `add_mul_inj`), the bit length of a value
whose top limb is not zero (`size_add_two_pow_mul`), and, in base `2 ^ w`, the bits of the
value as the bits of its limbs (`testBit_ofDigits`).
-/

namespace Limbs

/-- Low limbs `r` below `D` and high limbs cut to `m`: the whole cut to `D * m`. -/
theorem add_mul_mod_mul {r D X m : ℕ} (hr : r < D) :
    r + D * (X % m) = (r + D * X) % (D * m) := by
  have hD : 0 < D := by omega
  rw [Nat.mod_mul, Nat.add_mul_mod_self_left, Nat.mod_eq_of_lt hr, Nat.add_mul_div_left _ _ hD,
    Nat.div_eq_of_lt hr, Nat.zero_add]

/-- The carry step of a loop over limbs in base `b`: the limb written is `n % b`, and the
limbs above it take the rest with the carry `n / b`. -/
theorem mod_add_mul_mod_pow {b : ℕ} (hb : 0 < b) (n X m : ℕ) :
    n % b + b * ((X + n / b) % b ^ m) = (n + b * X) % b ^ (m + 1) := by
  rw [add_mul_mod_mul (Nat.mod_lt n hb), ← pow_succ']
  congr 1
  have hn := Nat.mod_add_div n b
  rw [Nat.mul_add]
  omega

section TopFirst

variable {B x y X Y : ℕ}

/-- Below a radix `B`, the high parts `X` and `Y` order the two numbers first. -/
theorem add_mul_lt_add_mul_iff (hx : x < B) (hy : y < B) :
    x + B * X < y + B * Y ↔ X < Y ∨ X = Y ∧ x < y := by
  constructor
  · intro h
    rcases lt_trichotomy X Y with hXY | rfl | hXY
    · exact Or.inl hXY
    · exact Or.inr ⟨rfl, by omega⟩
    · -- the higher part of the left number outweighs any low part on the right
      have hmul : B * (Y + 1) ≤ B * X := Nat.mul_le_mul_left B hXY
      rw [Nat.mul_succ] at hmul
      omega
  · rintro (hXY | ⟨rfl, hxy⟩)
    · have hmul : B * (X + 1) ≤ B * Y := Nat.mul_le_mul_left B hXY
      rw [Nat.mul_succ] at hmul
      omega
    · omega

/-- Below a radix `B`, two numbers are equal exactly when both parts are. -/
theorem add_mul_inj (hx : x < B) (hy : y < B) :
    x + B * X = y + B * Y ↔ X = Y ∧ x = y := by
  constructor
  · intro h
    have hB : 0 < B := by omega
    have hlow : (x + B * X) % B = (y + B * Y) % B := by rw [h]
    have hhigh : (x + B * X) / B = (y + B * Y) / B := by rw [h]
    rw [Nat.add_mul_mod_self_left, Nat.add_mul_mod_self_left, Nat.mod_eq_of_lt hx,
      Nat.mod_eq_of_lt hy] at hlow
    rw [Nat.add_mul_div_left _ _ hB, Nat.add_mul_div_left _ _ hB, Nat.div_eq_of_lt hx,
      Nat.div_eq_of_lt hy] at hhigh
    exact ⟨by omega, hlow⟩
  · rintro ⟨rfl, rfl⟩
    rfl

end TopFirst

/-- The bit length of a number whose part above bit `k` is `x ≠ 0`. -/
theorem size_add_two_pow_mul {k A x : ℕ} (hA : A < 2 ^ k) (hx : x ≠ 0) :
    (A + 2 ^ k * x).size = k + x.size := by
  have hs : 0 < x.size := Nat.size_pos.mpr (Nat.pos_of_ne_zero hx)
  apply le_antisymm
  · rw [Nat.size_le]
    calc A + 2 ^ k * x < 2 ^ k + 2 ^ k * x := by omega
      _ = 2 ^ k * (x + 1) := by ring
      _ ≤ 2 ^ k * 2 ^ x.size := Nat.mul_le_mul_left _ (Nat.lt_size_self x)
      _ = 2 ^ (k + x.size) := (pow_add 2 k x.size).symm
  · -- the top set bit of `x`, moved up by `k`, is set in the whole number
    have hlow : 2 ^ (x.size - 1) ≤ x := Nat.lt_size.mp (by omega)
    have htop : k + x.size - 1 < (A + 2 ^ k * x).size := by
      rw [Nat.lt_size]
      calc 2 ^ (k + x.size - 1) = 2 ^ k * 2 ^ (x.size - 1) := by
            rw [← pow_add]
            congr 1
            omega
        _ ≤ 2 ^ k * x := Nat.mul_le_mul_left _ hlow
        _ ≤ A + 2 ^ k * x := Nat.le_add_left _ _
    omega

/-- In base `2 ^ w`, bit `j` of the value is bit `j % w` of limb `j / w`. -/
theorem testBit_ofDigits {w : ℕ} (hw : 0 < w) {L : List ℕ} (hL : ∀ x ∈ L, x < 2 ^ w)
    (j : ℕ) : (Nat.ofDigits (2 ^ w) L).testBit j = (L.getD (j / w) 0).testBit (j % w) := by
  induction L generalizing j with
  | nil => simp
  | cons x L ih =>
    have hx : x < 2 ^ w := hL x List.mem_cons_self
    have hrest := ih (fun y hy => hL y (List.mem_cons_of_mem x hy))
    rw [Nat.ofDigits_cons, Nat.add_comm, Nat.testBit_two_pow_mul_add _ hx]
    by_cases hj : j < w
    · rw [if_pos hj, Nat.div_eq_of_lt hj, Nat.mod_eq_of_lt hj]
      rfl
    · -- past the first limb: the same bit, one limb up
      have hwj : w ≤ j := Nat.le_of_not_lt hj
      rw [if_neg hj, hrest, Nat.div_eq_sub_div hw hwj, Nat.mod_eq_sub_mod hwj]
      rfl

end Limbs
