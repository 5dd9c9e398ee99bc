import Mathlib.Data.Nat.Bitwise

/-!
# Registers linear for exclusive or

A checksum kept in a register that takes one symbol at a time, where the step moves the
register along and adds, bit by bit modulo 2, the symbol and a multiple of a generator chosen
by the bits shifted out, is linear for exclusive or: the register of two inputs combined
symbol by symbol is the combination of the two registers. A checksum appended to a message
is then read off the register of the message followed by zeros. What that needs is here:

* `foldl_zipWith_of_step`: a fold whose step is linear is linear in the start and the input;
* `ite_and_ne_zero_xor`: adding a generator when one bit of the shifted-out part is set is
  linear in that part;
* `two_pow_mul_add_eq_xor`: a symbol put below the shifted register by exclusive or is added.
-/

namespace ShiftRegister

section Fold

variable {σ α : Type*} (op : σ → σ → σ) (opα : α → α → α) {step : σ → α → σ}

/-- A fold whose step takes combined states and symbols to the combined steps takes the
combination of two runs over inputs of one length. -/
theorem foldl_zipWith_of_step
    (hstep : ∀ a b x y, step (op a b) (opα x y) = op (step a x) (step b y)) :
    ∀ {xs ys : List α}, xs.length = ys.length → ∀ a b,
      (List.zipWith opα xs ys).foldl step (op a b) = op (xs.foldl step a) (ys.foldl step b)
  | [], [], _, _, _ => rfl
  | x :: xs, y :: ys, hlen, a, b => by
    rw [List.zipWith_cons_cons, List.foldl_cons, hstep, List.foldl_cons, List.foldl_cons]
    exact foldl_zipWith_of_step hstep (Nat.succ.inj hlen) _ _

end Fold

/-- A mask of one bit set tests that bit. -/
theorem and_ne_zero_eq_testBit {x m : UInt8} {i : ℕ} (hm : m.toNat = 2 ^ i) :
    (x &&& m != 0) = x.toNat.testBit i := by
  have hand : (x &&& m).toNat = (x.toNat.testBit i).toNat * 2 ^ i := by
    rw [UInt8.toNat_and, hm, Nat.and_two_pow]
  cases hbit : x.toNat.testBit i
  · rw [hbit, Bool.toNat_false, Nat.zero_mul] at hand
    have hzero : x &&& m = 0 := UInt8.toNat_inj.mp hand
    rw [hzero]
    rfl
  · rw [hbit, Bool.toNat_true, Nat.one_mul] at hand
    have hne : x &&& m ≠ 0 := fun h => by
      rw [h, UInt8.toNat_zero] at hand
      exact absurd hand.symm (Nat.two_pow_pos i).ne'
    exact bne_iff_ne.mpr hne

/-- Adding a generator when a bit of the shifted-out part is set is linear in that part. -/
theorem ite_and_ne_zero_xor {x y m : UInt8} {i : ℕ} (hm : m.toNat = 2 ^ i) (g : UInt32) :
    (if (x ^^^ y) &&& m != 0 then g else 0) =
      (if x &&& m != 0 then g else 0) ^^^ (if y &&& m != 0 then g else 0) := by
  rw [and_ne_zero_eq_testBit hm, and_ne_zero_eq_testBit hm, and_ne_zero_eq_testBit hm,
    UInt8.toNat_xor, Nat.testBit_xor]
  cases x.toNat.testBit i <;> cases y.toNat.testBit i <;> simp

/-- Below a shifted register the symbol is added. -/
theorem two_pow_mul_add_eq_xor {b i : ℕ} (hb : b < 2 ^ i) (a : ℕ) :
    2 ^ i * a + b = 2 ^ i * a ^^^ b := by
  apply Nat.eq_of_testBit_eq
  intro j
  rw [Nat.testBit_two_pow_mul_add _ hb, Nat.testBit_xor, Nat.testBit_two_pow_mul]
  by_cases hj : j < i
  · simp [hj, Nat.not_le_of_lt hj]
  · have hbj : b < 2 ^ j := lt_of_lt_of_le hb (Nat.pow_le_pow_right Nat.two_pos (by omega))
    simp [hj, Nat.le_of_not_lt hj, Nat.testBit_lt_two_pow hbj]

end ShiftRegister
