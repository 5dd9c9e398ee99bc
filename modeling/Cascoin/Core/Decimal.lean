import Mathlib.Data.List.DropRight
import Mathlib.Tactic.Ring

/-!
# Decimal digit strings

The text of a natural number in base ten, as `printf`'s `%d` writes it
(`Nat.toDigits 10`), padded with zeros on the left to a field width as `%0*d` writes it
(`zeroPad`), and read back by `Nat.ofDigitChars 10`. The lemmas give the value of a
string of digits digit by digit, with zeros appended, and its bound, which a parser that
accumulates a number digit by digit needs for its overflow checks.
-/

namespace Decimal

/-- The value of the digit `c`. -/
def digitValue (c : Char) : ℕ := c.toNat - '0'.toNat

/-- Every character of `cs` is one of `0` to `9`. -/
def AllDigits (cs : List Char) : Prop := ∀ c ∈ cs, c.isDigit

/-- `cs` does not start with a digit: a loop over digits stops at its start. -/
def NoDigitHead (cs : List Char) : Prop := ∀ c rest, cs = c :: rest → c.isDigit = false

theorem noDigitHead_nil : NoDigitHead [] := by
  intro c rest h
  cases h

theorem digitValue_lt {c : Char} (h : c.isDigit) : digitValue c < 10 := by
  simp only [Char.isDigit, Bool.and_eq_true, decide_eq_true_eq, UInt32.le_iff_toNat_le] at h
  have h₀ : ('0' : Char).val.toNat = 48 := rfl
  have h₉ : ('9' : Char).val.toNat = 57 := rfl
  simp only [digitValue, Char.toNat]
  omega

theorem digitValue_eq_zero_iff {c : Char} (h : c.isDigit) : digitValue c = 0 ↔ c = '0' := by
  constructor
  · intro hz
    simp only [Char.isDigit, Bool.and_eq_true, decide_eq_true_eq, UInt32.le_iff_toNat_le] at h
    have h₀ : ('0' : Char).val.toNat = 48 := rfl
    simp only [digitValue, Char.toNat] at hz
    exact Char.toNat_inj.mp (by simp only [Char.toNat]; omega)
  · rintro rfl
    rfl

theorem AllDigits.append {cs ds : List Char} (hc : AllDigits cs) (hd : AllDigits ds) :
    AllDigits (cs ++ ds) := by
  intro c hmem
  rcases List.mem_append.mp hmem with h | h
  · exact hc c h
  · exact hd c h

theorem allDigits_toDigits (n : ℕ) : AllDigits (Nat.toDigits 10 n) := fun _ h =>
  Nat.isDigit_of_mem_toDigits (by decide) (by decide) h

/-! ## Values -/

theorem ofDigitChars_cons (c : Char) (cs : List Char) :
    Nat.ofDigitChars 10 (c :: cs) 0 = digitValue c * 10 ^ cs.length + Nat.ofDigitChars 10 cs 0 := by
  rw [Nat.ofDigitChars_cons, Nat.ofDigitChars_eq_ofDigitChars_zero, Nat.mul_zero, Nat.zero_add,
    Nat.mul_comm]
  rfl

/-- Zeros appended shift the value. -/
theorem ofDigitChars_append_zeros (cs : List Char) (k : ℕ) :
    Nat.ofDigitChars 10 (cs ++ List.replicate k '0') 0 = Nat.ofDigitChars 10 cs 0 * 10 ^ k := by
  rw [Nat.ofDigitChars_append, Nat.ofDigitChars_replicate_zero, Nat.mul_comm]

theorem ofDigitChars_lt {cs : List Char} (h : AllDigits cs) :
    Nat.ofDigitChars 10 cs 0 < 10 ^ cs.length := by
  induction cs with
  | nil => simp
  | cons c cs ih =>
    have hc := digitValue_lt (h c List.mem_cons_self)
    have hcs := ih fun d hd => h d (List.mem_cons_of_mem c hd)
    rw [ofDigitChars_cons, List.length_cons, pow_succ]
    calc digitValue c * 10 ^ cs.length + Nat.ofDigitChars 10 cs 0
        < digitValue c * 10 ^ cs.length + 10 ^ cs.length := by omega
      _ = (digitValue c + 1) * 10 ^ cs.length := by ring
      _ ≤ 10 * 10 ^ cs.length := Nat.mul_le_mul_right _ hc
      _ = 10 ^ cs.length * 10 := Nat.mul_comm _ _

/-- The text of a positive number starts with a digit other than zero. -/
theorem head_toDigits {n : ℕ} (hn : 0 < n) :
    ∃ c cs, Nat.toDigits 10 n = c :: cs ∧ c.isDigit ∧ c ≠ '0' := by
  induction n using Nat.strong_induction_on with
  | _ n ih =>
    rw [Nat.toDigits_eq_if (by decide)]
    split
    · case isTrue hlt =>
      refine ⟨n.digitChar, [], rfl, ?_, ?_⟩
      · rw [Nat.isDigit_digitChar]
        exact decide_eq_true hlt
      · rw [Ne, Nat.digitChar_eq_zero]
        omega
    · case isFalse hge =>
      obtain ⟨c, cs, hcs, hc⟩ := ih (n / 10) (by omega) (by omega)
      exact ⟨c, cs ++ [(n % 10).digitChar], by rw [hcs, List.cons_append], hc⟩

/-! ## Zero padding -/

/-- `%0*d`: the digits of `n`, padded with zeros on the left to `width`. -/
def zeroPad (width n : ℕ) : List Char :=
  List.replicate (width - (Nat.toDigits 10 n).length) '0' ++ Nat.toDigits 10 n

theorem allDigits_zeroPad (width n : ℕ) : AllDigits (zeroPad width n) := by
  refine AllDigits.append (fun c hc => ?_) (allDigits_toDigits n)
  rw [List.eq_of_mem_replicate hc]
  rfl

theorem length_zeroPad {width n : ℕ} (hw : 0 < width) (h : n < 10 ^ width) :
    (zeroPad width n).length = width := by
  have hlen := (Nat.length_toDigits_le_iff (by decide) hw).mpr h
  rw [zeroPad, List.length_append, List.length_replicate]
  omega

@[simp] theorem ofDigitChars_zeroPad (width n : ℕ) : Nat.ofDigitChars 10 (zeroPad width n) 0 = n := by
  rw [zeroPad, Nat.ofDigitChars_append, Nat.ofDigitChars_replicate_zero, Nat.mul_zero,
    Nat.ofDigitChars_ten_toDigits]

end Decimal
