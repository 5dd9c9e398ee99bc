import Mathlib.Data.Nat.Digits.Lemmas
import Mathlib.Data.List.DropRight

/-!
# Numerals in a base

A buffer of digits in base `b`, least significant first, stands for `Nat.ofDigits b` of it,
and a numeral written most significant first for that of its reverse. A conversion between
two bases keeps such a buffer of a fixed size, with zeros above the digits in use; what it
needs is here:

* `ofDigits_take_of_zero_above`: the zeros above a position add nothing;
* `digits_ofDigits_eq_rdropWhile`, `reverse_take_dropWhile`: the canonical digits of a
  buffer's value are the buffer without the zeros on top, and written most significant first
  they are the buffer read from the top with its leading zeros skipped;
* `digits_ofDigits_reverse`: a numeral without a leading zero is the canonical one;
* `ofDigits_div_pow_mod`, `ofDigits_map_range`: a digit read off the value, and the value
  rebuilt from the digits read off it;
* `replicate_append_drop_takeWhile`, `length_takeWhile_replicate_append`: a numeral is its run
  of leading zeros and the rest;
* `pow_lt_pow_mul_div_succ`: a buffer of `c * n / d + 1` digits of base `B` holds every number
  of `n` digits of base `A` when `c / d` bounds the ratio of the logarithms, which a finite
  check decides.
-/

namespace Radix

variable {b : ℕ}

/-- Zeros above position `n` add nothing. -/
theorem ofDigits_take_of_zero_above {L : List ℕ} {n : ℕ} (h : ∀ x ∈ L.drop n, x = 0) :
    Nat.ofDigits b (L.take n) = Nat.ofDigits b L := by
  have hz : L.drop n = List.replicate (L.drop n).length 0 := List.eq_replicate_iff.mpr ⟨rfl, h⟩
  conv_rhs => rw [← List.take_append_drop n L, hz, Nat.ofDigits_append_replicate_zero]

/-- The canonical digits of a buffer's value are the buffer without its zeros on top. -/
theorem digits_ofDigits_eq_rdropWhile (hb : 1 < b) {L : List ℕ} (hL : ∀ x ∈ L, x < b) :
    Nat.digits b (Nat.ofDigits b L) = L.rdropWhile (· == 0) := by
  -- the zeros on top are a run of zeros
  have hz : L.rtakeWhile (· == 0) = List.replicate (L.rtakeWhile (· == 0)).length 0 :=
    List.eq_replicate_iff.mpr ⟨rfl, fun x hx => by simpa using List.mem_rtakeWhile_imp hx⟩
  have hsplit := List.rdropWhile_append_rtakeWhile (p := (· == 0)) (l := L)
  rw [hz] at hsplit
  conv_lhs => rw [← hsplit, Nat.ofDigits_append_replicate_zero]
  apply Nat.digits_ofDigits b hb
  · exact fun x hx => hL x ((List.rdropWhile_prefix (p := (· == 0)) (l := L)).subset hx)
  · intro hne
    simpa using List.rdropWhile_last_not (p := (· == 0)) (l := L) hne

/-- Read from the top, with its leading zeros skipped, a buffer zero above `n` is its value's
canonical numeral written most significant first. -/
theorem reverse_take_dropWhile (hb : 1 < b) {L : List ℕ} {n : ℕ} (hL : ∀ x ∈ L, x < b)
    (h : ∀ x ∈ L.drop n, x = 0) :
    (L.take n).reverse.dropWhile (· == 0) = (Nat.digits b (Nat.ofDigits b L)).reverse := by
  rw [← ofDigits_take_of_zero_above h,
    digits_ofDigits_eq_rdropWhile hb (fun x hx => hL x (List.mem_of_mem_take hx)),
    List.rdropWhile, List.reverse_reverse]

/-- A numeral written most significant first without a leading zero is the canonical one. -/
theorem digits_ofDigits_reverse (hb : 1 < b) {L : List ℕ} (hL : ∀ x ∈ L, x < b)
    (hhead : L.head? ≠ some 0) : Nat.digits b (Nat.ofDigits b L.reverse) = L.reverse := by
  apply Nat.digits_ofDigits b hb
  · exact fun x hx => hL x (List.mem_reverse.mp hx)
  · intro hne h0
    rw [List.getLast_reverse] at h0
    exact hhead (by rw [List.head?_eq_some_head (List.reverse_ne_nil_iff.mp hne), h0])

/-- The canonical numeral written most significant first has no leading zero. -/
theorem head?_reverse_digits_ne_zero (n : ℕ) : (Nat.digits b n).reverse.head? ≠ some 0 := by
  rw [List.head?_reverse]
  by_cases hn : n = 0
  · simp [hn]
  · rw [List.getLast?_eq_some_getLast (Nat.digits_ne_nil_iff_ne_zero.mpr hn)]
    simpa using Nat.getLast_digit_ne_zero b hn

/-- The digit at position `j` of a buffer is the value's digit there. -/
theorem ofDigits_div_pow_mod (hb : 0 < b) {L : List ℕ} (hL : ∀ x ∈ L, x < b) {j : ℕ}
    (hj : j < L.length) : Nat.ofDigits b L / b ^ j % b = L[j] := by
  rw [Nat.ofDigits_div_pow_eq_ofDigits_drop j hb L hL, List.drop_eq_getElem_cons hj,
    Nat.ofDigits_cons, Nat.add_mul_mod_self_left, Nat.mod_eq_of_lt (hL _ (List.getElem_mem hj))]

/-- The first `k` digits of a number, read off one by one, write it modulo `b ^ k`. -/
theorem ofDigits_map_range (b n k : ℕ) :
    Nat.ofDigits b ((List.range k).map fun j => n / b ^ j % b) = n % b ^ k := by
  induction k with
  | zero => simp [Nat.mod_one]
  | succ k ih =>
    rw [List.range_succ, List.map_append, Nat.ofDigits_append, ih, List.length_map,
      List.length_range, List.map_singleton, Nat.ofDigits_singleton, Nat.mod_pow_succ]

/-- A number below `b ^ k` has one buffer of `k` digits: the digits read off it. -/
theorem ofDigits_eq_iff_eq_map_range (hb : 0 < b) {k m : ℕ} (hm : m < b ^ k) {L : List ℕ}
    (hlen : L.length = k) (hL : ∀ x ∈ L, x < b) :
    Nat.ofDigits b L = m ↔ L = (List.range k).map fun j => m / b ^ j % b := by
  constructor
  · rintro rfl
    apply List.ext_getElem (by rw [List.length_map, List.length_range, hlen])
    intro j hj _
    rw [List.getElem_map, List.getElem_range, ofDigits_div_pow_mod hb hL hj]
  · rintro rfl
    rw [ofDigits_map_range, Nat.mod_eq_of_lt hm]

theorem drop_length_takeWhile {α : Type*} (p : α → Bool) (l : List α) :
    l.drop (l.takeWhile p).length = l.dropWhile p := by
  induction l with
  | nil => rfl
  | cons x l ih =>
    by_cases hx : p x
    · rw [List.takeWhile_cons_of_pos hx, List.dropWhile_cons_of_pos hx, List.length_cons,
        List.drop_succ_cons, ih]
    · rw [List.takeWhile_cons_of_neg hx, List.dropWhile_cons_of_neg hx]
      rfl

section Leading

variable {α : Type*} [BEq α] [LawfulBEq α]

/-- A numeral is its run of leading `a`s followed by the rest. -/
theorem replicate_append_drop_takeWhile (a : α) (l : List α) :
    List.replicate (l.takeWhile (· == a)).length a ++ l.drop (l.takeWhile (· == a)).length =
      l := by
  have hrun : l.takeWhile (· == a) = List.replicate (l.takeWhile (· == a)).length a :=
    List.eq_replicate_iff.mpr ⟨rfl, fun x hx => by simpa using List.mem_takeWhile_imp hx⟩
  rw [drop_length_takeWhile, ← hrun, List.takeWhile_append_dropWhile]

/-- After its run of leading `a`s a numeral does not start with `a`. -/
theorem head?_drop_takeWhile_ne (a : α) (l : List α) :
    (l.drop (l.takeWhile (· == a)).length).head? ≠ some a := by
  rw [drop_length_takeWhile]
  intro h
  have hnot := List.head?_dropWhile_not (· == a) l
  rw [h] at hnot
  simp at hnot

/-- The run of leading `a`s of `a`s put before a list that does not start with `a`. -/
theorem length_takeWhile_replicate_append (a : α) (z : ℕ) {t : List α}
    (ht : t.head? ≠ some a) : ((List.replicate z a ++ t).takeWhile (· == a)).length = z := by
  rw [List.takeWhile_append_of_pos (fun x hx => by simp [List.eq_of_mem_replicate hx])]
  cases t with
  | nil => simp
  | cons x t =>
    have hx : (x == a) = false := by simpa using ht
    rw [List.takeWhile_cons_of_neg (by simp [hx]), List.append_nil, List.length_replicate]

end Leading

/-- A buffer of `c * n / d + 1` digits of base `B` holds every number of `n` digits of base
`A`, when a pair `A ^ q ≤ B ^ a` has `a / q ≤ c / d` and the `n` below `q` are checked. -/
theorem pow_lt_pow_mul_div_succ {A B q a c d : ℕ} (hB : 0 < B) (hq : 0 < q) (hd : 0 < d)
    (hpair : A ^ q ≤ B ^ a) (hratio : d * a ≤ c * q)
    (hsmall : ∀ r < q, A ^ r < B ^ (c * r / d + 1)) (n : ℕ) :
    A ^ n < B ^ (c * n / d + 1) := by
  have hn := Nat.div_add_mod n q
  -- `n / q` whole pairs, then the `n % q` digits left over
  have hdiv : a * (n / q) + c * (n % q) / d ≤ c * n / d := by
    have hle : d * (a * (n / q)) + c * (n % q) ≤ c * n := by
      calc d * (a * (n / q)) + c * (n % q) = (d * a) * (n / q) + c * (n % q) := by ring
        _ ≤ (c * q) * (n / q) + c * (n % q) := by gcongr
        _ = c * n := by rw [Nat.mul_assoc, ← Nat.mul_add, hn]
    calc a * (n / q) + c * (n % q) / d = (d * (a * (n / q)) + c * (n % q)) / d := by
          rw [Nat.mul_add_div hd]
      _ ≤ c * n / d := Nat.div_le_div_right hle
  calc A ^ n = (A ^ q) ^ (n / q) * A ^ (n % q) := by rw [← pow_mul, ← pow_add, hn]
    _ < (B ^ a) ^ (n / q) * B ^ (c * (n % q) / d + 1) :=
        Nat.mul_lt_mul_of_le_of_lt (Nat.pow_le_pow_left hpair _) (hsmall _ (Nat.mod_lt n hq))
          (Nat.pow_pos (Nat.pow_pos hB))
    _ = B ^ (a * (n / q) + c * (n % q) / d + 1) := by rw [← pow_mul, ← pow_add, Nat.add_assoc]
    _ ≤ B ^ (c * n / d + 1) := Nat.pow_le_pow_right hB (by omega)

end Radix
