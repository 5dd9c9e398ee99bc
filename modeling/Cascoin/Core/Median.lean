import Mathlib

/-!
# Medians of lists

The median of a list is the element at index `length / 2` of the list sorted.
In a sorted list an element is at most the `k`-th exactly when at most `k`
elements lie below it (`countP_lt_getElem_le`, `le_getElem_of_countP_lt_le`).
Counting below the median therefore shows that a median does not fall when an
element above it is added and others are dropped, as long as the list does not
get shorter (`median_le_median_cons`): the sliding window of a median time.
-/

namespace List

variable {α : Type*} [LinearOrder α]

/-- In a sorted list at most `k` elements lie below the `k`-th. -/
theorem countP_lt_getElem_le {S : List α} (hS : S.Pairwise (· ≤ ·)) {k : Nat}
    (hk : k < S.length) : S.countP (fun x => decide (x < S[k])) ≤ k := by
  induction S generalizing k with
  | nil => simp at hk
  | cons a S ih =>
    rw [List.pairwise_cons] at hS
    cases k with
    | zero =>
      -- nothing lies below the head
      rw [Nat.le_zero, List.countP_eq_zero]
      intro x hx
      simp only [List.getElem_cons_zero, decide_eq_true_eq, not_lt]
      rcases List.mem_cons.1 hx with rfl | hx
      · exact le_refl _
      · exact hS.1 x hx
    | succ k =>
      have hk' : k < S.length := by simpa using hk
      simp only [List.getElem_cons_succ]
      rw [List.countP_cons]
      have := ih hS.2 hk'
      split <;> omega

/-- In a sorted list an element with at most `k` elements below it is at most the `k`-th. -/
theorem le_getElem_of_countP_lt_le {S : List α} (hS : S.Pairwise (· ≤ ·)) {k : Nat}
    (hk : k < S.length) {m : α} (h : S.countP (fun x => decide (x < m)) ≤ k) : m ≤ S[k] := by
  induction S generalizing k with
  | nil => simp at hk
  | cons a S ih =>
    rw [List.pairwise_cons] at hS
    rw [List.countP_cons] at h
    by_cases ha : a < m
    · -- the head counts, so `k` is past it
      simp only [ha, decide_true, if_true] at h
      cases k with
      | zero => omega
      | succ k => exact ih hS.2 (by simpa using hk) (by omega)
    · have hma : m ≤ a := not_lt.1 ha
      cases k with
      | zero => exact hma
      | succ k =>
        simp only [List.getElem_cons_succ]
        exact le_trans hma (hS.1 _ (List.getElem_mem _))

/-- The median: the middle element of the sorted list, `d` for the empty list. -/
def median (d : α) (l : List α) : α := (l.insertionSort (· ≤ ·)).getD (l.length / 2) d

/-- At most half of a nonempty list lies below its median. -/
theorem countP_lt_median_le (d : α) {l : List α} (hne : l ≠ []) :
    l.countP (fun x => decide (x < median d l)) ≤ l.length / 2 := by
  have hlen : l.length / 2 < (l.insertionSort (· ≤ ·)).length := by
    rw [List.length_insertionSort]
    have : 0 < l.length := List.length_pos_iff.2 hne
    omega
  rw [← (List.perm_insertionSort (· ≤ ·) l).countP_eq, median, List.getD_eq_getElem _ _ hlen]
  exact countP_lt_getElem_le (List.pairwise_insertionSort _ _) hlen

/-- An element with at most half of a nonempty list below it is at most the median. -/
theorem le_median_of_countP_lt_le (d : α) {l : List α} (hne : l ≠ []) {m : α}
    (h : l.countP (fun x => decide (x < m)) ≤ l.length / 2) : m ≤ median d l := by
  have hlen : l.length / 2 < (l.insertionSort (· ≤ ·)).length := by
    rw [List.length_insertionSort]
    have : 0 < l.length := List.length_pos_iff.2 hne
    omega
  rw [median, List.getD_eq_getElem _ _ hlen]
  apply le_getElem_of_countP_lt_le (List.pairwise_insertionSort _ _) hlen
  rwa [(List.perm_insertionSort (· ≤ ·) l).countP_eq]

/-- Adding an element above the median and keeping a sublist of the rest, no shorter by
more than the one added, does not lower the median. -/
theorem median_le_median_cons (d : α) {l l' : List α} (hne : l ≠ []) (hsub : l' <+ l)
    (hlen : l.length ≤ l'.length + 1) {a : α} (ha : median d l < a) :
    median d l ≤ median d (a :: l') := by
  apply le_median_of_countP_lt_le d (List.cons_ne_nil a l')
  -- the new element is not below the old median; the kept ones are old ones
  have hkept : l'.countP (fun x => decide (x < median d l)) ≤
      l.countP (fun x => decide (x < median d l)) := hsub.countP_le
  have hold := countP_lt_median_le d hne
  have hnot : ¬ a < median d l := not_lt.2 (le_of_lt ha)
  rw [List.countP_cons, if_neg (by simpa using hnot), List.length_cons]
  omega

end List
