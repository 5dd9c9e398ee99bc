import Mathlib.Logic.Function.Iterate
import Mathlib.Data.Nat.Bitwise

/-!
# Merkle trees with duplicated odd ends

The Merkle tree of a list of hashes, built level by level: each level hashes adjacent
pairs of the one below, and a level of odd length pairs its last element with itself
(`pairUp`). The root is what is left when a level has one element (`merkleRoot`);
the branch of a position lists its sibling on each level below the root
(`merkleBranch`), the last element of an odd level being its own sibling.

Level `l` is `pairUp` applied `l` times (`level`). Its element `i` is the hash of
leaves `i * 2^l` to `(i + 1) * 2^l - 1`, and two siblings `2i`, `2i + 1` both cover
whole blocks of leaves when `(2i + 2) * 2^l` leaves are there (`EqualSiblingsWithin`).

The second part is the arithmetic of a binary counter that a constant-space
computation of the tree keeps: after `c` leaves it holds one hash for each set bit of
`c`, the node `c / 2^l - 1` of level `l`.
-/

namespace MerkleTree

variable {α : Type} (H : α → α → α)

/-! ## Levels -/

/-- One level up: adjacent pairs hashed, the last element of an odd level with itself. -/
def pairUp : List α → List α
  | [] => []
  | [a] => [H a a]
  | a :: b :: rest => H a b :: pairUp rest

theorem length_pairUp (xs : List α) : (pairUp H xs).length = (xs.length + 1) / 2 := by
  induction xs using pairUp.induct with
  | case1 => simp [pairUp]
  | case2 a => simp [pairUp]
  | case3 a b rest ih =>
    simp only [pairUp, List.length_cons, ih]
    omega

/-- A node over two present siblings. -/
theorem getElem?_pairUp_pair {xs : List α} {i : ℕ} {a b : α} (ha : xs[2 * i]? = some a)
    (hb : xs[2 * i + 1]? = some b) : (pairUp H xs)[i]? = some (H a b) := by
  induction xs using pairUp.induct generalizing i with
  | case1 => simp at ha
  | case2 c => simp at hb
  | case3 c d rest ih =>
    cases i with
    | zero =>
      simp only [Nat.mul_zero, List.getElem?_cons_zero, Option.some.injEq, Nat.zero_add,
        List.getElem?_cons_succ] at ha hb
      simp [pairUp, ha, hb]
    | succ i =>
      have ha' : rest[2 * i]? = some a := by simpa [Nat.mul_succ] using ha
      have hb' : rest[2 * i + 1]? = some b := by simpa [Nat.mul_succ] using hb
      simpa [pairUp] using ih ha' hb'

/-- The last node of a level above an odd one hashes the last element with itself. -/
theorem getElem?_pairUp_last {xs : List α} {i : ℕ} {a : α} (ha : xs[2 * i]? = some a)
    (hlen : xs.length = 2 * i + 1) : (pairUp H xs)[i]? = some (H a a) := by
  induction xs using pairUp.induct generalizing i with
  | case1 => simp at ha
  | case2 c =>
    obtain rfl : i = 0 := by simp at hlen; omega
    simp only [Nat.mul_zero, List.getElem?_cons_zero, Option.some.injEq] at ha
    simp [pairUp, ha]
  | case3 c d rest ih =>
    cases i with
    | zero => simp at hlen
    | succ i =>
      have ha' : rest[2 * i]? = some a := by simpa [Nat.mul_succ] using ha
      have hlen' : rest.length = 2 * i + 1 := by simp at hlen; omega
      simpa [pairUp] using ih ha' hlen'

/-- Node `i` of the level above: its left child hashed with its right one, or with itself
when there is no right child. -/
theorem getElem?_pairUp (xs : List α) (i : ℕ) :
    (pairUp H xs)[i]? = xs[2 * i]?.map fun a => H a (xs[2 * i + 1]?.getD a) := by
  induction xs using pairUp.induct generalizing i with
  | case1 => simp [pairUp]
  | case2 a => cases i <;> simp [pairUp, Nat.mul_succ]
  | case3 a b rest ih =>
    cases i with
    | zero => simp [pairUp]
    | succ i => simp [pairUp, Nat.mul_succ, ih]

/-- Level `l` of the tree over `xs`. -/
def level (l : ℕ) (xs : List α) : List α := (pairUp H)^[l] xs

@[simp] theorem level_zero (xs : List α) : level H 0 xs = xs := rfl

theorem level_succ (l : ℕ) (xs : List α) : level H (l + 1) xs = pairUp H (level H l xs) :=
  Function.iterate_succ_apply' _ _ _

theorem level_succ_pairUp (l : ℕ) (xs : List α) :
    level H (l + 1) xs = level H l (pairUp H xs) :=
  Function.iterate_succ_apply _ _ _

theorem length_level_succ (l : ℕ) (xs : List α) :
    (level H (l + 1) xs).length = ((level H l xs).length + 1) / 2 := by
  rw [level_succ, length_pairUp]

/-- Level `l` has one node for each block of `2^l` elements, the last one possibly partial. -/
theorem length_level (l : ℕ) (xs : List α) :
    (level H l xs).length = (xs.length + 2 ^ l - 1) / 2 ^ l := by
  induction l with
  | zero => simp
  | succ l ih =>
    have hpos := Nat.two_pow_pos l
    -- a block of the next level is two blocks of this one
    have hsplit : xs.length + 2 ^ (l + 1) - 1 = (xs.length + 2 ^ l - 1) + 2 ^ l := by
      rw [pow_succ]
      omega
    rw [length_level_succ, ih, hsplit, pow_succ, ← Nat.div_div_eq_div_mul,
      Nat.add_div_right _ hpos]

theorem getElem?_level_succ (l i : ℕ) (xs : List α) :
    (level H (l + 1) xs)[i]? =
      (level H l xs)[2 * i]?.map fun a => H a ((level H l xs)[2 * i + 1]?.getD a) := by
  rw [level_succ, getElem?_pairUp]

/-- Two siblings ending at node `x - 1` hash to node `x / 2 - 1` of the next level. -/
theorem getElem?_level_succ_of_even {l x : ℕ} {xs : List α} {a b : α} (hx : x % 2 = 0)
    (hpos : 0 < x) (ha : (level H l xs)[x - 2]? = some a) (hb : (level H l xs)[x - 1]? = some b) :
    (level H (l + 1) xs)[x / 2 - 1]? = some (H a b) := by
  rw [level_succ]
  exact getElem?_pairUp_pair H (by rwa [show 2 * (x / 2 - 1) = x - 2 by omega])
    (by rwa [show 2 * (x / 2 - 1) + 1 = x - 1 by omega])

/-- The last element of an odd level, hashed with itself, is the last of the next. -/
theorem getElem?_level_succ_last {l : ℕ} {xs : List α} {a : α}
    (hodd : (level H l xs).length % 2 = 1)
    (ha : (level H l xs)[(level H l xs).length - 1]? = some a) :
    (level H (l + 1) xs)[(level H (l + 1) xs).length - 1]? = some (H a a) := by
  rw [length_level_succ, level_succ]
  exact getElem?_pairUp_last H
    (by rwa [show 2 * (((level H l xs).length + 1) / 2 - 1) = (level H l xs).length - 1 by omega])
    (by omega)

/-- Two equal siblings `2i`, `2i + 1` of some level, both over whole blocks of the
first `c` leaves. -/
def EqualSiblingsWithin (c : ℕ) (xs : List α) : Prop :=
  ∃ l i, (2 * i + 2) * 2 ^ l ≤ c ∧ (level H l xs)[2 * i]? = (level H l xs)[2 * i + 1]?

/-- Two equal elements at positions `2i` and `2i + 1` of some level. -/
def EqualSiblings (xs : List α) : Prop :=
  ∃ l i, 2 * i + 1 < (level H l xs).length ∧ (level H l xs)[2 * i]? = (level H l xs)[2 * i + 1]?

/-- Two distinct leaves are the only siblings of their tree. -/
theorem not_equalSiblings_pair {a b : α} (hab : a ≠ b) : ¬EqualSiblings H [a, b] := by
  rintro ⟨l, i, hlt, heq⟩
  cases l with
  | zero =>
    obtain rfl : i = 0 := by
      simp only [level_zero, List.length_cons, List.length_nil] at hlt
      omega
    exact hab (by simpa using heq)
  | succ l =>
    -- above the leaves there is one node on each level
    rw [level_succ_pairUp, length_level] at hlt
    simp only [pairUp, List.length_singleton, Nat.add_sub_cancel_left,
      Nat.div_self (Nat.two_pow_pos l)] at hlt
    omega

/-! ## Root and branch -/

/-- The root: levels are built until one element is left. -/
def merkleRoot : List α → Option α
  | [] => none
  | [a] => some a
  | a :: b :: rest => merkleRoot (pairUp H (a :: b :: rest))
termination_by xs => xs.length
decreasing_by simp only [length_pairUp, List.length_cons]; omega

theorem merkleRoot_of_two_le {xs : List α} (h : 2 ≤ xs.length) :
    merkleRoot H xs = merkleRoot H (pairUp H xs) := by
  match xs, h with
  | a :: b :: rest, _ => rw [merkleRoot]

/-- The root is the element of the first level of length one. -/
theorem merkleRoot_eq_level (l : ℕ) : ∀ {xs : List α}, (level H l xs).length = 1 →
    (∀ i < l, 2 ≤ (level H i xs).length) → merkleRoot H xs = (level H l xs)[0]? := by
  induction l with
  | zero =>
    intro xs hone _
    obtain ⟨a, rfl⟩ := List.length_eq_one_iff.mp hone
    simp [merkleRoot]
  | succ l ih =>
    intro xs hone hbig
    rw [merkleRoot_of_two_le H (show 2 ≤ xs.length from hbig 0 (Nat.zero_lt_succ l)),
      level_succ_pairUp]
    rw [level_succ_pairUp] at hone
    refine ih hone fun i hi => ?_
    rw [← level_succ_pairUp]
    exact hbig (i + 1) (by omega)

section Branch

variable [Inhabited α]

/-- The sibling of position `p`: its left or right neighbour on the level, itself at
the end of an odd level. -/
def sibling (xs : List α) (p : ℕ) : α :=
  if p % 2 = 1 then xs.getD (p - 1) default else xs.getD (p + 1) (xs.getD p default)

theorem sibling_of_odd {xs : List α} {p : ℕ} {b : α} (hp : p % 2 = 1) (hb : xs[p - 1]? = some b) :
    sibling xs p = b := by
  simp [sibling, hp, List.getD_eq_getElem?_getD, hb]

theorem sibling_of_even {xs : List α} {p : ℕ} {b : α} (hp : p % 2 = 0) (hb : xs[p + 1]? = some b) :
    sibling xs p = b := by
  simp [sibling, hp, List.getD_eq_getElem?_getD, hb]

theorem sibling_of_last {xs : List α} {p : ℕ} {a : α} (hp : p % 2 = 0) (hlen : xs.length = p + 1)
    (ha : xs[p]? = some a) : sibling xs p = a := by
  have hnone : xs[p + 1]? = none := List.getElem?_eq_none (by omega)
  simp [sibling, hp, List.getD_eq_getElem?_getD, hnone, ha]

/-- A node and its sibling hash to their parent, the left one first. -/
theorem getElem?_pairUp_half {xs : List α} {p : ℕ} {a : α} (ha : xs[p]? = some a) :
    (pairUp H xs)[p / 2]? =
      some (if p % 2 = 1 then H (sibling xs p) a else H a (sibling xs p)) := by
  have hp : p < xs.length := (List.getElem?_eq_some_iff.mp ha).1
  rcases Nat.mod_two_eq_zero_or_one p with heven | hodd
  · rw [if_neg (by omega)]
    by_cases hnext : p + 1 < xs.length
    · have hb : xs[p + 1]? = some xs[p + 1] := List.getElem?_eq_getElem hnext
      rw [sibling_of_even heven hb]
      exact getElem?_pairUp_pair H (by rwa [show 2 * (p / 2) = p by omega])
        (by rwa [show 2 * (p / 2) + 1 = p + 1 by omega])
    · rw [sibling_of_last heven (by omega) ha]
      exact getElem?_pairUp_last H (by rwa [show 2 * (p / 2) = p by omega]) (by omega)
  · rw [if_pos hodd]
    have hb : xs[p - 1]? = some xs[p - 1] := List.getElem?_eq_getElem (by omega)
    rw [sibling_of_odd hodd hb]
    exact getElem?_pairUp_pair H (by rwa [show 2 * (p / 2) = p - 1 by omega])
      (by rwa [show 2 * (p / 2) + 1 = p by omega])

/-- The branch of position `p`: its sibling on each level until one element is left. -/
def merkleBranch : List α → ℕ → List α
  | [], _ => []
  | [_], _ => []
  | a :: b :: rest, p => sibling (a :: b :: rest) p :: merkleBranch (pairUp H (a :: b :: rest)) (p / 2)
termination_by xs => xs.length
decreasing_by simp only [length_pairUp, List.length_cons]; omega

theorem merkleBranch_of_two_le {xs : List α} (h : 2 ≤ xs.length) (p : ℕ) :
    merkleBranch H xs p = sibling xs p :: merkleBranch H (pairUp H xs) (p / 2) := by
  match xs, h with
  | a :: b :: rest, _ => rw [merkleBranch]

/-- The siblings of `p` on the levels below `k`. -/
def branchUpTo (xs : List α) (p k : ℕ) : List α :=
  (List.range k).map fun j => sibling (level H j xs) (p / 2 ^ j)

@[simp] theorem branchUpTo_zero (xs : List α) (p : ℕ) : branchUpTo H xs p 0 = [] := rfl

theorem branchUpTo_succ (xs : List α) (p k : ℕ) :
    branchUpTo H xs p (k + 1) = branchUpTo H xs p k ++ [sibling (level H k xs) (p / 2 ^ k)] := by
  simp [branchUpTo, List.range_succ]

/-- The branch lists the siblings on every level below the first of length one. -/
theorem merkleBranch_eq_branchUpTo (l : ℕ) : ∀ {xs : List α} (p : ℕ),
    (level H l xs).length = 1 → (∀ i < l, 2 ≤ (level H i xs).length) →
      merkleBranch H xs p = branchUpTo H xs p l := by
  induction l with
  | zero =>
    intro xs p hone _
    obtain ⟨a, rfl⟩ := List.length_eq_one_iff.mp hone
    simp [merkleBranch]
  | succ l ih =>
    intro xs p hone hbig
    rw [level_succ_pairUp] at hone
    have hrest : merkleBranch H (pairUp H xs) (p / 2) = branchUpTo H (pairUp H xs) (p / 2) l :=
      ih (p / 2) hone fun i hi => by
        rw [← level_succ_pairUp]
        exact hbig (i + 1) (by omega)
    rw [merkleBranch_of_two_le H (show 2 ≤ xs.length from hbig 0 (Nat.zero_lt_succ l)), hrest]
    simp only [branchUpTo, List.range_succ_eq_map, List.map_cons, List.map_map]
    congr 1
    · simp
    · refine List.map_congr_left fun j _ => ?_
      simp only [Function.comp_apply, ← level_succ_pairUp, Nat.div_div_eq_div_mul, ← pow_succ']

end Branch

/-! ## A binary counter of leaves -/

/-- The test `n & (1 << l)` of a bit. -/
theorem and_one_shiftLeft_eq_zero_iff (n l : ℕ) : n &&& 1 <<< l = 0 ↔ n / 2 ^ l % 2 = 0 := by
  rw [Nat.one_shiftLeft, Nat.and_two_pow, Nat.testBit, Nat.shiftRight_eq_div_pow]
  rcases Nat.mod_two_eq_zero_or_one (n / 2 ^ l) with h | h <;> simp [h]

theorem div_pow_succ (n l : ℕ) : n / 2 ^ (l + 1) = n / 2 ^ l / 2 := by
  rw [Nat.div_div_eq_div_mul, pow_succ]

/-- Below an odd number the quotients by `2^k`, `k ≥ 1`, are the same. -/
theorem pred_div_pow_of_odd {y k : ℕ} (hy : y % 2 = 1) (hk : 0 < k) : (y - 1) / 2 ^ k = y / 2 ^ k := by
  obtain ⟨k, rfl⟩ : ∃ k', k = k' + 1 := ⟨k - 1, by omega⟩
  rw [pow_succ', ← Nat.div_div_eq_div_mul, ← Nat.div_div_eq_div_mul]
  congr 1
  omega

/-- A count of `x` nodes of level `l`, read on level `l`. -/
theorem mul_pow_div (x l : ℕ) : x * 2 ^ l / 2 ^ l = x :=
  Nat.mul_div_cancel x (Nat.two_pow_pos l)

/-- A count of `m ≠ 1` nodes of level `l` is not one node. -/
theorem mul_pow_ne_pow {m : ℕ} (hm : m ≠ 1) (l : ℕ) : m * 2 ^ l ≠ 2 ^ l := fun h =>
  hm (Nat.eq_of_mul_eq_mul_right (Nat.two_pow_pos l) (h.trans (Nat.one_mul _).symm))

/-- A count of an even number of nodes of level `l` is half as many of level `l + 1`. -/
theorem mul_pow_of_even {x : ℕ} (hx : x % 2 = 0) (l : ℕ) : x * 2 ^ l = x / 2 * 2 ^ (l + 1) := by
  rw [pow_succ, ← Nat.mul_assoc, Nat.mul_right_comm, Nat.div_mul_cancel (Nat.dvd_of_mod_eq_zero hx)]

/-- Below a count of `x` nodes of level `l` and within one node of it, the count
holds `x - 1` whole nodes. -/
theorem div_pow_eq_pred {x l s : ℕ} (hlt : s < x * 2 ^ l) (hle : x * 2 ^ l ≤ s + 2 ^ l) :
    s / 2 ^ l = x - 1 := by
  have hx : 0 < x := Nat.pos_of_ne_zero (by rintro rfl; simp at hlt)
  apply Nat.div_eq_of_lt_le
  · rw [Nat.sub_mul, Nat.one_mul]
    omega
  · rwa [Nat.sub_add_cancel hx]

/-- Above a level on which `p` lies in the last whole node of a count `c`, no level
has `p` in the node before `c / 2^l`. -/
theorem level_unique {c p a b : ℕ} (hca : c / 2 ^ a % 2 = 1) (hpa : p / 2 ^ a + 1 = c / 2 ^ a)
    (hpb : p / 2 ^ b + 1 = c / 2 ^ b) (hab : a ≤ b) : a = b := by
  by_contra hne
  have hk : 0 < b - a := by omega
  have hsplit : ∀ n, n / 2 ^ b = n / 2 ^ a / 2 ^ (b - a) := fun n => by
    rw [Nat.div_div_eq_div_mul, ← pow_add, Nat.add_sub_cancel' hab]
  have hsame : p / 2 ^ b = c / 2 ^ b := by
    rw [hsplit p, hsplit c, Nat.eq_sub_of_add_eq hpa, pred_div_pow_of_odd hca hk]
  rw [hsame] at hpb
  exact absurd hpb (Nat.succ_ne_self _)

/-- Below the lowest set bit the count is a whole number of nodes. -/
theorem div_pow_mul_of_even {n : ℕ} :
    ∀ l, (∀ i < l, n / 2 ^ i % 2 = 0) → n / 2 ^ l * 2 ^ l = n := by
  intro l
  induction l with
  | zero => simp
  | succ l ih =>
    intro heven
    rw [div_pow_succ, ← mul_pow_of_even (heven l (Nat.lt_succ_self l)),
      ih fun i hi => heven i (by omega)]

/-- Levels over a count with no set bit below `l` halve it. -/
theorem length_level_of_even {xs : List α} :
    ∀ l, (∀ i < l, xs.length / 2 ^ i % 2 = 0) → (level H l xs).length = xs.length / 2 ^ l := by
  intro l
  induction l with
  | zero => simp
  | succ l ih =>
    intro heven
    have hl := heven l (Nat.lt_succ_self l)
    rw [length_level_succ, ih fun i hi => heven i (by omega), div_pow_succ]
    omega

/-- A count `x * 2^t` one past `c`, with `x` odd, reads the same as `c` above level `t`. -/
theorem succ_div_pow_of_lt {c x t l : ℕ} (hc : x * 2 ^ t = c + 1) (hx : x % 2 = 1) (hl : t < l) :
    (c + 1) / 2 ^ l = c / 2 ^ l := by
  obtain ⟨k, rfl⟩ : ∃ k, l = t + (k + 1) := ⟨l - t - 1, by omega⟩
  have hsplit : ∀ m, m / 2 ^ (t + (k + 1)) = m / 2 ^ t / 2 ^ (k + 1) := fun m => by
    rw [Nat.div_div_eq_div_mul, ← pow_add]
  have hone := Nat.one_le_two_pow (n := t)
  rw [hsplit, hsplit, ← hc, mul_pow_div, div_pow_eq_pred (s := c) (l := t) (x := x) (by omega)
    (by omega), pred_div_pow_of_odd hx (by omega : 0 < k + 1)]

/-- A count `x * 2^t` has no set bit below `t`. -/
theorem mul_pow_div_even_of_lt {x t l : ℕ} (hl : l < t) : x * 2 ^ t / 2 ^ l % 2 = 0 := by
  obtain ⟨k, rfl⟩ : ∃ k, t = l + (k + 1) := ⟨t - l - 1, by omega⟩
  rw [pow_add, Nat.mul_comm (2 ^ l), ← Nat.mul_assoc, mul_pow_div, pow_succ, ← Nat.mul_assoc]
  exact Nat.mul_mod_left _ _

/-- A whole pair of nodes of level `l` fills a count `x * 2^t` with `x` odd only below `t`. -/
theorem lt_of_mul_pow_eq {a l t x : ℕ} (h : (2 * a + 2) * 2 ^ l = x * 2 ^ t) (hx : x % 2 = 1) :
    l < t := by
  by_contra hle
  obtain ⟨k, rfl⟩ : ∃ k, l = t + k := ⟨l - t, by omega⟩
  have hcancel : (2 * a + 2) * 2 ^ k = x := by
    apply Nat.eq_of_mul_eq_mul_right (Nat.two_pow_pos t)
    rw [← h, pow_add, Nat.mul_assoc, Nat.mul_comm (2 ^ k)]
  have heven : x = 2 * ((a + 1) * 2 ^ k) := by
    rw [← hcancel, ← Nat.mul_assoc, show 2 * a + 2 = 2 * (a + 1) by omega]
  omega

end MerkleTree
