import Mathlib

/-!
# Maps as partial functions

A `std::map`, `std::unordered_map` or key-value database is its lookup
function: `m k = none` when `k` is absent. `insert` and `erase` are the writes;
`subscript` is `operator[]`, which returns the stored value and, on a miss,
inserts and returns the value type's default. Equality of two maps is
`funext` over the keys.

A first-come registry (`firstCome`) registers a value under a key only while
the key is free; `eraseAll` erases a list of keys. Erasing the keys of a batch
of registrations undoes the batch only where none of its keys was taken
before it (`eraseAll_firstCome`). A batch of insertions (`insertAll`) is undone
the same way: erasing its keys gives what erasing them before it gives
(`eraseAll_insertAll`).

A memo table of a function `f` agrees with it when every value it holds is `f`
of its key (`Agrees`); writing `f k` under `k` keeps that, and a hit then reads
`f k` (`Agrees.subscript`).

A `std::map` iterated in key order is an association list sorted by the key
order (`SortedMap`). Its lookup is a `FunMap`, and an assignment through
`operator[]` is `FunMap.insert` of it (`find?_insert`); what its values measure
changes by the new value less the one it replaces (`sum_insert`), and erasing a
prefix, as a loop over `begin()` does, leaves each key's value or nothing
(`find?_drop`).
-/

namespace FunMap

variable {κ ν : Type} [DecidableEq κ]

/-- `m[k] = v`. -/
def insert (m : κ → Option ν) (k : κ) (v : ν) : κ → Option ν :=
  Function.update m k (some v)

/-- `m.erase(k)`. -/
def erase (m : κ → Option ν) (k : κ) : κ → Option ν :=
  Function.update m k none

/-- `m[k]` as an rvalue: the stored value, or `default` inserted on a miss. -/
def subscript (m : κ → Option ν) (k : κ) (default : ν) : ν × (κ → Option ν) :=
  match m k with
  | some v => (v, m)
  | none => (default, insert m k default)

@[simp] theorem insert_same (m : κ → Option ν) (k : κ) (v : ν) : insert m k v k = some v := by
  simp [insert]

@[simp] theorem insert_other (m : κ → Option ν) {k k' : κ} (v : ν) (h : k' ≠ k) :
    insert m k v k' = m k' := by
  simp [insert, h]

@[simp] theorem erase_same (m : κ → Option ν) (k : κ) : erase m k k = none := by
  simp [erase]

@[simp] theorem erase_other (m : κ → Option ν) {k k' : κ} (h : k' ≠ k) :
    erase m k k' = m k' := by
  simp [erase, h]

theorem subscript_of_some {m : κ → Option ν} {k : κ} {v : ν} (default : ν) (h : m k = some v) :
    subscript m k default = (v, m) := by
  simp [subscript, h]

theorem subscript_of_none {m : κ → Option ν} {k : κ} (default : ν) (h : m k = none) :
    subscript m k default = (default, insert m k default) := by
  simp [subscript, h]

/-- `operator[]` leaves the map unchanged exactly when the key was present. -/
theorem subscript_snd_eq_iff (m : κ → Option ν) (k : κ) (default : ν) :
    (subscript m k default).2 = m ↔ (m k).isSome := by
  cases h : m k with
  | some v => simp [subscript_of_some default h]
  | none =>
    rw [subscript_of_none default h]
    simp only [Option.isSome_none, Bool.false_eq_true, iff_false]
    intro he
    have := congrFun he k
    simp [h] at this

/-- Erasing an absent key changes nothing. -/
theorem erase_of_none {m : κ → Option ν} {k : κ} (h : m k = none) : erase m k = m := by
  funext k'
  by_cases hk : k' = k
  · subst hk
    simp [h]
  · simp [hk]

/-- Erasing a key that was just inserted into a map without it restores the map. -/
theorem erase_insert_of_none {m : κ → Option ν} {k : κ} (v : ν) (h : m k = none) :
    erase (insert m k v) k = m := by
  funext k'
  by_cases hk : k' = k
  · subst hk
    simp [h]
  · simp [hk]

/-! ## First-come registries -/

/-- Register `v` under `k` unless `k` is taken. -/
def register (m : κ → Option ν) (k : κ) (v : ν) : κ → Option ν :=
  if (m k).isSome then m else insert m k v

/-- The registrations `rs` applied in order: the first value for each free key wins. -/
def firstCome (m : κ → Option ν) (rs : List (κ × ν)) : κ → Option ν :=
  rs.foldl (fun m r => register m r.1 r.2) m

/-- Erase each of `ks`. -/
def eraseAll (m : κ → Option ν) (ks : List κ) : κ → Option ν :=
  ks.foldl erase m

@[simp] theorem firstCome_nil (m : κ → Option ν) : firstCome m [] = m := rfl

theorem firstCome_cons (m : κ → Option ν) (k : κ) (v : ν) (rs : List (κ × ν)) :
    firstCome m ((k, v) :: rs) = firstCome (register m k v) rs := rfl

theorem firstCome_append (m : κ → Option ν) (rs rs' : List (κ × ν)) :
    firstCome m (rs ++ rs') = firstCome (firstCome m rs) rs' := by
  simp [firstCome, List.foldl_append]

/-- A registration changes its own key only. -/
theorem register_other (m : κ → Option ν) {k k' : κ} (v : ν) (h : k' ≠ k) :
    register m k v k' = m k' := by
  unfold register
  split
  · rfl
  · exact insert_other m v h

/-- A taken key keeps its value. -/
theorem register_of_isSome {m : κ → Option ν} {k' : κ} (k : κ) (v : ν) (h : (m k').isSome) :
    register m k v k' = m k' := by
  by_cases hk : k' = k
  · subst hk
    simp [register, h]
  · exact register_other m v hk

/-- Registrations leave every key they do not name as it was. -/
theorem firstCome_of_not_mem (m : κ → Option ν) {rs : List (κ × ν)} {k : κ}
    (h : k ∉ rs.map Prod.fst) : firstCome m rs k = m k := by
  induction rs generalizing m with
  | nil => rfl
  | cons r rs ih =>
    simp only [List.map_cons, List.mem_cons, not_or] at h
    rw [firstCome, List.foldl_cons, ← firstCome, ih _ h.2, register_other m r.2 h.1]

/-- Registrations never change a taken key. -/
theorem firstCome_of_isSome {m : κ → Option ν} (rs : List (κ × ν)) {k : κ}
    (h : (m k).isSome) : firstCome m rs k = m k := by
  induction rs generalizing m with
  | nil => rfl
  | cons r rs ih =>
    have hreg : register m r.1 r.2 k = m k := register_of_isSome r.1 r.2 h
    rw [firstCome, List.foldl_cons, ← firstCome, ih (hreg ▸ h), hreg]

/-- Erasing a list of keys empties exactly those keys. -/
theorem eraseAll_apply (m : κ → Option ν) (ks : List κ) (k : κ) :
    eraseAll m ks k = if k ∈ ks then none else m k := by
  induction ks generalizing m with
  | nil => simp [eraseAll]
  | cons k' ks ih =>
    rw [eraseAll, List.foldl_cons, ← eraseAll, ih]
    by_cases hk : k = k'
    · subst hk
      simp
    · simp [hk]

/-- Erasing the keys of a batch of registrations gives the same as erasing them
before it: a key the batch names is gone either way, whether the batch registered
it or found it taken. -/
theorem eraseAll_firstCome (m : κ → Option ν) (rs : List (κ × ν)) {ks : List κ}
    (hks : ∀ k ∈ rs.map Prod.fst, k ∈ ks) :
    eraseAll (firstCome m rs) ks = eraseAll m ks := by
  funext k
  rw [eraseAll_apply, eraseAll_apply]
  by_cases hk : k ∈ ks
  · simp [hk]
  · rw [if_neg hk, if_neg hk, firstCome_of_not_mem m (fun h => hk (hks k h))]

/-- Erasing keys that are absent changes nothing. -/
theorem eraseAll_of_forall_none {m : κ → Option ν} {ks : List κ} (h : ∀ k ∈ ks, m k = none) :
    eraseAll m ks = m := by
  funext k
  rw [eraseAll_apply]
  split
  · next hk => exact (h k hk).symm
  · rfl

/-! ## Batches of insertions -/

/-- Insert each of `ps` in order. -/
def insertAll (m : κ → Option ν) (ps : List (κ × ν)) : κ → Option ν :=
  ps.foldl (fun m p => insert m p.1 p.2) m

@[simp] theorem insertAll_nil (m : κ → Option ν) : insertAll m [] = m := rfl

theorem insertAll_cons (m : κ → Option ν) (p : κ × ν) (ps : List (κ × ν)) :
    insertAll m (p :: ps) = insertAll (insert m p.1 p.2) ps := rfl

/-- Insertions leave every key they do not name as it was. -/
theorem insertAll_of_not_mem (m : κ → Option ν) {ps : List (κ × ν)} {k : κ}
    (h : k ∉ ps.map Prod.fst) : insertAll m ps k = m k := by
  induction ps generalizing m with
  | nil => rfl
  | cons p ps ih =>
    simp only [List.map_cons, List.mem_cons, not_or] at h
    rw [insertAll_cons, ih _ h.2, insert_other m p.2 h.1]

/-- A key the batch names holds the value every insertion under it gives. -/
theorem insertAll_eq_some (m : κ → Option ν) {ps : List (κ × ν)} {k : κ} {v : ν}
    (hk : k ∈ ps.map Prod.fst) (hv : ∀ p ∈ ps, p.1 = k → p.2 = v) : insertAll m ps k = some v := by
  induction ps generalizing m with
  | nil => simp at hk
  | cons p ps ih =>
    rw [insertAll_cons]
    by_cases hrest : k ∈ ps.map Prod.fst
    · exact ih _ hrest (fun q hq => hv q (List.mem_cons_of_mem p hq))
    · -- the last insertion under `k` is `p`
      have hp : p.1 = k := by
        simp only [List.map_cons, List.mem_cons] at hk
        exact (hk.resolve_right hrest).symm
      rw [insertAll_of_not_mem _ hrest, ← hp, insert_same, hv p (by simp) hp]

/-- With distinct keys, each inserted pair is found. -/
theorem insertAll_of_mem (m : κ → Option ν) {ps : List (κ × ν)} (hnd : (ps.map Prod.fst).Nodup)
    {p : κ × ν} (hp : p ∈ ps) : insertAll m ps p.1 = some p.2 := by
  apply insertAll_eq_some m (List.mem_map_of_mem hp)
  intro q hq hqk
  exact (List.inj_on_of_nodup_map hnd hq hp hqk ▸ rfl)

/-- Erasing the keys of a batch of insertions gives the same as erasing them before it. -/
theorem eraseAll_insertAll (m : κ → Option ν) (ps : List (κ × ν)) :
    eraseAll (insertAll m ps) (ps.map Prod.fst) = eraseAll m (ps.map Prod.fst) := by
  funext k
  rw [eraseAll_apply, eraseAll_apply]
  by_cases hk : k ∈ ps.map Prod.fst
  · simp [hk]
  · rw [if_neg hk, if_neg hk, insertAll_of_not_mem m hk]

/-! ## Memo tables -/

/-- Every value the table holds is `f` of its key. -/
def Agrees (f : κ → ν) (m : κ → Option ν) : Prop := ∀ k v, m k = some v → v = f k

omit [DecidableEq κ] in
theorem agrees_empty (f : κ → ν) : Agrees f (fun _ => none) := by
  intro k v h
  cases h

theorem Agrees.insert {f : κ → ν} {m : κ → Option ν} (h : Agrees f m) (k : κ) :
    Agrees f (insert m k (f k)) := by
  intro k' v hv
  by_cases hk : k' = k
  · subst hk
    simp only [insert_same, Option.some.injEq] at hv
    exact hv.symm
  · rw [insert_other m _ hk] at hv
    exact h k' v hv

/-- A hit in an agreeing table reads `f k` and leaves the table as it was. -/
theorem Agrees.subscript {f : κ → ν} {m : κ → Option ν} (h : Agrees f m) {k : κ}
    (hk : (m k).isSome) (default : ν) : subscript m k default = (f k, m) := by
  obtain ⟨v, hv⟩ := Option.isSome_iff_exists.1 hk
  rw [subscript_of_some default hv, h k v hv]

end FunMap

/-! ## Ordered maps -/

namespace SortedMap

variable {κ ν : Type} [DecidableEq κ] (ord : κ → Nat)

/-- The entries in strictly increasing key order. -/
def Sorted (l : List (κ × ν)) : Prop := l.Pairwise fun a b => ord a.1 < ord b.1

/-- `m[k] = v` on a `std::map` whose keys compare by `ord`. -/
def insert (k : κ) (v : ν) : List (κ × ν) → List (κ × ν)
  | [] => [(k, v)]
  | (k', v') :: rest =>
    if ord k < ord k' then (k, v) :: (k', v') :: rest
    else if k = k' then (k, v) :: rest
    else (k', v') :: insert k v rest

/-- `m.find(k)`. -/
def find? (k : κ) : List (κ × ν) → Option ν
  | [] => none
  | (k', v) :: rest => if k = k' then some v else find? k rest

variable {ord}

omit [DecidableEq κ] in
theorem Sorted.of_cons {e : κ × ν} {l : List (κ × ν)} (h : Sorted ord (e :: l)) : Sorted ord l :=
  (List.pairwise_cons.mp h).2

omit [DecidableEq κ] in
theorem Sorted.drop {l : List (κ × ν)} (h : Sorted ord l) (n : Nat) : Sorted ord (l.drop n) :=
  List.Pairwise.sublist (List.drop_sublist n l) h

theorem mem_insert {k : κ} {v : ν} {e : κ × ν} :
    ∀ {l : List (κ × ν)}, e ∈ insert ord k v l → e = (k, v) ∨ e ∈ l
  | [], h => .inl (List.mem_singleton.mp h)
  | (k', v') :: rest, h => by
    unfold insert at h
    split_ifs at h with hlt heq
    · rcases List.mem_cons.mp h with h | h
      · exact .inl h
      · exact .inr h
    · rcases List.mem_cons.mp h with h | h
      · exact .inl h
      · exact .inr (List.mem_cons_of_mem _ h)
    · rcases List.mem_cons.mp h with h | h
      · exact .inr (h ▸ List.mem_cons_self)
      · rcases mem_insert h with h | h
        · exact .inl h
        · exact .inr (List.mem_cons_of_mem _ h)

/-- With `ord` injective, an assignment keeps the keys in order. -/
theorem sorted_insert (hord : Function.Injective ord) (k : κ) (v : ν) :
    ∀ {l : List (κ × ν)}, Sorted ord l → Sorted ord (insert ord k v l)
  | [], _ => List.pairwise_singleton _ _
  | (k', v') :: rest, hl => by
    have hcons := List.pairwise_cons.mp hl
    unfold insert
    split_ifs with hlt heq
    · refine List.pairwise_cons.mpr ⟨fun e he => ?_, hl⟩
      rcases List.mem_cons.mp he with rfl | he
      · exact hlt
      · exact lt_trans hlt (hcons.1 e he)
    · subst heq
      exact List.pairwise_cons.mpr ⟨hcons.1, hcons.2⟩
    · -- `k` goes after `k'`, whose order is below it
      have hgt : ord k' < ord k :=
        lt_of_le_of_ne (not_lt.mp hlt) (fun h => heq (hord h).symm)
      refine List.pairwise_cons.mpr ⟨fun e he => ?_, sorted_insert hord k v hcons.2⟩
      rcases mem_insert he with rfl | he
      · exact hgt
      · exact hcons.1 e he

theorem find?_eq_none {k : κ} : ∀ {l : List (κ × ν)}, (∀ e ∈ l, e.1 ≠ k) → find? k l = none
  | [], _ => rfl
  | (k', v') :: rest, h => by
    have hne : k ≠ k' := fun hk => h (k', v') List.mem_cons_self hk.symm
    rw [find?, if_neg hne]
    exact find?_eq_none fun e he => h e (List.mem_cons_of_mem _ he)

theorem mem_of_find?_eq_some {k : κ} {v : ν} :
    ∀ {l : List (κ × ν)}, find? k l = some v → (k, v) ∈ l
  | [], h => by cases h
  | (k', v') :: rest, h => by
    unfold find? at h
    split_ifs at h with hk
    · cases h
      subst hk
      exact List.mem_cons_self
    · exact List.mem_cons_of_mem _ (mem_of_find?_eq_some h)

/-- An assignment is `FunMap.insert` of the lookup. -/
theorem find?_insert (k : κ) (v : ν) :
    ∀ (l : List (κ × ν)), (find? · (insert ord k v l)) = FunMap.insert (find? · l) k v
  | [] => by
    funext k''
    by_cases hk : k'' = k
    · subst hk
      simp [insert, find?]
    · simp [insert, find?, hk]
  | (k', v') :: rest => by
    funext k''
    unfold insert
    split_ifs with hlt heq
    · by_cases hk : k'' = k
      · subst hk
        simp [find?]
      · simp [find?, hk]
    · subst heq
      by_cases hk : k'' = k
      · subst hk
        simp [find?]
      · simp [find?, hk]
    · have ih := congrFun (find?_insert k v rest) k''
      by_cases hk : k'' = k
      · subst hk
        simp only [find?, if_neg heq, ih, FunMap.insert_same]
      · rw [FunMap.insert_other _ _ hk]
        by_cases hk' : k'' = k'
        · subst hk'
          simp [find?]
        · simp only [find?, if_neg hk', ih, FunMap.insert_other _ _ hk]

/-- What the values measure after an assignment: the new value's measure in
place of the one it replaces. -/
theorem sum_insert (f : ν → Nat) (k : κ) (v : ν) :
    ∀ {l : List (κ × ν)}, Sorted ord l →
      ((insert ord k v l).map (f ·.2)).sum + ((find? k l).map f).getD 0 =
        (l.map (f ·.2)).sum + f v
  | [], _ => by simp [insert, find?]
  | (k', v') :: rest, hl => by
    have hcons := List.pairwise_cons.mp hl
    unfold insert
    split_ifs with hlt heq
    · -- `k` sorts first, so the map does not hold it
      have hnone : find? k ((k', v') :: rest) = none := find?_eq_none fun e he => by
        rintro rfl
        rcases List.mem_cons.mp he with rfl | he
        · exact lt_irrefl _ hlt
        · exact lt_asymm hlt (hcons.1 e he)
      rw [hnone]
      simp only [List.map_cons, List.sum_cons, Option.map_none, Option.getD_none]
      omega
    · subst heq
      simp only [find?, ↓reduceIte, List.map_cons, List.sum_cons, Option.map_some,
        Option.getD_some]
      omega
    · have ih := sum_insert f k v hcons.2
      simp only [find?, if_neg heq, List.map_cons, List.sum_cons]
      omega

theorem find?_append (k : κ) (a b : List (κ × ν)) :
    find? k (a ++ b) = (find? k a).or (find? k b) := by
  induction a with
  | nil => rfl
  | cons e a ih =>
    obtain ⟨k', v'⟩ := e
    by_cases hk : k = k'
    · simp [find?, hk]
    · simp [find?, hk, ih]

/-- Erasing a prefix of a sorted map leaves each key with its value or with
nothing. -/
theorem find?_drop {l : List (κ × ν)} (hl : Sorted ord l) (n : Nat) (k : κ) :
    find? k (l.drop n) = none ∨ find? k (l.drop n) = find? k l := by
  have hsplit := congrArg (find? k) (List.take_append_drop n l)
  rw [find?_append] at hsplit
  cases ht : find? k (l.take n) with
  | none =>
    rw [ht, Option.none_or] at hsplit
    exact .inr hsplit
  | some v =>
    -- the key is in the prefix, so every later key is above it
    left
    have hmem := mem_of_find?_eq_some ht
    have hsorted : Sorted ord (l.take n ++ l.drop n) := by rwa [List.take_append_drop]
    refine find?_eq_none fun e he hek => ?_
    have hlt := (List.pairwise_append.mp hsorted).2.2 (k, v) hmem e he
    rw [hek] at hlt
    exact lt_irrefl _ hlt

end SortedMap
