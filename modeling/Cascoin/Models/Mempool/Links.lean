import Cascoin.Models.Mempool.TxMemPool

/-!
# The links of the mempool

What the loops over a `setEntries` do, and what the links between the entries say. The parent
links are a relation on the hashes of `mapTx`; an entry's in-pool ancestors are what the parent
links reach from it in one or more steps (`CTxMemPool.ancestors`), its descendants the entries
that reach it (`CTxMemPool.descendants`). `LinksWF` is what `check` asserts of the links apart
from the inputs: nothing is linked outside `mapTx`, the children are the converse of the parents,
and no entry is its own ancestor.

Under it `CalculateMemPoolAncestors` and `CalculateDescendants` compute those sets
(`CalculateMemPoolAncestors_eq`, `CalculateDescendants_eq`), and from the inputs of an entry not
yet in the pool the ancestors it will have (`CalculateMemPoolAncestors_search`).
-/

namespace Cascoin

namespace Mempool

open Closure

/-! ## Loops over a set -/

theorem mem_sort {s : Finset Uint256} {a : Uint256} : a ∈ s.sort memcmpLE ↔ a ∈ s :=
  Finset.mem_sort memcmpLE

theorem nodup_sort (s : Finset Uint256) : (s.sort memcmpLE).Nodup := Finset.sort_nodup s memcmpLE

/-- `*s.begin()` is a member of a nonempty set. -/
theorem isChoice_setBegin : IsChoice setBegin where
  mem s a h := mem_sort.mp (List.mem_of_mem_head? h)
  empty s h := by
    rw [setBegin, List.head?_eq_none_iff] at h
    have hcard := Finset.length_sort memcmpLE (s := s)
    rw [h, List.length_nil] at hcard
    exact Finset.card_eq_zero.mp hcard.symm

namespace CTxMemPool

variable (pool : CTxMemPool)

theorem foldl_modify (f : CTxMemPoolEntry → CTxMemPoolEntry) :
    ∀ (L : List Uint256) (pool : CTxMemPool), L.foldl (fun p a => p.modify a f) pool =
      { pool with entry := L.foldl (fun m a => Function.update m a (f (m a))) pool.entry }
  | [], _ => rfl
  | a :: L, pool => by
    rw [List.foldl_cons, foldl_modify f L]
    rfl

/-- Modifying every member of a set modifies each once. -/
theorem forEach_modify (S : Finset Uint256) (f : CTxMemPoolEntry → CTxMemPoolEntry) :
    forEach S (fun a p => p.modify a f) pool =
      { pool with entry := fun y => if y ∈ S then f (pool.entry y) else pool.entry y } := by
  rw [forEach, foldl_modify,
    foldl_update_of_nodup (fun _ v => f v) _ (nodup_sort S)]
  simp only [mem_sort]

theorem foldl_links (φ : Uint256 → TxLinks → TxLinks) :
    ∀ (L : List Uint256) (pool : CTxMemPool),
      L.foldl (fun p a => { p with mapLinks := Function.update p.mapLinks a (φ a (p.mapLinks a)) })
          pool =
        { pool with mapLinks := L.foldl (fun m a => Function.update m a (φ a (m a))) pool.mapLinks }
  | [], _ => rfl
  | a :: L, pool => by
    rw [List.foldl_cons, foldl_links φ L]
    rfl

/-- Rewriting the links of every member of a set rewrites each member's once. -/
theorem forEach_links (φ : Uint256 → TxLinks → TxLinks) (S : Finset Uint256) :
    forEach S (fun a p => { p with mapLinks := Function.update p.mapLinks a (φ a (p.mapLinks a)) })
        pool =
      { pool with mapLinks := fun y => if y ∈ S then φ y (pool.mapLinks y) else pool.mapLinks y } := by
  rw [forEach, foldl_links, foldl_update_of_nodup φ _ (nodup_sort S)]
  simp only [mem_sort]

/-- Updating a child link of every member of a set updates each member's children once. -/
theorem forEach_UpdateChild (P : Finset Uint256) (it : Uint256) (add : Bool) :
    forEach P (fun p q => q.UpdateChild p it add) pool =
      { pool with mapLinks := fun y => if y ∈ P then
          { pool.mapLinks y with children := (if add then insert it (pool.mapLinks y).children
              else (pool.mapLinks y).children.erase it) }
        else pool.mapLinks y } :=
  forEach_links pool (fun _ l => { l with
    children := (if add then insert it l.children else l.children.erase it) }) P

/-- Updating a parent link of every member of a set updates each member's parents once. -/
theorem forEach_UpdateParent (C : Finset Uint256) (it : Uint256) (add : Bool) :
    forEach C (fun c q => q.UpdateParent c it add) pool =
      { pool with mapLinks := fun y => if y ∈ C then
          { pool.mapLinks y with parents := (if add then insert it (pool.mapLinks y).parents
              else (pool.mapLinks y).parents.erase it) }
        else pool.mapLinks y } :=
  forEach_links pool (fun _ l => { l with
    parents := (if add then insert it l.parents else l.parents.erase it) }) C

theorem foldl_UpdateParent_self (hash : Uint256) :
    ∀ (L : List Uint256) (pool : CTxMemPool),
      L.foldl (fun p phash => if phash ∈ p.mapTx then p.UpdateParent hash phash true else p) pool =
        { pool with
          mapLinks := Function.update pool.mapLinks hash
            ⟨(pool.mapLinks hash).parents ∪ L.toFinset.filter (· ∈ pool.mapTx),
              (pool.mapLinks hash).children⟩ }
  | [], pool => by
    simp only [List.foldl_nil, List.toFinset_nil, Finset.filter_empty, Finset.union_empty,
      Function.update_eq_self]
  | a :: L, pool => by
    rw [List.foldl_cons, List.toFinset_cons, Finset.filter_insert]
    by_cases ha : a ∈ pool.mapTx
    · rw [if_pos ha, foldl_UpdateParent_self hash L, if_pos ha]
      simp only [UpdateParent, if_true, Function.update_self,
        Function.update_idem, Finset.insert_union, Finset.union_insert]
    · rw [if_neg ha, foldl_UpdateParent_self hash L, if_neg ha]

/-- `addUnchecked`'s loop over the parent hashes links every one in `mapTx` as a parent. -/
theorem forEach_UpdateParent_self (T : Finset Uint256) (hash : Uint256) :
    forEach T (fun phash p => if phash ∈ p.mapTx then p.UpdateParent hash phash true else p) pool =
      { pool with
        mapLinks := Function.update pool.mapLinks hash
          ⟨(pool.mapLinks hash).parents ∪ T.filter (· ∈ pool.mapTx),
            (pool.mapLinks hash).children⟩ } := by
  rw [forEach, foldl_UpdateParent_self, Finset.sort_toFinset]

/-! ## Ancestors and descendants -/

/-- The in-pool ancestors of an entry: what the parent links reach from it. -/
noncomputable def ancestors (x : Uint256) : Finset Uint256 :=
  @Finset.filter _ (Above pool.GetMemPoolParents x) (Classical.decPred _) pool.mapTx

/-- The in-pool descendants of an entry: what reaches it along the parent links. -/
noncomputable def descendants (x : Uint256) : Finset Uint256 :=
  @Finset.filter _ (fun z => Above pool.GetMemPoolParents z x) (Classical.decPred _) pool.mapTx

section Congr

variable (E : Uint256 → CTxMemPoolEntry) (N : COutPoint → Option Uint256) (D : Uint256 → Option ℤ)
  (S : ℤ) (it : Uint256) (f : CTxMemPoolEntry → CTxMemPoolEntry)

@[simp] theorem modify_entry :
    (pool.modify it f).entry = Function.update pool.entry it (f (pool.entry it)) := rfl

/-! The walks and the closure sets read only `mapTx` and the links. -/

@[simp] theorem modify_CalculateDescendants :
    (pool.modify it f).CalculateDescendants = pool.CalculateDescendants := rfl

@[simp] theorem modify_CalculateMemPoolAncestors :
    (pool.modify it f).CalculateMemPoolAncestors = pool.CalculateMemPoolAncestors := rfl

@[simp] theorem modify_ancestors : (pool.modify it f).ancestors = pool.ancestors := rfl

@[simp] theorem modify_descendants : (pool.modify it f).descendants = pool.descendants := rfl

@[simp] theorem mk_CalculateDescendants :
    (⟨pool.mapTx, E, pool.mapLinks, N, D, S⟩ : CTxMemPool).CalculateDescendants =
      pool.CalculateDescendants := rfl

@[simp] theorem mk_CalculateMemPoolAncestors :
    (⟨pool.mapTx, E, pool.mapLinks, N, D, S⟩ : CTxMemPool).CalculateMemPoolAncestors =
      pool.CalculateMemPoolAncestors := rfl

@[simp] theorem mk_ancestors :
    (⟨pool.mapTx, E, pool.mapLinks, N, D, S⟩ : CTxMemPool).ancestors = pool.ancestors := rfl

@[simp] theorem mk_descendants :
    (⟨pool.mapTx, E, pool.mapLinks, N, D, S⟩ : CTxMemPool).descendants = pool.descendants := rfl

/-- `CalculateMemPoolAncestors` reads `mapTx` and the parent links only. -/
theorem CalculateMemPoolAncestors_congr {q : CTxMemPool} (hT : q.mapTx = pool.mapTx)
    (hP : q.GetMemPoolParents = pool.GetMemPoolParents) :
    q.CalculateMemPoolAncestors = pool.CalculateMemPoolAncestors := by
  funext e x b
  unfold CalculateMemPoolAncestors ancestorSearchStart
  rw [hT, hP]

end Congr

variable {pool}

theorem mem_ancestors {x a : Uint256} :
    a ∈ pool.ancestors x ↔ a ∈ pool.mapTx ∧ Above pool.GetMemPoolParents x a :=
  @Finset.mem_filter _ _ (Classical.decPred _) _ _

theorem mem_descendants {x z : Uint256} :
    z ∈ pool.descendants x ↔ z ∈ pool.mapTx ∧ Above pool.GetMemPoolParents z x :=
  @Finset.mem_filter _ _ (Classical.decPred _) _ _

/-- What `check` asserts of the links apart from the inputs. -/
structure LinksWF (pool : CTxMemPool) : Prop where
  /-- `mapLinks` holds nothing for a hash outside `mapTx`. -/
  out : ∀ x ∉ pool.mapTx, pool.mapLinks x = TxLinks.empty
  /-- The parents are entries of `mapTx`. -/
  parents_sub : ∀ x, pool.GetMemPoolParents x ⊆ pool.mapTx
  /-- The children are the converse of the parents. -/
  children_iff : ∀ x y, y ∈ pool.GetMemPoolChildren x ↔ x ∈ pool.GetMemPoolParents y
  /-- No entry is its own ancestor. -/
  acyclic : ∀ x, ¬ Above pool.GetMemPoolParents x x

namespace LinksWF

variable (hwf : LinksWF pool)
include hwf

/-- The links are well formed in any pool with the same entries and links. -/
theorem of_eq {q : CTxMemPool} (hT : q.mapTx = pool.mapTx) (hL : q.mapLinks = pool.mapLinks) :
    LinksWF q := by
  have hP : q.GetMemPoolParents = pool.GetMemPoolParents := funext fun x => by
    simp only [GetMemPoolParents, hL]
  have hC : q.GetMemPoolChildren = pool.GetMemPoolChildren := funext fun x => by
    simp only [GetMemPoolChildren, hL]
  refine ⟨fun x hx => ?_, fun x => ?_, fun x y => ?_, fun x => ?_⟩
  · rw [hL]
    exact hwf.out x (hT ▸ hx)
  · rw [hP, hT]
    exact hwf.parents_sub x
  · rw [hP, hC]
    exact hwf.children_iff x y
  · rw [hP]
    exact hwf.acyclic x

theorem parents_out {x : Uint256} (hx : x ∉ pool.mapTx) : pool.GetMemPoolParents x = ∅ := by
  rw [GetMemPoolParents, hwf.out x hx]
  rfl

theorem children_sub (x : Uint256) : pool.GetMemPoolChildren x ⊆ pool.mapTx := by
  intro y hy
  by_contra hyout
  have hxy := (hwf.children_iff x y).mp hy
  rw [hwf.parents_out hyout] at hxy
  exact Finset.notMem_empty x hxy

/-- What lies above an entry along the parent links is in `mapTx`. -/
theorem mem_of_above {x a : Uint256} (h : Above pool.GetMemPoolParents x a) : a ∈ pool.mapTx := by
  obtain ⟨w, -, hw⟩ := Relation.TransGen.tail'_iff.mp h
  exact hwf.parents_sub w hw

/-- An entry with an ancestor is in `mapTx`. -/
theorem mem_of_above_left {x a : Uint256} (h : Above pool.GetMemPoolParents x a) :
    x ∈ pool.mapTx := by
  obtain ⟨p, hp, -⟩ := above_iff_exists_reach.mp h
  by_contra hx
  rw [hwf.parents_out hx] at hp
  exact Finset.notMem_empty p hp

/-- Walking the children is walking the parents backwards. -/
theorem above_children_iff {x y : Uint256} :
    Above pool.GetMemPoolChildren x y ↔ Above pool.GetMemPoolParents y x :=
  above_converse_iff hwf.children_iff

theorem not_mem_ancestors_self (x : Uint256) : x ∉ pool.ancestors x :=
  fun h => hwf.acyclic x (mem_ancestors.mp h).2

theorem not_mem_descendants_self (x : Uint256) : x ∉ pool.descendants x :=
  fun h => hwf.acyclic x (mem_descendants.mp h).2

/-- No entry is both above and below another. -/
theorem not_mem_ancestors_of_mem_descendants {x y : Uint256} (hy : y ∈ pool.descendants x) :
    y ∉ pool.ancestors x :=
  fun ha => hwf.acyclic y ((mem_descendants.mp hy).2.trans (mem_ancestors.mp ha).2)

theorem mem_descendants_iff_mem_ancestors {x z : Uint256} :
    z ∈ pool.descendants x ↔ x ∈ pool.ancestors z := by
  rw [mem_descendants, mem_ancestors]
  exact ⟨fun ⟨_, h⟩ => ⟨hwf.mem_of_above h, h⟩, fun ⟨_, h⟩ => ⟨hwf.mem_of_above_left h, h⟩⟩

/-- `CalculateDescendants` adds to a set closed under the children an entry and its
descendants. -/
theorem mem_CalculateDescendants {x : Uint256} (hx : x ∈ pool.mapTx) {acc : Finset Uint256}
    (hacc : ∀ b ∈ acc, pool.GetMemPoolChildren b ⊆ acc) (y : Uint256) :
    y ∈ pool.CalculateDescendants x acc ↔ y ∈ acc ∨ y = x ∨ y ∈ pool.descendants x := by
  have hreach : ∀ {s}, Relation.ReflTransGen (fun b c => c ∈ pool.GetMemPoolChildren b) s y ↔
      y = s ∨ y ∈ pool.descendants s := by
    intro s
    rw [Relation.reflTransGen_iff_eq_or_transGen, mem_descendants]
    refine or_congr Iff.rfl ⟨fun h => ?_, fun h => ?_⟩
    · have h' := hwf.above_children_iff.mp h
      exact ⟨hwf.mem_of_above_left h', h'⟩
    · exact hwf.above_children_iff.mpr h.2
  unfold CalculateDescendants
  rw [mem_walk isChoice_setBegin (fun a _ => hwf.children_sub a) ?stage ?disj ?closed ?fuel y]
  · split_ifs with hxacc
    · -- `x` is already there, and with it all it leads to
      simp only [Finset.notMem_empty, false_and, exists_false, or_false]
      refine ⟨fun h => .inl h, fun h => ?_⟩
      rcases h with h | h
      · exact h
      · have hpath : Relation.ReflTransGen (fun b c => c ∈ pool.GetMemPoolChildren b) x y :=
          hreach.mpr h
        simpa using mem_or_reach_of_closed (S := ∅) (fun b hb => by simpa using hacc b hb)
          hxacc hpath
    · simp only [Finset.mem_singleton, exists_eq_left, hreach]
  case stage =>
    split_ifs
    · exact Finset.empty_subset _
    · exact Finset.singleton_subset_iff.mpr hx
  case disj =>
    split_ifs with hxacc
    · exact Finset.disjoint_empty_left _
    · exact Finset.disjoint_singleton_left.mpr hxacc
  case closed =>
    intro b hb
    exact (hacc b hb).trans Finset.subset_union_left
  case fuel => exact (Finset.card_le_card Finset.sdiff_subset)

/-- From nothing, `CalculateDescendants` computes the entry and its descendants. -/
theorem CalculateDescendants_eq {x : Uint256} (hx : x ∈ pool.mapTx) :
    pool.CalculateDescendants x ∅ = insert x (pool.descendants x) := by
  ext y
  rw [hwf.mem_CalculateDescendants hx (by simp), Finset.mem_insert]
  simp

/-- `CalculateMemPoolAncestors` of an entry of the pool, walking its stored parents, computes
its ancestors. -/
theorem CalculateMemPoolAncestors_eq (e : CTxMemPoolEntry) (x : Uint256) :
    pool.CalculateMemPoolAncestors e x false = pool.ancestors x := by
  ext a
  unfold CalculateMemPoolAncestors ancestorSearchStart
  rw [if_neg Bool.false_ne_true, mem_walk isChoice_setBegin (fun b _ => hwf.parents_sub b)
    (hwf.parents_sub x) (Finset.disjoint_empty_right _) (by simp)
    (Finset.card_le_card Finset.sdiff_subset) a, mem_ancestors, ← above_iff_exists_reach]
  simp only [Finset.notMem_empty, false_or]
  exact ⟨fun h => ⟨hwf.mem_of_above h, h⟩, fun h => h.2⟩

/-- `CalculateMemPoolAncestors` from the inputs: what the in-pool parents the inputs name reach
in zero or more steps. -/
theorem mem_CalculateMemPoolAncestors_search (e : CTxMemPoolEntry) (x a : Uint256) :
    a ∈ pool.CalculateMemPoolAncestors e x true ↔
      ∃ p ∈ pool.ancestorSearchStart e x true,
        Relation.ReflTransGen (fun b c => c ∈ pool.GetMemPoolParents b) p a := by
  unfold CalculateMemPoolAncestors
  rw [mem_walk isChoice_setBegin (fun b _ => hwf.parents_sub b) ?stage
    (Finset.disjoint_empty_right _) (by simp) (Finset.card_le_card Finset.sdiff_subset) a]
  · simp
  case stage =>
    intro p hp
    unfold ancestorSearchStart at hp
    rw [if_pos rfl] at hp
    exact (Finset.mem_filter.mp hp).2

end LinksWF

end CTxMemPool

end Mempool

end Cascoin
