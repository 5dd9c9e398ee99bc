import Cascoin.Models.Mempool.Check

/-!
# Removing from the packages

`RemoveStaged(stage, updateDescendants)` runs four loops over the stage: the descendants left
behind stop counting each removed entry among their ancestors (only with `updateDescendants`),
the ancestors stop counting it among their descendants and forget it as a child, its children
forget it as a parent, and `removeUnchecked` takes it out of `mapTx`, `mapLinks`, `mapNextTx`
and `totalTxSize`. Each loop keeps the pool within a family of states described by what the
loop has done so far (`Closure.foldl_family`), which gives the closed form `RemoveStagedState_eq`.

Two kinds of stage keep the pool consistent: a stage closed under descendants, removed without
`updateDescendants` (`removeRecursive`, `Expire`), and a single entry without in-pool parents,
removed with it (`removeForBlock`).
-/

namespace Cascoin

namespace Mempool

open Closure

namespace CTxMemPoolEntry

/-- `UpdateAncestorState` by a vector of ancestor totals. -/
def moveAncestors (e : CTxMemPoolEntry) (v : ℤ × ℤ × ℤ × ℤ) : CTxMemPoolEntry :=
  e.addAncestorState v.2.1 v.2.2.1 v.1 v.2.2.2

/-- `UpdateDescendantState` by a vector of descendant totals. -/
def moveDescendants (e : CTxMemPoolEntry) (v : ℤ × ℤ × ℤ) : CTxMemPoolEntry :=
  e.addDescendantState v.2.1 v.2.2 v.1

section Move

variable (e : CTxMemPoolEntry) (v w : ℤ × ℤ × ℤ × ℤ) (u u' : ℤ × ℤ × ℤ)

theorem addAncestorState_eq_moveAncestors (s f c o : ℤ) :
    e.addAncestorState s f c o = e.moveAncestors (c, s, f, o) := rfl

theorem addDescendantState_eq_moveDescendants (s f c : ℤ) :
    e.addDescendantState s f c = e.moveDescendants (c, s, f) := rfl

@[simp] theorem moveAncestors_zero : e.moveAncestors 0 = e := by
  cases e
  simp [moveAncestors, addAncestorState]

@[simp] theorem moveDescendants_zero : e.moveDescendants 0 = e := by
  cases e
  simp [moveDescendants, addDescendantState]

@[simp] theorem moveAncestors_moveAncestors : (e.moveAncestors v).moveAncestors w = e.moveAncestors (v + w) := by
  cases e
  simp [moveAncestors, addAncestorState, add_assoc]

@[simp] theorem moveDescendants_moveDescendants :
    (e.moveDescendants u).moveDescendants u' = e.moveDescendants (u + u') := by
  cases e
  simp [moveDescendants, addDescendantState, add_assoc]

@[simp] theorem ancTotals_moveAncestors : (e.moveAncestors v).ancTotals = e.ancTotals + v := rfl

@[simp] theorem descTotals_moveAncestors : (e.moveAncestors v).descTotals = e.descTotals := rfl

@[simp] theorem ancTotals_moveDescendants : (e.moveDescendants u).ancTotals = e.ancTotals := rfl

@[simp] theorem descTotals_moveDescendants :
    (e.moveDescendants u).descTotals = e.descTotals + u := rfl

@[simp] theorem moveAncestors_tx : (e.moveAncestors v).tx = e.tx := rfl

@[simp] theorem moveAncestors_GetTxSize : (e.moveAncestors v).GetTxSize = e.GetTxSize := rfl

@[simp] theorem moveAncestors_sigOpCost : (e.moveAncestors v).sigOpCost = e.sigOpCost := rfl

@[simp] theorem moveAncestors_feeDelta : (e.moveAncestors v).feeDelta = e.feeDelta := rfl

@[simp] theorem moveAncestors_ancWeight : (e.moveAncestors v).ancWeight = e.ancWeight := rfl

@[simp] theorem moveAncestors_descWeight : (e.moveAncestors v).descWeight = e.descWeight := rfl

@[simp] theorem moveDescendants_tx : (e.moveDescendants u).tx = e.tx := rfl

@[simp] theorem moveDescendants_GetTxSize : (e.moveDescendants u).GetTxSize = e.GetTxSize := rfl

@[simp] theorem moveDescendants_sigOpCost : (e.moveDescendants u).sigOpCost = e.sigOpCost := rfl

@[simp] theorem moveDescendants_feeDelta : (e.moveDescendants u).feeDelta = e.feeDelta := rfl

@[simp] theorem moveDescendants_ancWeight : (e.moveDescendants u).ancWeight = e.ancWeight := rfl

@[simp] theorem moveDescendants_descWeight : (e.moveDescendants u).descWeight = e.descWeight := rfl

@[simp] theorem moveDescendants_GetModifiedFee :
    (e.moveDescendants u).GetModifiedFee = e.GetModifiedFee := rfl

@[simp] theorem moveAncestors_GetModifiedFee :
    (e.moveAncestors v).GetModifiedFee = e.GetModifiedFee := rfl

end Move

end CTxMemPoolEntry

open CTxMemPoolEntry

/-- A loop's sum over the members of a set in the set's order is the set's sum. -/
theorem sum_sort_map {M : Type} [AddCommMonoid M] (E : Finset Uint256) (f : Uint256 → M) :
    ((E.sort memcmpLE).map f).sum = ∑ r ∈ E, f r := by
  rw [← List.sum_toFinset f (nodup_sort E), Finset.sort_toFinset]

/-- Forgetting the spender of each input forgets the spends of the transaction. -/
theorem foldl_update_none : ∀ (vin : List CTxIn) (m : COutPoint → Option Uint256),
    vin.foldl (fun m (txin : CTxIn) => Function.update m txin.prevout none) m =
      fun o => if o ∈ vin.map (·.prevout) then none else m o
  | [], m => by simp
  | txin :: vin, m => by
    rw [List.foldl_cons, foldl_update_none vin]
    funext o
    by_cases ho : o = txin.prevout
    · simp [ho]
    · simp [ho]

namespace CTxMemPool

variable {txHash : CTransaction → Uint256} {pool : CTxMemPool}

/-! ## The loops of `UpdateForRemoveFromMempool` -/

section Loops

variable (hwf : LinksWF pool)
include hwf

/-- One pass of the first loop: the descendants of `r` give up its weight in their ancestor
totals. -/
theorem removeFromDescendantsState_step {r : Uint256} (hr : r ∈ pool.mapTx)
    (A : Uint256 → ℤ × ℤ × ℤ × ℤ) :
    ({ pool with entry := fun y => (pool.entry y).moveAncestors (A y) } : CTxMemPool).removeFromDescendantsState r =
      { pool with
        entry := fun y => (pool.entry y).moveAncestors
          (A y + -(if y ∈ pool.descendants r then (pool.entry r).ancWeight else 0)) } := by
  unfold removeFromDescendantsState
  simp only [mk_CalculateDescendants, hwf.CalculateDescendants_eq hr,
    Finset.erase_insert (hwf.not_mem_descendants_self r), forEach_modify, moveAncestors_GetTxSize,
    moveAncestors_GetModifiedFee, moveAncestors_sigOpCost, addAncestorState_eq_moveAncestors,
    moveAncestors_moveAncestors]
  congr 1
  funext y
  split_ifs <;> simp [ancWeight]

/-- The first loop: every remaining descendant of a removed entry gives up its weight. -/
theorem forEach_removeFromDescendants {E : Finset Uint256} (hE : E ⊆ pool.mapTx) :
    forEach E (fun r p => p.removeFromDescendantsState r) pool =
      { pool with
        entry := fun y => (pool.entry y).moveAncestors
          (-∑ r ∈ E, if y ∈ pool.descendants r then (pool.entry r).ancWeight else 0) } := by
  have h0 : pool = { pool with
      entry := fun y => (pool.entry y).moveAncestors ((0 : Uint256 → ℤ × ℤ × ℤ × ℤ) y) } := by
    simp only [Pi.zero_apply, moveAncestors_zero]
  rw [forEach]
  conv_lhs => rw [h0]
  rw [foldl_family (fun A => ({ pool with entry := fun y => (pool.entry y).moveAncestors (A y) } :
      CTxMemPool)) (fun r p => p.removeFromDescendantsState r)
      (fun r A y => A y + -(if y ∈ pool.descendants r then (pool.entry r).ancWeight else 0)) _
      (fun r hr A => removeFromDescendantsState_step hwf (hE (mem_sort.mp hr)) A) 0]
  congr 2
  funext y
  rw [foldl_add_apply (fun r y => -(if y ∈ pool.descendants r then (pool.entry r).ancWeight else 0)),
    sum_sort_map E (fun r => -(if y ∈ pool.descendants r then (pool.entry r).ancWeight else 0)),
    Pi.zero_apply, zero_add, Finset.sum_neg_distrib]

/-- One pass of the second loop: the ancestors of `r` give up its weight in their descendant
totals, and its parents forget it as a child. -/
theorem removeFromAncestors_step (r : Uint256) (B : Uint256 → ℤ × ℤ × ℤ)
    (P : Finset Uint256) :
    let q : CTxMemPool := { pool with
      entry := fun y => (pool.entry y).moveDescendants (B y)
      mapLinks := fun y => ⟨(pool.mapLinks y).parents, (pool.mapLinks y).children \ P⟩ }
    q.UpdateAncestorsOfState false r (q.CalculateMemPoolAncestors (q.entry r) r false) =
      { pool with
        entry := fun y => (pool.entry y).moveDescendants
          (B y + -(if y ∈ pool.ancestors r then (pool.entry r).descWeight else 0))
        mapLinks := fun y =>
          ⟨(pool.mapLinks y).parents, (pool.mapLinks y).children \ insert r P⟩ } := by
  intro q
  have hA : q.CalculateMemPoolAncestors = pool.CalculateMemPoolAncestors :=
    CalculateMemPoolAncestors_congr pool rfl (funext fun _ => rfl)
  rw [hA, hwf.CalculateMemPoolAncestors_eq]
  unfold UpdateAncestorsOfState
  simp only [q, forEach_UpdateChild, forEach_modify, GetMemPoolParents, Bool.false_eq_true, if_false,
    neg_one_mul, moveDescendants_GetTxSize, moveDescendants_GetModifiedFee,
    addDescendantState_eq_moveDescendants, moveDescendants_moveDescendants]
  congr 1
  · funext y
    split_ifs <;> simp [descWeight]
  · funext y
    split_ifs with hy
    · simp [Finset.sdiff_insert]
    · -- `r` is a child of its parents only
      have hr' : r ∉ (pool.mapLinks y).children := fun h =>
        hy ((hwf.children_iff y r).mp h)
      simp [Finset.sdiff_insert_of_notMem hr']

/-- The second loop: every ancestor of a removed entry gives up its weight, and every removed
entry leaves the children of its parents. -/
theorem forEach_removeFromAncestors (E : Finset Uint256) :
    forEach E (fun r p => p.UpdateAncestorsOfState false r (p.CalculateMemPoolAncestors (p.entry r) r false))
        pool =
      { pool with
        entry := fun y => (pool.entry y).moveDescendants
          (-∑ r ∈ E, if y ∈ pool.ancestors r then (pool.entry r).descWeight else 0)
        mapLinks := fun y => ⟨(pool.mapLinks y).parents, (pool.mapLinks y).children \ E⟩ } := by
  let st := fun m : (Uint256 → ℤ × ℤ × ℤ) × Finset Uint256 => ({ pool with
    entry := fun y => (pool.entry y).moveDescendants (m.1 y)
    mapLinks := fun y => ⟨(pool.mapLinks y).parents, (pool.mapLinks y).children \ m.2⟩ } : CTxMemPool)
  have h0 : pool = st (0, ∅) := by
    simp only [st, Pi.zero_apply, moveDescendants_zero, Finset.sdiff_empty]
  rw [forEach]
  conv_lhs => rw [h0]
  rw [foldl_family st _
      (fun r m => (fun y => m.1 y + -(if y ∈ pool.ancestors r then (pool.entry r).descWeight else 0),
        insert r m.2)) _ (fun r _ m => removeFromAncestors_step hwf r m.1 m.2),
    foldl_prod (fun r A y => A y + -(if y ∈ pool.ancestors r then (pool.entry r).descWeight else 0))
      (fun r P => insert r P),
    foldl_insert, Finset.empty_union, Finset.sort_toFinset]
  simp only [st]
  congr 2
  funext y
  rw [foldl_add_apply (fun r y => -(if y ∈ pool.ancestors r then (pool.entry r).descWeight else 0)),
    sum_sort_map E (fun r => -(if y ∈ pool.ancestors r then (pool.entry r).descWeight else 0)),
    Pi.zero_apply, zero_add, Finset.sum_neg_distrib]

/-- One pass of the third loop: the children of `r` left in the pool forget it as a parent. -/
theorem UpdateChildrenForRemoval_step (E : Finset Uint256) (r : Uint256)
    (ent : Uint256 → CTxMemPoolEntry) (P : Finset Uint256) :
    ({ pool with
        entry := ent
        mapLinks := fun y => ⟨if y ∈ E then (pool.mapLinks y).parents else (pool.mapLinks y).parents \ P,
          (pool.mapLinks y).children \ E⟩ } : CTxMemPool).UpdateChildrenForRemoval r =
      { pool with
        entry := ent
        mapLinks := fun y =>
          ⟨if y ∈ E then (pool.mapLinks y).parents else (pool.mapLinks y).parents \ insert r P,
            (pool.mapLinks y).children \ E⟩ } := by
  unfold UpdateChildrenForRemoval
  simp only [forEach_UpdateParent, GetMemPoolChildren]
  congr 1
  funext y
  by_cases hyE : y ∈ E
  · simp [hyE]
  · by_cases hy : y ∈ (pool.mapLinks r).children
    · simp [hyE, hy, Finset.sdiff_insert]
    · -- `y` is no child of `r`, so `r` is none of its parents
      have hr' : r ∉ (pool.mapLinks y).parents := fun h => hy ((hwf.children_iff r y).mpr h)
      simp [hyE, hy, Finset.sdiff_insert_of_notMem hr']

/-- The third loop: the entries left behind forget the removed ones as parents. -/
theorem forEach_UpdateChildrenForRemoval (E : Finset Uint256) (ent : Uint256 → CTxMemPoolEntry) :
    forEach E (fun r p => p.UpdateChildrenForRemoval r)
        ({ pool with
          entry := ent
          mapLinks := fun y => ⟨(pool.mapLinks y).parents, (pool.mapLinks y).children \ E⟩ } :
          CTxMemPool) =
      { pool with
        entry := ent
        mapLinks := fun y =>
          ⟨if y ∈ E then (pool.mapLinks y).parents else (pool.mapLinks y).parents \ E,
            (pool.mapLinks y).children \ E⟩ } := by
  let st := fun P : Finset Uint256 => ({ pool with
    entry := ent
    mapLinks := fun y => ⟨if y ∈ E then (pool.mapLinks y).parents else (pool.mapLinks y).parents \ P,
      (pool.mapLinks y).children \ E⟩ } : CTxMemPool)
  have h0 : ({ pool with
      entry := ent
      mapLinks := fun y => ⟨(pool.mapLinks y).parents, (pool.mapLinks y).children \ E⟩ } :
      CTxMemPool) = st ∅ := by
    simp only [st, Finset.sdiff_empty, ite_self]
  rw [h0, forEach, foldl_family st _ (fun r P => insert r P) _
    (fun r _ P => UpdateChildrenForRemoval_step hwf E r ent P), foldl_insert,
    Finset.empty_union, Finset.sort_toFinset]

end Loops

/-- The fourth loop: `removeUnchecked` takes the removed entries out of `mapTx`, their links,
their spends and `totalTxSize`. -/
theorem forEach_removeUnchecked (E : Finset Uint256) (ent : Uint256 → CTxMemPoolEntry)
    (lk : Uint256 → TxLinks) :
    forEach E (fun it p => p.removeUnchecked it) ({ pool with entry := ent, mapLinks := lk } : CTxMemPool) =
      { pool with
        mapTx := pool.mapTx \ E
        entry := ent
        mapLinks := fun y => if y ∈ E then TxLinks.empty else lk y
        mapNextTx := fun o =>
          if ∃ r ∈ E, o ∈ (ent r).tx.vin.map (·.prevout) then none else pool.mapNextTx o
        totalTxSize := pool.totalTxSize - ∑ r ∈ E, (ent r).GetTxSize } := by
  let st := fun m : Finset Uint256 × ℤ => ({ pool with
    mapTx := pool.mapTx \ m.1
    entry := ent
    mapLinks := fun y => if y ∈ m.1 then TxLinks.empty else lk y
    mapNextTx := fun o =>
      if ∃ r ∈ m.1, o ∈ (ent r).tx.vin.map (·.prevout) then none else pool.mapNextTx o
    totalTxSize := m.2 } : CTxMemPool)
  have h0 : ({ pool with entry := ent, mapLinks := lk } : CTxMemPool) = st (∅, pool.totalTxSize) := by
    simp only [st, Finset.sdiff_empty, Finset.notMem_empty, if_false, exists_false, false_and]
  have hstep : ∀ r ∈ E.sort memcmpLE, ∀ m, (st m).removeUnchecked r =
      st (insert r m.1, m.2 + -(ent r).GetTxSize) := by
    intro r _ m
    unfold removeUnchecked
    simp only [st, foldl_update_none, Finset.sdiff_insert, sub_eq_add_neg]
    congr 1
    · funext y
      by_cases hy : y = r
      · simp [hy]
      · simp [hy]
    · funext o
      by_cases ho : o ∈ (ent r).tx.vin.map (·.prevout)
      · rw [if_pos ho, if_pos ⟨r, Finset.mem_insert_self r m.1, ho⟩]
      · rw [if_neg ho]
        simp only [Finset.exists_mem_insert, ho, false_or]
  rw [h0, forEach, foldl_family st _ (fun r m => (insert r m.1, m.2 + -(ent r).GetTxSize)) _ hstep,
    foldl_prod (fun r P => insert r P) (fun r s => s + -(ent r).GetTxSize), foldl_insert, foldl_add, Finset.empty_union, Finset.sort_toFinset,
    sum_sort_map E (fun r => -(ent r).GetTxSize), Finset.sum_neg_distrib, ← sub_eq_add_neg]

/-! ## `RemoveStaged` -/

/-- `RemoveStaged` of entries of the pool: the stage leaves `mapTx`, the links and the spends
and `totalTxSize`; every entry gives up the weights of the removed entries it counted among its
ancestors, and with `updateDescendants` those it counted among its descendants. -/
theorem RemoveStagedState_eq (hwf : LinksWF pool) {E : Finset Uint256} (hE : E ⊆ pool.mapTx)
    (updateDescendants : Bool) :
    pool.RemoveStagedState E updateDescendants =
      { mapTx := pool.mapTx \ E
        entry := fun y => ((pool.entry y).moveAncestors (if updateDescendants then
            -∑ r ∈ E, (if y ∈ pool.descendants r then (pool.entry r).ancWeight else 0) else 0)).moveDescendants
          (-∑ r ∈ E, if y ∈ pool.ancestors r then (pool.entry r).descWeight else 0)
        mapLinks := fun y => if y ∈ E then TxLinks.empty
          else ⟨(pool.mapLinks y).parents \ E, (pool.mapLinks y).children \ E⟩
        mapNextTx := fun o =>
          if ∃ r ∈ E, o ∈ (pool.entry r).tx.vin.map (·.prevout) then none else pool.mapNextTx o
        mapDeltas := pool.mapDeltas
        totalTxSize := pool.totalTxSize - ∑ r ∈ E, (pool.entry r).GetTxSize } := by
  -- the first loop runs only with `updateDescendants`
  have h1 : (if updateDescendants then forEach E (fun r p => p.removeFromDescendantsState r) pool
      else pool) =
      { pool with
        entry := fun y => (pool.entry y).moveAncestors (if updateDescendants then
          -∑ r ∈ E, (if y ∈ pool.descendants r then (pool.entry r).ancWeight else 0) else 0) } := by
    cases updateDescendants
    · simp
    · simp [forEach_removeFromDescendants hwf hE]
  have hwf1 : LinksWF ({ pool with
      entry := fun y => (pool.entry y).moveAncestors (if updateDescendants then
        -∑ r ∈ E, (if y ∈ pool.descendants r then (pool.entry r).ancWeight else 0) else 0) } :
      CTxMemPool) := hwf.of_eq rfl rfl
  unfold RemoveStagedState UpdateForRemoveFromMempoolState
  dsimp only
  rw [h1, forEach_removeFromAncestors hwf1, forEach_UpdateChildrenForRemoval hwf1,
    forEach_removeUnchecked]
  simp only [mk_ancestors, moveAncestors_descWeight, moveDescendants_tx, moveAncestors_tx,
    moveDescendants_GetTxSize, moveAncestors_GetTxSize]
  congr 1
  funext y
  split_ifs with hy <;> rfl

section Effect

variable (hwf : LinksWF pool) {E : Finset Uint256} (hE : E ⊆ pool.mapTx) (ud : Bool)
include hwf hE

theorem RemoveStagedState_mapTx : (pool.RemoveStagedState E ud).mapTx = pool.mapTx \ E := by
  rw [RemoveStagedState_eq hwf hE]

theorem RemoveStagedState_mapDeltas : (pool.RemoveStagedState E ud).mapDeltas = pool.mapDeltas := by
  rw [RemoveStagedState_eq hwf hE]

/-- An entry left keeps its parents outside the stage. -/
theorem RemoveStagedState_parents {y : Uint256} (hy : y ∉ E) :
    (pool.RemoveStagedState E ud).GetMemPoolParents y = pool.GetMemPoolParents y \ E := by
  rw [RemoveStagedState_eq hwf hE]
  unfold GetMemPoolParents
  dsimp only
  rw [if_neg hy]

theorem RemoveStagedState_parents_of_mem {y : Uint256} (hy : y ∈ E) :
    (pool.RemoveStagedState E ud).GetMemPoolParents y = ∅ := by
  rw [RemoveStagedState_eq hwf hE]
  unfold GetMemPoolParents
  dsimp only
  rw [if_pos hy]
  rfl

theorem RemoveStagedState_children {y : Uint256} (hy : y ∉ E) :
    (pool.RemoveStagedState E ud).GetMemPoolChildren y = pool.GetMemPoolChildren y \ E := by
  rw [RemoveStagedState_eq hwf hE]
  unfold GetMemPoolChildren
  dsimp only
  rw [if_neg hy]

theorem RemoveStagedState_children_of_mem {y : Uint256} (hy : y ∈ E) :
    (pool.RemoveStagedState E ud).GetMemPoolChildren y = ∅ := by
  rw [RemoveStagedState_eq hwf hE]
  unfold GetMemPoolChildren
  dsimp only
  rw [if_pos hy]
  rfl

/-- Every entry keeps its transaction, weights and fee delta. -/
theorem RemoveStagedState_entry_fixed (y : Uint256) :
    ((pool.RemoveStagedState E ud).entry y).tx = (pool.entry y).tx ∧
      ((pool.RemoveStagedState E ud).entry y).GetTxSize = (pool.entry y).GetTxSize ∧
      ((pool.RemoveStagedState E ud).entry y).sigOpCost = (pool.entry y).sigOpCost ∧
      ((pool.RemoveStagedState E ud).entry y).feeDelta = (pool.entry y).feeDelta ∧
      ((pool.RemoveStagedState E ud).entry y).ancWeight = (pool.entry y).ancWeight ∧
      ((pool.RemoveStagedState E ud).entry y).descWeight = (pool.entry y).descWeight := by
  rw [RemoveStagedState_eq hwf hE]
  simp

theorem RemoveStagedState_ancTotals (y : Uint256) :
    ((pool.RemoveStagedState E ud).entry y).ancTotals = (pool.entry y).ancTotals +
      if ud then -∑ r ∈ E, (if y ∈ pool.descendants r then (pool.entry r).ancWeight else 0) else 0 := by
  rw [RemoveStagedState_eq hwf hE]
  simp

theorem RemoveStagedState_descTotals (y : Uint256) :
    ((pool.RemoveStagedState E ud).entry y).descTotals = (pool.entry y).descTotals +
      -∑ r ∈ E, if y ∈ pool.ancestors r then (pool.entry r).descWeight else 0 := by
  rw [RemoveStagedState_eq hwf hE]
  simp

theorem RemoveStagedState_mapNextTx (o : COutPoint) :
    (pool.RemoveStagedState E ud).mapNextTx o =
      if ∃ r ∈ E, o ∈ (pool.entry r).tx.vin.map (·.prevout) then none else pool.mapNextTx o := by
  rw [RemoveStagedState_eq hwf hE]

theorem RemoveStagedState_totalTxSize :
    (pool.RemoveStagedState E ud).totalTxSize = pool.totalTxSize - ∑ r ∈ E, (pool.entry r).GetTxSize := by
  rw [RemoveStagedState_eq hwf hE]

/-- The fee deltas agree after a removal where they agreed on the entries left. -/
theorem RemoveStagedState_feeDeltasAgree
    (hfd : ∀ x ∈ pool.mapTx \ E, (pool.entry x).feeDelta = (pool.mapDeltas x).getD 0) :
    FeeDeltasAgree (pool.RemoveStagedState E ud) := by
  intro x hx
  rw [RemoveStagedState_mapTx hwf hE] at hx
  rw [(RemoveStagedState_entry_fixed hwf hE ud x).2.2.2.1, RemoveStagedState_mapDeltas hwf hE]
  exact hfd x hx

/-- The links stay well formed whatever the stage. -/
theorem RemoveStagedState_linksWF : LinksWF (pool.RemoveStagedState E ud) := by
  have hT := RemoveStagedState_mapTx hwf hE ud
  have hsub : ∀ a, (pool.RemoveStagedState E ud).GetMemPoolParents a ⊆ pool.GetMemPoolParents a := by
    intro a
    by_cases ha : a ∈ E
    · rw [RemoveStagedState_parents_of_mem hwf hE ud ha]
      exact Finset.empty_subset _
    · rw [RemoveStagedState_parents hwf hE ud ha]
      exact Finset.sdiff_subset
  refine ⟨fun x hx => ?_, fun x => ?_, fun x y => ?_, fun x h => hwf.acyclic x (h.mono hsub)⟩
  · rw [hT, Finset.mem_sdiff, not_and_not_right] at hx
    rw [RemoveStagedState_eq hwf hE]
    dsimp only
    split_ifs with hxE
    · rfl
    · rw [hwf.out x (fun hxT => hxE (hx hxT))]
      simp [TxLinks.empty]
  · rw [hT]
    by_cases hx : x ∈ E
    · rw [RemoveStagedState_parents_of_mem hwf hE ud hx]
      exact Finset.empty_subset _
    · rw [RemoveStagedState_parents hwf hE ud hx]
      exact Finset.sdiff_subset_sdiff (hwf.parents_sub x) le_rfl
  · -- the links between the entries left are the old ones
    by_cases hx : x ∈ E
    · rw [RemoveStagedState_children_of_mem hwf hE ud hx]
      by_cases hy : y ∈ E
      · simp [RemoveStagedState_parents_of_mem hwf hE ud hy]
      · simp [RemoveStagedState_parents hwf hE ud hy, hx]
    · rw [RemoveStagedState_children hwf hE ud hx]
      by_cases hy : y ∈ E
      · simp [RemoveStagedState_parents_of_mem hwf hE ud hy, hy]
      · rw [RemoveStagedState_parents hwf hE ud hy, Finset.mem_sdiff, Finset.mem_sdiff, hwf.children_iff]
        simp [hx, hy]

/-- The parts of the invariant every removal keeps; the totals are left to each kind of stage. -/
theorem RemoveStagedState_consistent_of {txHash : CTransaction → Uint256} (hc : Consistent txHash pool)
    (hanc : ∀ x ∈ pool.mapTx \ E, ((pool.RemoveStagedState E ud).entry x).ancTotals =
      ((pool.RemoveStagedState E ud).entry x).ancWeight +
        ∑ a ∈ (pool.RemoveStagedState E ud).ancestors x, ((pool.RemoveStagedState E ud).entry a).ancWeight)
    (hdesc : ∀ x ∈ pool.mapTx \ E, ((pool.RemoveStagedState E ud).entry x).descTotals =
      ((pool.RemoveStagedState E ud).entry x).descWeight +
        ∑ z ∈ (pool.RemoveStagedState E ud).descendants x, ((pool.RemoveStagedState E ud).entry z).descWeight) :
    Consistent txHash (pool.RemoveStagedState E ud) := by
  have hT := RemoveStagedState_mapTx hwf hE ud
  have hfix := RemoveStagedState_entry_fixed hwf hE ud
  refine ⟨RemoveStagedState_linksWF hwf hE ud, ?hash, ?parents, ?next, fun x hx => hanc x (hT ▸ hx),
    fun x hx => hdesc x (hT ▸ hx), ?total, ?size, ?sig, ?outputs⟩
  case hash =>
    intro x hx
    rw [(hfix x).1]
    exact hc.hash x (Finset.mem_sdiff.mp (hT ▸ hx)).1
  case parents =>
    intro x hx
    obtain ⟨hxT, hxE⟩ := Finset.mem_sdiff.mp (hT ▸ hx)
    rw [RemoveStagedState_parents hwf hE ud hxE, hc.parents_eq x hxT]
    ext p
    simp [inputParents, hT, (hfix x).1, and_assoc]
  case next =>
    intro o h
    rw [RemoveStagedState_mapNextTx hwf hE ud, hT, Finset.mem_sdiff, (hfix h).1]
    split_ifs with hspent
    · -- the outpoint was spent by a removed entry, which was its only spender
      obtain ⟨r, hr, hor⟩ := hspent
      have hrspend := (hc.nextTx o r).mpr ⟨hE hr, hor⟩
      refine ⟨False.elim, ?_⟩
      rintro ⟨⟨hhT, hhE⟩, hoh⟩
      have hhspend := (hc.nextTx o h).mpr ⟨hhT, hoh⟩
      rw [hrspend, Option.some_inj] at hhspend
      exact hhE (hhspend ▸ hr)
    · rw [hc.nextTx o h]
      constructor
      · rintro ⟨hhT, hoh⟩
        exact ⟨⟨hhT, fun hhE => hspent ⟨h, hhE, hoh⟩⟩, hoh⟩
      · rintro ⟨⟨hhT, -⟩, hoh⟩
        exact ⟨hhT, hoh⟩
  case total =>
    rw [RemoveStagedState_totalTxSize hwf hE ud, hc.totalTxSize, hT, ← Finset.sum_sdiff hE]
    simp only [add_sub_cancel_right]
    exact Finset.sum_congr rfl fun y _ => ((hfix y).2.1).symm
  case size =>
    intro x hx
    rw [(hfix x).2.1]
    exact hc.size_pos x (Finset.mem_sdiff.mp (hT ▸ hx)).1
  case sig =>
    intro x hx
    rw [(hfix x).2.2.1]
    exact hc.sigOpCost_nonneg x (Finset.mem_sdiff.mp (hT ▸ hx)).1
  case outputs =>
    intro x hx txin hin hp
    rw [(hfix x).1] at hin
    rw [(hfix _).1]
    exact hc.outputs x (Finset.mem_sdiff.mp (hT ▸ hx)).1 txin hin (Finset.mem_sdiff.mp (hT ▸ hp)).1

end Effect

/-! ## Stages closed under descendants -/

section Closed

variable (hc : Consistent txHash pool) {E : Finset Uint256} (hclosed : ∀ r ∈ E, pool.descendants r ⊆ E)
include hc hclosed

/-- Above an entry outside a stage closed under descendants lies nothing of the stage. -/
theorem not_mem_of_above_of_closed {x z : Uint256} (hx : x ∉ E)
    (h : Above pool.GetMemPoolParents x z) : z ∉ E := fun hz =>
  hx (hclosed z hz (mem_descendants.mpr ⟨hc.links.mem_of_above_left h, h⟩))

variable (hE : E ⊆ pool.mapTx)
include hE

theorem RemoveStagedState_above_of_closed (ud : Bool) {x : Uint256} (hx : x ∉ E) (y : Uint256) :
    Above (pool.RemoveStagedState E ud).GetMemPoolParents x y ↔ Above pool.GetMemPoolParents x y :=
  above_congr_of_avoid (fun _ ha => RemoveStagedState_parents hc.links hE ud ha) hx
    (fun _ h => not_mem_of_above_of_closed hc hclosed hx h) y

theorem RemoveStagedState_ancestors_of_closed (ud : Bool) {x : Uint256} (hx : x ∉ E) :
    (pool.RemoveStagedState E ud).ancestors x = pool.ancestors x := by
  ext a
  rw [mem_ancestors, mem_ancestors, RemoveStagedState_mapTx hc.links hE, Finset.mem_sdiff,
    RemoveStagedState_above_of_closed hc hclosed hE ud hx]
  exact ⟨fun ⟨⟨ha, _⟩, h⟩ => ⟨ha, h⟩,
    fun ⟨ha, h⟩ => ⟨⟨ha, not_mem_of_above_of_closed hc hclosed hx h⟩, h⟩⟩

theorem RemoveStagedState_descendants_of_closed (ud : Bool) (x : Uint256) :
    (pool.RemoveStagedState E ud).descendants x = pool.descendants x \ E := by
  ext z
  rw [mem_descendants, Finset.mem_sdiff, mem_descendants, RemoveStagedState_mapTx hc.links hE,
    Finset.mem_sdiff]
  constructor
  · rintro ⟨⟨hzT, hzE⟩, h⟩
    exact ⟨⟨hzT, (RemoveStagedState_above_of_closed hc hclosed hE ud hzE x).mp h⟩, hzE⟩
  · rintro ⟨⟨hzT, h⟩, hzE⟩
    exact ⟨⟨hzT, hzE⟩, (RemoveStagedState_above_of_closed hc hclosed hE ud hzE x).mpr h⟩

/-- Removing a stage closed under descendants without `updateDescendants`, as `removeRecursive`
and `Expire` do, keeps the pool consistent. -/
theorem RemoveStagedState_consistent_of_closed : Consistent txHash (pool.RemoveStagedState E false) := by
  have hwf := hc.links
  have hfix := RemoveStagedState_entry_fixed hwf hE false
  refine RemoveStagedState_consistent_of hwf hE false hc (fun x hx => ?_) (fun x hx => ?_)
  · -- nothing above an entry left goes, and no ancestor total moves
    obtain ⟨hxT, hxE⟩ := Finset.mem_sdiff.mp hx
    rw [RemoveStagedState_ancTotals hwf hE, if_neg Bool.false_ne_true, add_zero, (hfix x).2.2.2.2.1,
      RemoveStagedState_ancestors_of_closed hc hclosed hE false hxE, hc.ancestors x hxT]
    congr 1
    exact Finset.sum_congr rfl fun a _ => ((hfix a).2.2.2.2.1).symm
  · -- the descendants that go are those of the stage, and their weights leave the total
    obtain ⟨hxT, hxE⟩ := Finset.mem_sdiff.mp hx
    have hsum : ∑ r ∈ E, (if x ∈ pool.ancestors r then (pool.entry r).descWeight else 0) =
        ∑ z ∈ pool.descendants x ∩ E, (pool.entry z).descWeight := by
      simp only [← hwf.mem_descendants_iff_mem_ancestors]
      rw [Finset.sum_ite_mem, Finset.inter_comm]
    rw [RemoveStagedState_descTotals hwf hE, (hfix x).2.2.2.2.2,
      RemoveStagedState_descendants_of_closed hc hclosed hE false x, hc.descendants x hxT,
      Finset.sum_congr rfl fun z _ => (hfix z).2.2.2.2.2, hsum,
      ← Finset.sum_inter_add_sum_sdiff (pool.descendants x) E]
    abel

end Closed

/-! ## An entry without in-pool parents -/

section Root

variable {r : Uint256} (hroot : pool.GetMemPoolParents r = ∅)
include hroot

theorem not_above_of_root (x : Uint256) : ¬ Above pool.GetMemPoolParents r x := fun h => by
  obtain ⟨p, hp, -⟩ := above_iff_exists_reach.mp h
  rw [hroot] at hp
  exact Finset.notMem_empty p hp

variable (hc : Consistent txHash pool) (hr : r ∈ pool.mapTx)
include hc hr

theorem RemoveStagedState_above_root {x : Uint256} (hx : x ≠ r) (y : Uint256) :
    Above (pool.RemoveStagedState {r} true).GetMemPoolParents x y ↔
      Above pool.GetMemPoolParents x y ∧ y ≠ r :=
  above_erase_root_iff hroot (fun a ha => by
    rw [RemoveStagedState_parents hc.links (Finset.singleton_subset_iff.mpr hr) true
      (Finset.notMem_singleton.mpr ha), Finset.sdiff_singleton_eq_erase]) hx y

theorem RemoveStagedState_ancestors_root {x : Uint256} (hx : x ≠ r) :
    (pool.RemoveStagedState {r} true).ancestors x = (pool.ancestors x).erase r := by
  ext a
  rw [mem_ancestors, Finset.mem_erase, mem_ancestors,
    RemoveStagedState_mapTx hc.links (Finset.singleton_subset_iff.mpr hr), Finset.mem_sdiff,
    Finset.mem_singleton, RemoveStagedState_above_root hroot hc hr hx]
  tauto

theorem RemoveStagedState_descendants_root {x : Uint256} (hx : x ≠ r) :
    (pool.RemoveStagedState {r} true).descendants x = pool.descendants x := by
  ext z
  rw [mem_descendants, mem_descendants,
    RemoveStagedState_mapTx hc.links (Finset.singleton_subset_iff.mpr hr), Finset.mem_sdiff,
    Finset.mem_singleton]
  constructor
  · rintro ⟨⟨hzT, hzr⟩, h⟩
    exact ⟨hzT, ((RemoveStagedState_above_root hroot hc hr hzr x).mp h).1⟩
  · rintro ⟨hzT, h⟩
    -- the entry without parents is below nothing
    have hzr : z ≠ r := fun hz => not_above_of_root hroot x (hz ▸ h)
    exact ⟨⟨hzT, hzr⟩, (RemoveStagedState_above_root hroot hc hr hzr x).mpr ⟨h, hx⟩⟩

/-- Removing an entry without in-pool parents with `updateDescendants`, as `removeForBlock`
does, keeps the pool consistent. -/
theorem RemoveStagedState_consistent_root : Consistent txHash (pool.RemoveStagedState {r} true) := by
  have hwf := hc.links
  have hE : {r} ⊆ pool.mapTx := Finset.singleton_subset_iff.mpr hr
  have hfix := RemoveStagedState_entry_fixed hwf hE true
  have hanc_r : pool.ancestors r = ∅ :=
    Finset.eq_empty_of_forall_notMem fun a ha => not_above_of_root hroot a (mem_ancestors.mp ha).2
  refine RemoveStagedState_consistent_of hwf hE true hc (fun x hx => ?_) (fun x hx => ?_)
  · -- the entries below `r` stop counting it
    obtain ⟨hxT, hxr⟩ := Finset.mem_sdiff.mp hx
    have hxr' : x ≠ r := fun h => hxr (Finset.mem_singleton.mpr h)
    rw [RemoveStagedState_ancTotals hwf hE, if_pos rfl, Finset.sum_singleton, (hfix x).2.2.2.2.1,
      RemoveStagedState_ancestors_root hroot hc hr hxr', hc.ancestors x hxT,
      Finset.sum_congr rfl fun a _ => (hfix a).2.2.2.2.1]
    simp only [hwf.mem_descendants_iff_mem_ancestors]
    split_ifs with hra
    · rw [← Finset.add_sum_erase _ _ hra]
      abel
    · rw [Finset.erase_eq_of_notMem hra]
      abel
  · -- `r` has no ancestor, so no descendant total moves
    obtain ⟨hxT, hxr⟩ := Finset.mem_sdiff.mp hx
    have hxr' : x ≠ r := fun h => hxr (Finset.mem_singleton.mpr h)
    rw [RemoveStagedState_descTotals hwf hE, Finset.sum_singleton, hanc_r, if_neg (Finset.notMem_empty x),
      neg_zero, add_zero, (hfix x).2.2.2.2.2, RemoveStagedState_descendants_root hroot hc hr hxr',
      hc.descendants x hxT, Finset.sum_congr rfl fun z _ => (hfix z).2.2.2.2.2]

end Root

end CTxMemPool

end Mempool

end Cascoin
