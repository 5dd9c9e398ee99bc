import Cascoin.Models.Mempool.Check

/-!
# Adding to the packages

`PrioritiseTransaction` moves the modified fee of one entry, and with it the fee totals of the
packages that entry belongs to: its own, its ancestors' descendant totals and its descendants'
ancestor totals. `addUnchecked` adds an entry below the ancestors its inputs reach: it links the
entry to its in-pool parents, counts it in the descendant totals of each ancestor, and gives it
the ancestor totals of its package.

Each operation has a closed form (`PrioritiseTransactionState_of_mem`, `addUncheckedAncestorsState_eq`) and
keeps `Consistent`. For `addUnchecked` the transaction must be new, spend no output of its own,
leave no input already spent in the pool, and have no spender in the pool yet: what
`AcceptToMemoryPool` checks before it calls it.
-/

namespace Cascoin

namespace Mempool

open Closure CTxMemPoolEntry

namespace CTxMemPool

variable {txHash : CTransaction → Uint256} {pool : CTxMemPool}

/-! ## `PrioritiseTransaction` -/

section Prioritise

variable (hash : Uint256) (nFeeDelta : ℤ)

theorem PrioritiseTransactionState_of_not_mem (hh : hash ∉ pool.mapTx) :
    pool.PrioritiseTransactionState hash nFeeDelta =
      { pool with
        mapDeltas := Function.update pool.mapDeltas hash (some ((pool.mapDeltas hash).getD 0 + nFeeDelta)) } := by
  unfold PrioritiseTransactionState
  rw [if_neg hh]

/-- For an entry of the pool, the entry takes the new delta, its ancestors count the change in
their descendant fees and its descendants in their ancestor fees. -/
theorem PrioritiseTransactionState_of_mem (hwf : LinksWF pool) {hash : Uint256} (hh : hash ∈ pool.mapTx) :
    pool.PrioritiseTransactionState hash nFeeDelta =
      { pool with
        mapDeltas := Function.update pool.mapDeltas hash (some ((pool.mapDeltas hash).getD 0 + nFeeDelta))
        entry := fun y =>
          if y = hash then (pool.entry hash).UpdateFeeDelta ((pool.mapDeltas hash).getD 0 + nFeeDelta)
          else if y ∈ pool.ancestors hash then (pool.entry y).addDescendantState 0 nFeeDelta 0
          else if y ∈ pool.descendants hash then (pool.entry y).addAncestorState 0 nFeeDelta 0 0
          else pool.entry y } := by
  unfold PrioritiseTransactionState
  simp only [hh, if_true, modify_CalculateMemPoolAncestors, mk_CalculateMemPoolAncestors,
    hwf.CalculateMemPoolAncestors_eq, forEach_modify, modify_CalculateDescendants,
    mk_CalculateDescendants, hwf.CalculateDescendants_eq hh,
    Finset.erase_insert (hwf.not_mem_descendants_self hash), modify_entry]
  congr 1
  funext y
  -- the entry itself is in neither set, and no entry is in both
  by_cases hy : y = hash
  · subst hy
    simp [hwf.not_mem_descendants_self, hwf.not_mem_ancestors_self]
  · by_cases hd : y ∈ pool.descendants hash
    · simp [hy, hd, hwf.not_mem_ancestors_of_mem_descendants hd]
    · simp [hy, hd]

section Effect

variable (hwf : LinksWF pool) {hash : Uint256} (hh : hash ∈ pool.mapTx)
include hwf hh

theorem PrioritiseTransactionState_mapTx : (pool.PrioritiseTransactionState hash nFeeDelta).mapTx = pool.mapTx := by
  rw [PrioritiseTransactionState_of_mem nFeeDelta hwf hh]

theorem PrioritiseTransactionState_mapLinks :
    (pool.PrioritiseTransactionState hash nFeeDelta).mapLinks = pool.mapLinks := by
  rw [PrioritiseTransactionState_of_mem nFeeDelta hwf hh]

theorem PrioritiseTransactionState_mapNextTx :
    (pool.PrioritiseTransactionState hash nFeeDelta).mapNextTx = pool.mapNextTx := by
  rw [PrioritiseTransactionState_of_mem nFeeDelta hwf hh]

theorem PrioritiseTransactionState_totalTxSize :
    (pool.PrioritiseTransactionState hash nFeeDelta).totalTxSize = pool.totalTxSize := by
  rw [PrioritiseTransactionState_of_mem nFeeDelta hwf hh]

theorem PrioritiseTransactionState_ancestors :
    (pool.PrioritiseTransactionState hash nFeeDelta).ancestors = pool.ancestors := by
  rw [PrioritiseTransactionState_of_mem nFeeDelta hwf hh, mk_ancestors]

theorem PrioritiseTransactionState_descendants :
    (pool.PrioritiseTransactionState hash nFeeDelta).descendants = pool.descendants := by
  rw [PrioritiseTransactionState_of_mem nFeeDelta hwf hh, mk_descendants]

/-- No entry changes its transaction, size or sigop cost. -/
theorem PrioritiseTransactionState_entry_fixed (y : Uint256) :
    ((pool.PrioritiseTransactionState hash nFeeDelta).entry y).tx = (pool.entry y).tx ∧
      ((pool.PrioritiseTransactionState hash nFeeDelta).entry y).GetTxSize = (pool.entry y).GetTxSize ∧
      ((pool.PrioritiseTransactionState hash nFeeDelta).entry y).sigOpCost = (pool.entry y).sigOpCost := by
  rw [PrioritiseTransactionState_of_mem nFeeDelta hwf hh]
  dsimp only
  split_ifs with hy <;> simp [hy]

variable (hfee : (pool.entry hash).feeDelta = (pool.mapDeltas hash).getD 0)
include hfee

/-- Only the entry itself changes its weight, by the new delta. -/
theorem PrioritiseTransactionState_ancWeight (y : Uint256) :
    ((pool.PrioritiseTransactionState hash nFeeDelta).entry y).ancWeight =
      (pool.entry y).ancWeight + if y = hash then (0, 0, nFeeDelta, 0) else 0 := by
  rw [PrioritiseTransactionState_of_mem nFeeDelta hwf hh]
  dsimp only
  split_ifs with hy <;> simp [ancWeight_UpdateFeeDelta, hy, hfee]

theorem PrioritiseTransactionState_descWeight (y : Uint256) :
    ((pool.PrioritiseTransactionState hash nFeeDelta).entry y).descWeight =
      (pool.entry y).descWeight + if y = hash then (0, 0, nFeeDelta) else 0 := by
  rw [PrioritiseTransactionState_of_mem nFeeDelta hwf hh]
  dsimp only
  split_ifs with hy <;> simp [descWeight_UpdateFeeDelta, hy, hfee]

/-- The entry and its descendants gain the delta in their ancestor fees. -/
theorem PrioritiseTransactionState_ancTotals (y : Uint256) :
    ((pool.PrioritiseTransactionState hash nFeeDelta).entry y).ancTotals =
      (pool.entry y).ancTotals +
        if y = hash ∨ y ∈ pool.descendants hash then (0, 0, nFeeDelta, 0) else 0 := by
  rw [PrioritiseTransactionState_of_mem nFeeDelta hwf hh]
  dsimp only
  split_ifs with hy ha hd hd' <;>
    simp_all [ancTotals_UpdateFeeDelta, hwf.not_mem_ancestors_of_mem_descendants]

/-- The entry and its ancestors gain the delta in their descendant fees. -/
theorem PrioritiseTransactionState_descTotals (y : Uint256) :
    ((pool.PrioritiseTransactionState hash nFeeDelta).entry y).descTotals =
      (pool.entry y).descTotals +
        if y = hash ∨ y ∈ pool.ancestors hash then (0, 0, nFeeDelta) else 0 := by
  rw [PrioritiseTransactionState_of_mem nFeeDelta hwf hh]
  dsimp only
  split_ifs with hy ha hd hd' <;>
    simp_all [descTotals_UpdateFeeDelta, hwf.not_mem_ancestors_of_mem_descendants]

end Effect

variable (hc : Consistent txHash pool) (hfd : FeeDeltasAgree pool)
include hc hfd

/-- `PrioritiseTransaction` keeps the pool consistent. -/
theorem PrioritiseTransactionState_consistent :
    Consistent txHash (pool.PrioritiseTransactionState hash nFeeDelta) := by
  by_cases hh : hash ∈ pool.mapTx
  · have hfee := hfd hash hh
    have hwf := hc.links
    refine hc.of_totals (PrioritiseTransactionState_mapTx nFeeDelta hwf hh)
      (PrioritiseTransactionState_mapLinks nFeeDelta hwf hh) (PrioritiseTransactionState_mapNextTx nFeeDelta hwf hh)
      (PrioritiseTransactionState_totalTxSize nFeeDelta hwf hh)
      (PrioritiseTransactionState_entry_fixed nFeeDelta hwf hh) ?_ ?_
    · -- the ancestor totals of `x` move when `x` is the entry or one of its descendants
      intro x hx
      simp only [PrioritiseTransactionState_ancTotals nFeeDelta hwf hh hfee,
        PrioritiseTransactionState_ancWeight nFeeDelta hwf hh hfee, sum_add_ite_eq, hc.ancestors x hx]
      by_cases hxh : x = hash
      · subst hxh
        simp only [true_or, if_true, hwf.not_mem_ancestors_self, if_false, add_zero]
        abel
      · simp only [hxh, false_or, if_false, add_zero, ← hwf.mem_descendants_iff_mem_ancestors]
        abel
    · -- the descendant totals of `x` move when `x` is the entry or one of its ancestors
      intro x hx
      simp only [PrioritiseTransactionState_descTotals nFeeDelta hwf hh hfee,
        PrioritiseTransactionState_descWeight nFeeDelta hwf hh hfee, sum_add_ite_eq, hc.descendants x hx]
      by_cases hxh : x = hash
      · subst hxh
        simp only [true_or, if_true, hwf.not_mem_descendants_self, if_false, add_zero]
        abel
      · simp only [hxh, false_or, if_false, add_zero, hwf.mem_descendants_iff_mem_ancestors]
        abel
  · rw [PrioritiseTransactionState_of_not_mem hash nFeeDelta hh]
    exact hc.setDeltas _

/-- `PrioritiseTransaction` keeps each entry's fee delta the one `mapDeltas` holds. -/
theorem PrioritiseTransactionState_feeDeltasAgree :
    FeeDeltasAgree (pool.PrioritiseTransactionState hash nFeeDelta) := by
  by_cases hh : hash ∈ pool.mapTx
  · intro x hx
    rw [PrioritiseTransactionState_mapTx nFeeDelta hc.links hh] at hx
    rw [PrioritiseTransactionState_of_mem nFeeDelta hc.links hh]
    by_cases hxh : x = hash
    · subst hxh
      simp
    · have hd := hfd x hx
      dsimp only
      split_ifs <;> simp [hxh, hd]
  · rw [PrioritiseTransactionState_of_not_mem hash nFeeDelta hh]
    intro x hx
    have hxh : x ≠ hash := fun h => hh (h ▸ hx)
    simp only [Function.update_of_ne hxh]
    exact hfd x hx

end Prioritise

/-! ## `addUnchecked` -/

section Add

/-- What `AcceptToMemoryPool` has established of an entry before `addUnchecked` stores it under
`hash`: the entry is new and built from its transaction alone, spends no output of itself or an
output another entry spends, spends only outputs an entry has and that are not null, and nothing
in the pool spends its outputs yet. -/
structure CanAdd (txHash : CTransaction → Uint256) (pool : CTxMemPool) (hash : Uint256)
    (e : CTxMemPoolEntry) : Prop where
  hash_eq : txHash e.tx = hash
  fresh : hash ∉ pool.mapTx
  no_self_spend : ∀ txin ∈ e.tx.vin, txin.prevout.hash ≠ hash
  no_spender : ∀ y ∈ pool.mapTx, ∀ txin ∈ (pool.entry y).tx.vin, txin.prevout.hash ≠ hash
  unspent : ∀ txin ∈ e.tx.vin, pool.mapNextTx txin.prevout = none
  feeDelta_eq : e.feeDelta = 0
  anc_eq : e.ancTotals = e.ancWeight
  desc_eq : e.descTotals = e.descWeight
  size_pos : 0 < e.GetTxSize
  sigOpCost_nonneg : 0 ≤ e.sigOpCost
  outputs : ∀ txin ∈ e.tx.vin, txin.prevout.hash ∈ pool.mapTx →
    ∃ out, (pool.entry txin.prevout.hash).tx.vout[txin.prevout.n.toNat]? = some out ∧ out.IsNull = false

theorem applyDeltas_eq {hash : Uint256} (h : (pool.entry hash).feeDelta = 0) :
    pool.applyDeltas hash = pool.modify hash (·.UpdateFeeDelta ((pool.mapDeltas hash).getD 0)) := by
  unfold applyDeltas
  rcases hd : pool.mapDeltas hash with _ | delta
  · simp [modify, UpdateFeeDelta_zero h]
  · by_cases hδ : delta = 0
    · simp [hδ, modify, UpdateFeeDelta_zero h]
    · simp [hδ]

/-- Recording the spender of each input keeps an outpoint already recorded. -/
theorem foldl_recordSpender (hash : Uint256) : ∀ (vin : List CTxIn) (m : COutPoint → Option Uint256),
    vin.foldl (fun m (txin : CTxIn) =>
        if m txin.prevout = none then Function.update m txin.prevout (some hash) else m) m =
      fun o => if o ∈ vin.map (·.prevout) ∧ m o = none then some hash else m o
  | [], m => by simp
  | txin :: vin, m => by
    rw [List.foldl_cons, foldl_recordSpender hash vin]
    funext o
    by_cases ho : o = txin.prevout
    · subst ho
      by_cases hm : m txin.prevout = none <;> simp [hm]
    · by_cases hm : m txin.prevout = none <;> simp [hm, ho]

/-- The steps of `addUnchecked` before the totals, for a new entry that spends no output of its
own: the entry joins `mapTx` with its fee delta and the parents its inputs name, and its inputs
are recorded as spent by it. -/
theorem addUncheckedLinks_eq {hash : Uint256} {e : CTxMemPoolEntry} (hn : hash ∉ pool.mapTx)
    (hself : ∀ txin ∈ e.tx.vin, txin.prevout.hash ≠ hash) (hfee : e.feeDelta = 0) :
    pool.addUncheckedLinks hash e =
      { mapTx := insert hash pool.mapTx
        entry := Function.update pool.entry hash (e.UpdateFeeDelta ((pool.mapDeltas hash).getD 0))
        mapLinks := Function.update pool.mapLinks hash ⟨pool.inputParents e, ∅⟩
        mapNextTx := fun o =>
          if o ∈ e.tx.vin.map (·.prevout) ∧ pool.mapNextTx o = none then some hash else pool.mapNextTx o
        mapDeltas := pool.mapDeltas
        totalTxSize := pool.totalTxSize } := by
  unfold addUncheckedLinks
  simp only [if_neg hn]
  rw [applyDeltas_eq (by simpa using hfee)]
  -- the new entry's inputs name no entry but those of `mapTx`
  have hT : (e.tx.vin.map (·.prevout.hash)).toFinset.filter (· ∈ insert hash pool.mapTx) =
      pool.inputParents e := by
    refine Finset.filter_congr fun x hx => ?_
    obtain ⟨txin, hin, rfl⟩ := List.mem_map.mp (List.mem_toFinset.mp hx)
    exact Finset.mem_insert.trans (or_iff_right (hself txin hin))
  simp only [modify_mapTx, modify_entry, modify_mapLinks, modify_mapNextTx, modify_mapDeltas,
    modify_totalTxSize, Function.update_self, Function.update_idem, foldl_recordSpender,
    forEach_UpdateParent_self, UpdateFeeDelta_tx, TxLinks.empty, Finset.empty_union, hT]

/-- `addUnchecked` of a new entry that spends no output of its own, with ancestors `S` from the
pool: the entry joins `mapTx` with the parents its inputs name and the ancestor totals of `S`,
each parent takes it as a child, each member of `S` counts it among its descendants, and its
inputs are recorded as spent by it. -/
theorem addUncheckedAncestorsState_eq {hash : Uint256} {e : CTxMemPoolEntry} {S : Finset Uint256}
    (hn : hash ∉ pool.mapTx) (hS : S ⊆ pool.mapTx) (hself : ∀ txin ∈ e.tx.vin, txin.prevout.hash ≠ hash)
    (hfee : e.feeDelta = 0) :
    pool.addUncheckedAncestorsState hash e S =
      { mapTx := insert hash pool.mapTx
        entry := fun y =>
          if y = hash then
            (e.UpdateFeeDelta ((pool.mapDeltas hash).getD 0)).addAncestorState
              (∑ a ∈ S, (pool.entry a).GetTxSize) (∑ a ∈ S, (pool.entry a).GetModifiedFee) S.card
              (∑ a ∈ S, (pool.entry a).sigOpCost)
          else if y ∈ S then
            (pool.entry y).addDescendantState e.GetTxSize
              (e.UpdateFeeDelta ((pool.mapDeltas hash).getD 0)).GetModifiedFee 1
          else pool.entry y
        mapLinks := fun y =>
          if y = hash then ⟨pool.inputParents e, ∅⟩
          else if y ∈ pool.inputParents e then
            { pool.mapLinks y with children := insert hash (pool.mapLinks y).children }
          else pool.mapLinks y
        mapNextTx := fun o =>
          if o ∈ e.tx.vin.map (·.prevout) ∧ pool.mapNextTx o = none then some hash else pool.mapNextTx o
        mapDeltas := pool.mapDeltas
        totalTxSize := pool.totalTxSize + e.GetTxSize } := by
  unfold addUncheckedAncestorsState
  rw [addUncheckedLinks_eq hn hself hfee]
  simp only [UpdateAncestorsOfState, UpdateEntryForAncestorsState, GetMemPoolParents,
    forEach_UpdateChild, forEach_modify, Function.update_self, if_true, one_mul]
  have hnS : hash ∉ S := fun h => hn (hS h)
  have hnP : hash ∉ pool.inputParents e := fun h => hn (Finset.mem_filter.mp h).2
  -- the members of `S` keep their size, fee and sigop cost under `addDescendantState`
  have hsum : ∀ g : CTxMemPoolEntry → ℤ, (∀ x s f c, g (x.addDescendantState s f c) = g x) →
      ∑ x ∈ S, g (if x ∈ S then (Function.update pool.entry hash
          (e.UpdateFeeDelta ((pool.mapDeltas hash).getD 0)) x).addDescendantState
            (e.UpdateFeeDelta ((pool.mapDeltas hash).getD 0)).GetTxSize
            (e.UpdateFeeDelta ((pool.mapDeltas hash).getD 0)).GetModifiedFee 1
        else Function.update pool.entry hash (e.UpdateFeeDelta ((pool.mapDeltas hash).getD 0)) x) =
        ∑ x ∈ S, g (pool.entry x) := fun g hg =>
    Finset.sum_congr rfl fun x hx => by
      have hxh : x ≠ hash := fun h => hnS (h ▸ hx)
      rw [if_pos hx, hg, Function.update_of_ne hxh]
  rw [hsum _ (fun _ _ _ _ => rfl), hsum _ (fun _ _ _ _ => rfl), hsum _ (fun _ _ _ _ => rfl)]
  congr 1
  · funext y
    by_cases hy : y = hash
    · subst hy
      simp [hnS]
    · simp [hy]
  · funext y
    by_cases hy : y = hash
    · subst hy
      simp [hnP]
    · simp [hy]

section Effect

variable {hash : Uint256} {e : CTxMemPoolEntry} (hc : Consistent txHash pool)
include hc

/-- The ancestors `addUnchecked` finds from the inputs: what the in-pool parents the inputs name
reach. -/
theorem mem_ancestorsOfNew (a : Uint256) :
    a ∈ pool.CalculateMemPoolAncestors e hash true ↔
      ∃ p ∈ pool.inputParents e, Relation.ReflTransGen (fun b c => c ∈ pool.GetMemPoolParents b) p a := by
  rw [hc.links.mem_CalculateMemPoolAncestors_search, ancestorSearchStart_true]

theorem ancestorsOfNew_subset : pool.CalculateMemPoolAncestors e hash true ⊆ pool.mapTx := by
  intro a ha
  obtain ⟨p, hp, hpa⟩ := (mem_ancestorsOfNew hc a).mp ha
  rcases Relation.reflTransGen_iff_eq_or_transGen.mp hpa with rfl | h
  · exact (Finset.mem_filter.mp hp).2
  · exact hc.links.mem_of_above h

variable (hadd : CanAdd txHash pool hash e)
include hadd

theorem addUncheckedState_eq :
    pool.addUncheckedState hash e =
      { mapTx := insert hash pool.mapTx
        entry := fun y =>
          if y = hash then
            (e.UpdateFeeDelta ((pool.mapDeltas hash).getD 0)).addAncestorState
              (∑ a ∈ pool.CalculateMemPoolAncestors e hash true, (pool.entry a).GetTxSize)
              (∑ a ∈ pool.CalculateMemPoolAncestors e hash true, (pool.entry a).GetModifiedFee)
              (pool.CalculateMemPoolAncestors e hash true).card
              (∑ a ∈ pool.CalculateMemPoolAncestors e hash true, (pool.entry a).sigOpCost)
          else if y ∈ pool.CalculateMemPoolAncestors e hash true then
            (pool.entry y).addDescendantState e.GetTxSize
              (e.UpdateFeeDelta ((pool.mapDeltas hash).getD 0)).GetModifiedFee 1
          else pool.entry y
        mapLinks := fun y =>
          if y = hash then ⟨pool.inputParents e, ∅⟩
          else if y ∈ pool.inputParents e then
            { pool.mapLinks y with children := insert hash (pool.mapLinks y).children }
          else pool.mapLinks y
        mapNextTx := fun o =>
          if o ∈ e.tx.vin.map (·.prevout) ∧ pool.mapNextTx o = none then some hash else pool.mapNextTx o
        mapDeltas := pool.mapDeltas
        totalTxSize := pool.totalTxSize + e.GetTxSize } :=
  addUncheckedAncestorsState_eq hadd.fresh (ancestorsOfNew_subset hc) hadd.no_self_spend
    hadd.feeDelta_eq

theorem addUncheckedState_mapTx : (pool.addUncheckedState hash e).mapTx = insert hash pool.mapTx := by
  rw [addUncheckedState_eq hc hadd]

theorem addUncheckedState_parents (y : Uint256) :
    (pool.addUncheckedState hash e).GetMemPoolParents y =
      if y = hash then pool.inputParents e else pool.GetMemPoolParents y := by
  rw [addUncheckedState_eq hc hadd]
  unfold GetMemPoolParents
  dsimp only
  split_ifs <;> rfl

theorem addUncheckedState_children (y : Uint256) :
    (pool.addUncheckedState hash e).GetMemPoolChildren y =
      if y = hash then ∅
      else if y ∈ pool.inputParents e then insert hash (pool.GetMemPoolChildren y)
      else pool.GetMemPoolChildren y := by
  rw [addUncheckedState_eq hc hadd]
  unfold GetMemPoolChildren
  dsimp only
  split_ifs <;> rfl

/-- No parent link leads to the new entry. -/
theorem not_mem_addUnchecked_parents (a : Uint256) :
    hash ∉ (pool.addUncheckedState hash e).GetMemPoolParents a := by
  rw [addUncheckedState_parents hc hadd]
  split_ifs
  · exact fun h => hadd.fresh (Finset.mem_filter.mp h).2
  · exact fun h => hadd.fresh (hc.links.parents_sub a h)

/-- Above an old entry lies what lay above it. -/
theorem addUncheckedState_above_of_ne {x : Uint256} (hx : x ≠ hash) (y : Uint256) :
    Above (pool.addUncheckedState hash e).GetMemPoolParents x y ↔ Above pool.GetMemPoolParents x y :=
  above_congr_of_fresh (fun a ha => by rw [addUncheckedState_parents hc hadd, if_neg ha])
    (not_mem_addUnchecked_parents hc hadd) hx y

/-- Above the new entry lie the ancestors `addUnchecked` computed. -/
theorem addUncheckedState_above_self (y : Uint256) :
    Above (pool.addUncheckedState hash e).GetMemPoolParents hash y ↔
      y ∈ pool.CalculateMemPoolAncestors e hash true := by
  rw [above_fresh_iff (fun a ha => by rw [addUncheckedState_parents hc hadd, if_neg ha])
    (not_mem_addUnchecked_parents hc hadd), addUncheckedState_parents hc hadd, if_pos rfl,
    mem_ancestorsOfNew hc]

theorem addUncheckedState_ancestors_of_ne {x : Uint256} (hx : x ≠ hash) :
    (pool.addUncheckedState hash e).ancestors x = pool.ancestors x := by
  ext a
  rw [mem_ancestors, mem_ancestors, addUncheckedState_mapTx hc hadd, addUncheckedState_above_of_ne hc hadd hx,
    Finset.mem_insert]
  exact ⟨fun ⟨_, h⟩ => ⟨hc.links.mem_of_above h, h⟩, fun ⟨ha, h⟩ => ⟨.inr ha, h⟩⟩

theorem addUncheckedState_ancestors_self :
    (pool.addUncheckedState hash e).ancestors hash = pool.CalculateMemPoolAncestors e hash true := by
  ext a
  rw [mem_ancestors, addUncheckedState_above_self hc hadd, addUncheckedState_mapTx hc hadd]
  exact ⟨fun h => h.2, fun h => ⟨Finset.mem_insert_of_mem (ancestorsOfNew_subset hc h), h⟩⟩

/-- The new entry is a descendant of exactly the ancestors computed for it. -/
theorem addUncheckedState_descendants {x : Uint256} (hx : x ∈ pool.mapTx) :
    (pool.addUncheckedState hash e).descendants x =
      if x ∈ pool.CalculateMemPoolAncestors e hash true then insert hash (pool.descendants x)
      else pool.descendants x := by
  have hxh : x ≠ hash := fun h => hadd.fresh (h ▸ hx)
  ext z
  rw [mem_descendants, addUncheckedState_mapTx hc hadd, Finset.mem_insert]
  by_cases hz : z = hash
  · subst hz
    rw [addUncheckedState_above_self hc hadd]
    split_ifs with hS
    · simp [hS]
    · simp only [hS, and_false, false_iff]
      exact fun h => hadd.fresh (mem_descendants.mp h).1
  · rw [addUncheckedState_above_of_ne hc hadd hz]
    have hold : z ∈ pool.mapTx ∧ Above pool.GetMemPoolParents z x ↔ z ∈ pool.descendants x :=
      mem_descendants.symm
    split_ifs <;> simp [hz, hold]

theorem addUncheckedState_descendants_self : (pool.addUncheckedState hash e).descendants hash = ∅ := by
  ext z
  simp only [mem_descendants, Finset.notMem_empty, iff_false, not_and]
  intro _ h
  obtain ⟨w, -, hw⟩ := Relation.TransGen.tail'_iff.mp h
  exact not_mem_addUnchecked_parents hc hadd w hw

theorem addUncheckedState_linksWF : LinksWF (pool.addUncheckedState hash e) := by
  have hP : pool.inputParents e ⊆ pool.mapTx := fun p hp => (Finset.mem_filter.mp hp).2
  refine ⟨fun x hx => ?_, fun x => ?_, fun x y => ?_, fun x => ?_⟩
  · -- nothing is linked outside `mapTx`
    rw [addUncheckedState_mapTx hc hadd, Finset.mem_insert, not_or] at hx
    rw [addUncheckedState_eq hc hadd]
    simp only [if_neg hx.1, if_neg (fun h => hx.2 (hP h))]
    exact hc.links.out x hx.2
  · rw [addUncheckedState_parents hc hadd, addUncheckedState_mapTx hc hadd]
    split_ifs
    · exact hP.trans (Finset.subset_insert _ _)
    · exact (hc.links.parents_sub x).trans (Finset.subset_insert _ _)
  · -- the new entry is a child of its parents and the parent of nothing
    rw [addUncheckedState_children hc hadd, addUncheckedState_parents hc hadd]
    by_cases hx : x = hash
    · subst hx
      simp only [if_true, Finset.notMem_empty, false_iff]
      split_ifs
      · exact fun h => hadd.fresh (hP h)
      · exact fun h => hadd.fresh (hc.links.parents_sub y h)
    · by_cases hy : y = hash
      · subst hy
        have hout : y ∉ pool.GetMemPoolChildren x := fun h => hadd.fresh (hc.links.children_sub x h)
        split_ifs <;> simp_all
      · have hold := hc.links.children_iff x y
        split_ifs <;> simp_all
  · by_cases hx : x = hash
    · subst hx
      intro h
      obtain ⟨w, -, hw⟩ := Relation.TransGen.tail'_iff.mp h
      exact not_mem_addUnchecked_parents hc hadd w hw
    · rw [addUncheckedState_above_of_ne hc hadd hx]
      exact hc.links.acyclic x

theorem addUncheckedState_entry_self :
    (pool.addUncheckedState hash e).entry hash =
      (e.UpdateFeeDelta ((pool.mapDeltas hash).getD 0)).addAncestorState
        (∑ a ∈ pool.CalculateMemPoolAncestors e hash true, (pool.entry a).GetTxSize)
        (∑ a ∈ pool.CalculateMemPoolAncestors e hash true, (pool.entry a).GetModifiedFee)
        (pool.CalculateMemPoolAncestors e hash true).card
        (∑ a ∈ pool.CalculateMemPoolAncestors e hash true, (pool.entry a).sigOpCost) := by
  rw [addUncheckedState_eq hc hadd]
  exact if_pos rfl

theorem addUncheckedState_entry_of_ne {y : Uint256} (hy : y ≠ hash) :
    (pool.addUncheckedState hash e).entry y =
      if y ∈ pool.CalculateMemPoolAncestors e hash true then
        (pool.entry y).addDescendantState e.GetTxSize
          (e.UpdateFeeDelta ((pool.mapDeltas hash).getD 0)).GetModifiedFee 1
      else pool.entry y := by
  rw [addUncheckedState_eq hc hadd]
  exact if_neg hy

/-- An old entry keeps its transaction, weights, fee delta and ancestor totals. -/
theorem addUncheckedState_entry_of_ne_fixed {y : Uint256} (hy : y ≠ hash) :
    ((pool.addUncheckedState hash e).entry y).tx = (pool.entry y).tx ∧
      ((pool.addUncheckedState hash e).entry y).GetTxSize = (pool.entry y).GetTxSize ∧
      ((pool.addUncheckedState hash e).entry y).sigOpCost = (pool.entry y).sigOpCost ∧
      ((pool.addUncheckedState hash e).entry y).feeDelta = (pool.entry y).feeDelta ∧
      ((pool.addUncheckedState hash e).entry y).ancWeight = (pool.entry y).ancWeight ∧
      ((pool.addUncheckedState hash e).entry y).descWeight = (pool.entry y).descWeight ∧
      ((pool.addUncheckedState hash e).entry y).ancTotals = (pool.entry y).ancTotals := by
  rw [addUncheckedState_entry_of_ne hc hadd hy]
  split_ifs <;> simp

/-- The ancestors of the new entry count it among their descendants. -/
theorem addUncheckedState_descTotals_of_ne {y : Uint256} (hy : y ≠ hash) :
    ((pool.addUncheckedState hash e).entry y).descTotals =
      (pool.entry y).descTotals + if y ∈ pool.CalculateMemPoolAncestors e hash true then
        (e.UpdateFeeDelta ((pool.mapDeltas hash).getD 0)).descWeight else 0 := by
  rw [addUncheckedState_entry_of_ne hc hadd hy]
  split_ifs <;> simp [descWeight]

/-- The new entry's package is itself and the ancestors computed for it. -/
theorem addUncheckedState_ancTotals_self :
    ((pool.addUncheckedState hash e).entry hash).ancTotals =
      (e.UpdateFeeDelta ((pool.mapDeltas hash).getD 0)).ancWeight +
        ∑ a ∈ pool.CalculateMemPoolAncestors e hash true, (pool.entry a).ancWeight := by
  rw [addUncheckedState_entry_self hc hadd, ancTotals_addAncestorState, ancTotals_UpdateFeeDelta,
    ancWeight_UpdateFeeDelta, hadd.anc_eq, sum_ancWeight]

theorem addUncheckedState_descTotals_self :
    ((pool.addUncheckedState hash e).entry hash).descTotals =
      (e.UpdateFeeDelta ((pool.mapDeltas hash).getD 0)).descWeight := by
  rw [addUncheckedState_entry_self hc hadd, descTotals_addAncestorState, descTotals_UpdateFeeDelta,
    descWeight_UpdateFeeDelta, hadd.desc_eq]

/-- The parents `check` reads off the inputs do not change for an entry that spends no output of
the new one. -/
theorem addUncheckedState_inputParents {e₁ e₂ : CTxMemPoolEntry} (htx : e₁.tx = e₂.tx)
    (hself : ∀ txin ∈ e₂.tx.vin, txin.prevout.hash ≠ hash) :
    (pool.addUncheckedState hash e).inputParents e₁ = pool.inputParents e₂ := by
  unfold inputParents
  rw [addUncheckedState_mapTx hc hadd, htx]
  refine Finset.filter_congr fun x hx => ?_
  obtain ⟨txin, hin, rfl⟩ := List.mem_map.mp (List.mem_toFinset.mp hx)
  exact Finset.mem_insert.trans (or_iff_right (hself txin hin))

theorem addUncheckedState_tx (y : Uint256) :
    ((pool.addUncheckedState hash e).entry y).tx = if y = hash then e.tx else (pool.entry y).tx := by
  split_ifs with hy
  · rw [hy, addUncheckedState_entry_self hc hadd, addAncestorState_tx, UpdateFeeDelta_tx]
  · exact (addUncheckedState_entry_of_ne_fixed hc hadd hy).1

end Effect

variable {hash : Uint256} {e : CTxMemPoolEntry} (hc : Consistent txHash pool)
  (hadd : CanAdd txHash pool hash e)
include hc hadd

/-- `addUnchecked` of an entry `AcceptToMemoryPool` admitted keeps the pool consistent. -/
theorem addUncheckedState_consistent : Consistent txHash (pool.addUncheckedState hash e) := by
  have hT := addUncheckedState_mapTx hc hadd
  have hfix := fun {y} (hy : y ≠ hash) => addUncheckedState_entry_of_ne_fixed hc hadd hy
  have hne : ∀ {y}, y ∈ pool.mapTx → y ≠ hash := fun hy h => hadd.fresh (h ▸ hy)
  -- an entry of the new pool other than the new one was in the old pool
  have hmemOld : ∀ {x}, x ∈ (pool.addUncheckedState hash e).mapTx → x ≠ hash → x ∈ pool.mapTx :=
    fun hx hxh => Finset.mem_of_mem_insert_of_ne (hT ▸ hx) hxh
  refine ⟨addUncheckedState_linksWF hc hadd, ?hash, ?parents, ?next, ?anc, ?desc, ?total, ?size, ?sig,
    ?outputs⟩
  case hash =>
    intro x hx
    rw [addUncheckedState_tx hc hadd]
    split_ifs with hxh
    · rw [hxh, hadd.hash_eq]
    · exact hc.hash x (hmemOld hx hxh)
  case parents =>
    intro x hx
    rw [addUncheckedState_parents hc hadd]
    split_ifs with hxh
    · rw [hxh, addUncheckedState_inputParents hc hadd ((addUncheckedState_tx hc hadd hash).trans (if_pos rfl))
        hadd.no_self_spend]
    · have hx' := hmemOld hx hxh
      rw [addUncheckedState_inputParents hc hadd (hfix hxh).1 (hadd.no_spender x hx'), hc.parents_eq x hx']
  case next =>
    intro o h
    have hN : (pool.addUncheckedState hash e).mapNextTx o =
        if o ∈ e.tx.vin.map (·.prevout) ∧ pool.mapNextTx o = none then some hash
        else pool.mapNextTx o := by
      rw [addUncheckedState_eq hc hadd]
    rw [hN, hT, Finset.mem_insert, addUncheckedState_tx hc hadd]
    by_cases ho : o ∈ e.tx.vin.map (·.prevout)
    · -- an input of the new entry: no entry of the pool spent it
      obtain ⟨txin, hin, rfl⟩ := List.mem_map.mp ho
      have hnone := hadd.unspent txin hin
      rw [if_pos ⟨ho, hnone⟩]
      by_cases hh : h = hash
      · simp [hh, ho]
      · have hold := hc.nextTx txin.prevout h
        rw [hnone] at hold
        rw [if_neg hh, Option.some_inj]
        constructor
        · exact fun heq => absurd heq.symm hh
        · rintro ⟨hh' | hh', hspent⟩
          · exact absurd hh' hh
          · exact absurd (hold.mpr ⟨hh', hspent⟩) (Option.some_ne_none h).symm
    · rw [if_neg fun h => ho h.1, hc.nextTx o h]
      by_cases hh : h = hash
      · subst hh
        simp [ho, hadd.fresh]
      · simp [hh]
  case anc =>
    intro x hx
    by_cases hxh : x = hash
    · subst hxh
      rw [addUncheckedState_ancTotals_self hc hadd, addUncheckedState_ancestors_self hc hadd,
        addUncheckedState_entry_self hc hadd, ancWeight_addAncestorState]
      congr 1
      exact Finset.sum_congr rfl fun a ha =>
        ((hfix (hne (ancestorsOfNew_subset hc ha))).2.2.2.2.1).symm
    · have hx' := hmemOld hx hxh
      rw [(hfix hxh).2.2.2.2.2.2, (hfix hxh).2.2.2.2.1, addUncheckedState_ancestors_of_ne hc hadd hxh,
        hc.ancestors x hx']
      congr 1
      exact Finset.sum_congr rfl fun a ha =>
        ((hfix (hne (mem_ancestors.mp ha).1)).2.2.2.2.1).symm
  case desc =>
    intro x hx
    by_cases hxh : x = hash
    · subst hxh
      rw [addUncheckedState_descTotals_self hc hadd, addUncheckedState_descendants_self hc hadd,
        Finset.sum_empty, add_zero, addUncheckedState_entry_self hc hadd, descWeight_addAncestorState]
    · have hx' := hmemOld hx hxh
      -- the old descendants keep their weights
      have hold : ∑ z ∈ pool.descendants x, ((pool.addUncheckedState hash e).entry z).descWeight =
          ∑ z ∈ pool.descendants x, (pool.entry z).descWeight :=
        Finset.sum_congr rfl fun z hz => (hfix (hne (mem_descendants.mp hz).1)).2.2.2.2.2.1
      rw [addUncheckedState_descTotals_of_ne hc hadd hxh, addUncheckedState_descendants hc hadd hx',
        (hfix hxh).2.2.2.2.2.1, hc.descendants x hx']
      split_ifs with hS
      · have hnd : hash ∉ pool.descendants x := fun h => hadd.fresh (mem_descendants.mp h).1
        rw [Finset.sum_insert hnd, hold, addUncheckedState_entry_self hc hadd,
          descWeight_addAncestorState]
        abel
      · rw [hold, add_zero]
  case total =>
    have hsize : ∀ y ∈ pool.mapTx, ((pool.addUncheckedState hash e).entry y).GetTxSize =
        (pool.entry y).GetTxSize := fun y hy => (hfix (hne hy)).2.1
    have hself : ((pool.addUncheckedState hash e).entry hash).GetTxSize = e.GetTxSize := by
      rw [addUncheckedState_entry_self hc hadd, addAncestorState_GetTxSize, UpdateFeeDelta_GetTxSize]
    have htotal : (pool.addUncheckedState hash e).totalTxSize = pool.totalTxSize + e.GetTxSize := by
      rw [addUncheckedState_eq hc hadd]
    rw [htotal, hT, Finset.sum_insert hadd.fresh, hself, Finset.sum_congr rfl hsize, hc.totalTxSize,
      add_comm]
  case size =>
    intro x hx
    by_cases hxh : x = hash
    · rw [hxh, addUncheckedState_entry_self hc hadd, addAncestorState_GetTxSize,
        UpdateFeeDelta_GetTxSize]
      exact hadd.size_pos
    · rw [(hfix hxh).2.1]
      exact hc.size_pos x (hmemOld hx hxh)
  case sig =>
    intro x hx
    by_cases hxh : x = hash
    · rw [hxh, addUncheckedState_entry_self hc hadd, addAncestorState_sigOpCost,
        UpdateFeeDelta_sigOpCost]
      exact hadd.sigOpCost_nonneg
    · rw [(hfix hxh).2.2.1]
      exact hc.sigOpCost_nonneg x (hmemOld hx hxh)
  case outputs =>
    intro x hx txin hin hp
    have hpT : txin.prevout.hash ∈ insert hash pool.mapTx := hT ▸ hp
    rw [addUncheckedState_tx hc hadd] at hin
    split_ifs at hin with hxh
    · -- an input of the new entry spends an entry of the pool
      have hne' : txin.prevout.hash ≠ hash := hadd.no_self_spend txin hin
      rw [addUncheckedState_tx hc hadd, if_neg hne']
      exact hadd.outputs txin hin (Finset.mem_of_mem_insert_of_ne hpT hne')
    · have hx' := hmemOld hx hxh
      have hne' : txin.prevout.hash ≠ hash := hadd.no_spender x hx' txin hin
      rw [addUncheckedState_tx hc hadd, if_neg hne']
      exact hc.outputs x hx' txin hin (Finset.mem_of_mem_insert_of_ne hpT hne')

/-- The new entry takes the delta `mapDeltas` holds for it. -/
theorem addUncheckedState_feeDeltasAgree (hfd : FeeDeltasAgree pool) :
    FeeDeltasAgree (pool.addUncheckedState hash e) := by
  intro x hx
  have hD : (pool.addUncheckedState hash e).mapDeltas = pool.mapDeltas := by
    rw [addUncheckedState_eq hc hadd]
  rw [hD]
  by_cases hxh : x = hash
  · rw [hxh, addUncheckedState_entry_self hc hadd, addAncestorState_feeDelta, UpdateFeeDelta_feeDelta]
  · rw [(addUncheckedState_entry_of_ne_fixed hc hadd hxh).2.2.2.1]
    rw [addUncheckedState_mapTx hc hadd] at hx
    exact hfd x (Finset.mem_of_mem_insert_of_ne hx hxh)

end Add

end CTxMemPool

end Mempool

end Cascoin
