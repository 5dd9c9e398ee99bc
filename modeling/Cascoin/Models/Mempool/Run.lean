import Cascoin.Models.Mempool.Asserts

/-!
# Runs of the mempool

`removeRecursive` and `Expire` stage a set of entries with all their descendants and remove it;
`removeForBlock` removes each transaction of a block on its own, then what conflicts with it.
Every operation that changes the pool keeps `Consistent` and the fit of its sigop cost in an
`int`, and never reaches a failed `assert`, and so, from the empty pool, every run of
admissible operations ends in a pool that passes `check` (`Reachable.passes_check`), with every
entry's totals positive (`Reachable.entry_totals_pos`). `PrioritiseTransaction_fees` says what a
prioritisation changes: fees, along the entry's ancestors and descendants, and nothing else.

An operation is admissible when its caller has established what the pool relies on:
`AcceptToMemoryPool` admits to `addUnchecked` only a new transaction with unspent inputs that
name outputs, whose sigop cost keeps the pool's within an `int`, and a connected block spends,
of what the pool holds, only outputs of its own earlier transactions.
-/

namespace Cascoin

namespace Mempool

open Closure CTxMemPoolEntry

namespace CTxMemPool

variable {txHash : CTransaction → Uint256} {pool : CTxMemPool}

/-! ## Stages of descendants -/

namespace LinksWF

variable (hwf : LinksWF pool)
include hwf

/-- `CalculateDescendants` keeps a set closed under the children closed. -/
theorem CalculateDescendants_closed {x : Uint256} (hx : x ∈ pool.mapTx) {acc : Finset Uint256}
    (hacc : ∀ b ∈ acc, pool.GetMemPoolChildren b ⊆ acc) :
    ∀ b ∈ pool.CalculateDescendants x acc,
      pool.GetMemPoolChildren b ⊆ pool.CalculateDescendants x acc := by
  intro b hb c hcb
  rw [hwf.mem_CalculateDescendants hx hacc] at hb ⊢
  have hc : c ∈ pool.mapTx := hwf.children_sub b hcb
  have habove : Above pool.GetMemPoolParents c b := above_single ((hwf.children_iff b c).mp hcb)
  rcases hb with hb | rfl | hb
  · exact .inl (hacc b hb hcb)
  · exact .inr (.inr (mem_descendants.mpr ⟨hc, habove⟩))
  · exact .inr (.inr (mem_descendants.mpr ⟨hc, habove.trans (mem_descendants.mp hb).2⟩))

/-- A loop of `CalculateDescendants` over entries adds them and their descendants. -/
theorem mem_foldl_CalculateDescendants (L : List Uint256) (hL : ∀ s ∈ L, s ∈ pool.mapTx) :
    ∀ acc : Finset Uint256, (∀ b ∈ acc, pool.GetMemPoolChildren b ⊆ acc) → ∀ y,
      y ∈ L.foldl (fun acc it => pool.CalculateDescendants it acc) acc ↔
        y ∈ acc ∨ ∃ s ∈ L, y = s ∨ y ∈ pool.descendants s := by
  induction L with
  | nil => simp
  | cons s L ih =>
    intro acc hacc y
    have hs := hL s List.mem_cons_self
    rw [List.foldl_cons, ih (fun t ht => hL t (List.mem_cons_of_mem _ ht)) _
      (hwf.CalculateDescendants_closed hs hacc), hwf.mem_CalculateDescendants hs hacc]
    simp only [List.mem_cons, exists_eq_or_imp, or_assoc]

/-- The stage `removeRecursive` and `Expire` build: the entries of a set and their descendants. -/
theorem mem_forEach_CalculateDescendants {S : Finset Uint256} (hS : S ⊆ pool.mapTx) (y : Uint256) :
    y ∈ forEach S (fun it acc => pool.CalculateDescendants it acc) ∅ ↔
      ∃ s ∈ S, y = s ∨ y ∈ pool.descendants s := by
  rw [forEach, hwf.mem_foldl_CalculateDescendants _ (fun s hs => hS (mem_sort.mp hs)) ∅ (by simp)]
  simp

theorem forEach_CalculateDescendants_subset {S : Finset Uint256} (hS : S ⊆ pool.mapTx) :
    forEach S (fun it acc => pool.CalculateDescendants it acc) ∅ ⊆ pool.mapTx := by
  intro y hy
  obtain ⟨s, hs, rfl | hy⟩ := (hwf.mem_forEach_CalculateDescendants hS y).mp hy
  · exact hS hs
  · exact (mem_descendants.mp hy).1

/-- The stage holds the descendants of its members. -/
theorem forEach_CalculateDescendants_closed {S : Finset Uint256} (hS : S ⊆ pool.mapTx) :
    ∀ r ∈ forEach S (fun it acc => pool.CalculateDescendants it acc) ∅,
      pool.descendants r ⊆ forEach S (fun it acc => pool.CalculateDescendants it acc) ∅ := by
  intro r hr z hz
  rw [hwf.mem_forEach_CalculateDescendants hS] at hr ⊢
  obtain ⟨s, hs, rfl | hrs⟩ := hr
  · exact ⟨r, hs, .inr hz⟩
  · exact ⟨s, hs, .inr (mem_descendants.mpr
      ⟨(mem_descendants.mp hz).1, (mem_descendants.mp hz).2.trans (mem_descendants.mp hrs).2⟩)⟩

end LinksWF

/-- What a removal leaves: fewer entries, and no entry left with a parent it did not have. -/
structure Shrinks (q pool : CTxMemPool) : Prop where
  mapTx_sub : q.mapTx ⊆ pool.mapTx
  parents_sub : ∀ x ∈ q.mapTx, q.GetMemPoolParents x ⊆ pool.GetMemPoolParents x
  sigOpCost_eq : ∀ x ∈ q.mapTx, (q.entry x).sigOpCost = (pool.entry x).sigOpCost

theorem Shrinks.refl (pool : CTxMemPool) : Shrinks pool pool :=
  ⟨subset_rfl, fun _ _ => subset_rfl, fun _ _ => rfl⟩

theorem Shrinks.trans {p q r : CTxMemPool} (hpq : Shrinks p q) (hqr : Shrinks q r) : Shrinks p r :=
  ⟨hpq.mapTx_sub.trans hqr.mapTx_sub,
    fun x hx => (hpq.parents_sub x hx).trans (hqr.parents_sub x (hpq.mapTx_sub hx)),
    fun x hx => (hpq.sigOpCost_eq x hx).trans (hqr.sigOpCost_eq x (hpq.mapTx_sub hx))⟩

/-- What is left of a pool whose sigop cost fits an `int` still fits. -/
theorem Shrinks.sigOpsFit {q : CTxMemPool} (h : Shrinks q pool) (hc : Consistent txHash pool)
    (hfit : SigOpsFit pool) : SigOpsFit q :=
  calc ∑ x ∈ q.mapTx, (q.entry x).sigOpCost
      = ∑ x ∈ q.mapTx, (pool.entry x).sigOpCost := Finset.sum_congr rfl h.sigOpCost_eq
    _ ≤ ∑ x ∈ pool.mapTx, (pool.entry x).sigOpCost :=
      Finset.sum_le_sum_of_subset_of_nonneg h.mapTx_sub fun x hx _ => hc.sigOpCost_nonneg x hx
    _ < 2 ^ 31 := hfit

theorem RemoveStagedState_shrinks (hwf : LinksWF pool) {E : Finset Uint256} (hE : E ⊆ pool.mapTx)
    (ud : Bool) : Shrinks (pool.RemoveStagedState E ud) pool := by
  refine ⟨fun x hx => ?_, fun x hx => ?_, fun x _ => (RemoveStagedState_entry_fixed hwf hE ud x).2.2.1⟩
  · rw [RemoveStagedState_mapTx hwf hE] at hx
    exact (Finset.mem_sdiff.mp hx).1
  · rw [RemoveStagedState_mapTx hwf hE] at hx
    rw [RemoveStagedState_parents hwf hE ud (Finset.mem_sdiff.mp hx).2]
    exact Finset.sdiff_subset

/-- `removeRecursive` with its starting entries as one step. -/
theorem removeRecursive_eq_bind {ε : Type} (origTx : CTransaction) :
    (pool.removeRecursive txHash origTx : Checked ε CTxMemPool) =
      (if txHash origTx ∈ pool.mapTx then pure {txHash origTx}
        else pool.spendersOf (txHash origTx) origTx.vout.length) >>= fun txToRemove =>
        pool.RemoveStaged (forEach txToRemove
          (fun it setAllRemoves => pool.CalculateDescendants it setAllRemoves) ∅) false := by
  unfold removeRecursive
  dsimp only
  split <;> rfl

/-! ## Admission -/

/-- What `AcceptToMemoryPool` has established of a transaction before `addUnchecked`: it is new,
spends no output of its own, nothing in the pool spends it, and its inputs are unspent in the
pool; an input spending an entry names an output of it that is not null (`CheckTransaction`
rejects negative values). -/
structure NewTx (txHash : CTransaction → Uint256) (pool : CTxMemPool) (tx : CTransaction) : Prop where
  fresh : txHash tx ∉ pool.mapTx
  no_self_spend : ∀ txin ∈ tx.vin, txin.prevout.hash ≠ txHash tx
  no_spender : ∀ y ∈ pool.mapTx, ∀ txin ∈ (pool.entry y).tx.vin, txin.prevout.hash ≠ txHash tx
  unspent : ∀ txin ∈ tx.vin, pool.mapNextTx txin.prevout = none
  outputs : ∀ txin ∈ tx.vin, txin.prevout.hash ∈ pool.mapTx →
    ∃ out, (pool.entry txin.prevout.hash).tx.vout[txin.prevout.n.toNat]? = some out ∧ out.IsNull = false

/-- A new transaction's fresh entry can be added. -/
theorem NewTx.canAdd {tx : CTransaction} (h : NewTx txHash pool tx) (nFee nTime : ℤ)
    {nTxWeight sigOpCost : ℤ} (hw : 0 < nTxWeight) (hs : 0 ≤ sigOpCost) :
    CanAdd txHash pool (txHash tx) (create tx nFee nTime nTxWeight sigOpCost) where
  hash_eq := rfl
  fresh := h.fresh
  no_self_spend := h.no_self_spend
  no_spender := h.no_spender
  unspent := h.unspent
  feeDelta_eq := rfl
  anc_eq := ancTotals_create tx nFee nTime nTxWeight sigOpCost
  desc_eq := descTotals_create tx nFee nTime nTxWeight sigOpCost
  size_pos := GetTxSize_pos hw
  sigOpCost_nonneg := hs
  outputs := h.outputs

/-- A transaction with no inputs is new to the empty pool. -/
theorem emptyTx_new : NewTx (fun _ => Uint256.zero) empty ⟨[], []⟩ :=
  ⟨Finset.notMem_empty _, fun _ h => absurd h List.not_mem_nil,
    fun _ h => absurd h (Finset.notMem_empty _), fun _ h => absurd h List.not_mem_nil,
    fun _ h => absurd h List.not_mem_nil⟩

/-- A removal of a stage closed under descendants, with what it keeps. -/
structure RemovesClosed (txHash : CTransaction → Uint256) (pool q : CTxMemPool) (E : Finset Uint256) :
    Prop where
  subset : E ⊆ pool.mapTx
  closed : ∀ r ∈ E, pool.descendants r ⊆ E
  eq : q = pool.RemoveStagedState E false

section Closed

variable (hc : Consistent txHash pool)
include hc

theorem RemovesClosed.consistent {q : CTxMemPool} {E : Finset Uint256}
    (h : RemovesClosed txHash pool q E) : Consistent txHash q := by
  rw [h.eq]
  exact RemoveStagedState_consistent_of_closed hc h.closed h.subset

theorem RemovesClosed.feeDeltasAgree {q : CTxMemPool} {E : Finset Uint256}
    (h : RemovesClosed txHash pool q E)
    (hfd : ∀ x ∈ pool.mapTx \ E, (pool.entry x).feeDelta = (pool.mapDeltas x).getD 0) :
    FeeDeltasAgree q := by
  rw [h.eq]
  exact RemoveStagedState_feeDeltasAgree hc.links h.subset false hfd

theorem RemovesClosed.shrinks {q : CTxMemPool} {E : Finset Uint256}
    (h : RemovesClosed txHash pool q E) : Shrinks q pool := by
  rw [h.eq]
  exact RemoveStagedState_shrinks hc.links h.subset false

/-! ## `removeRecursive` -/

/-- The loop over the outputs of a transaction not in the pool meets no failed `assert`: every
spender `mapNextTx` records is an entry of `mapTx`. -/
theorem spendersOf_ok {ε : Type} (hash : Uint256) (nOutputs : ℕ) :
    ∃ S, (pool.spendersOf hash nOutputs : Checked ε (Finset Uint256)) = .ok S ∧ S ⊆ pool.mapTx := by
  unfold spendersOf
  refine Checked.foldlM_ok_of_invariant (fun s i hs => ?_) _ (Finset.empty_subset _)
  split
  · exact ⟨s, rfl, hs⟩
  · next nextit hnext =>
    have hmem : nextit ∈ pool.mapTx := ((hc.nextTx _ _).mp hnext).1
    exact ⟨insert nextit s, by simp [hmem], Finset.insert_subset hmem hs⟩

/-- `removeRecursive` removes a stage closed under descendants: the transaction and its
descendants when it is in the pool. -/
theorem removeRecursive_removesClosed {ε : Type} (origTx : CTransaction) :
    ∃ E q, (pool.removeRecursive txHash origTx : Checked ε CTxMemPool) = .ok q ∧
      RemovesClosed txHash pool q E ∧
      (txHash origTx ∈ pool.mapTx → E = insert (txHash origTx) (pool.descendants (txHash origTx))) := by
  have hwf := hc.links
  -- the entries `removeRecursive` starts from
  obtain ⟨S, hS, hSsub, hSself⟩ : ∃ S, (if txHash origTx ∈ pool.mapTx then pure {txHash origTx}
      else pool.spendersOf (txHash origTx) origTx.vout.length : Checked ε (Finset Uint256)) = .ok S ∧
      S ⊆ pool.mapTx ∧ (txHash origTx ∈ pool.mapTx → S = {txHash origTx}) := by
    split_ifs with hh
    · exact ⟨{txHash origTx}, rfl, Finset.singleton_subset_iff.mpr hh, fun _ => rfl⟩
    · obtain ⟨S, hS, hsub⟩ := spendersOf_ok hc (ε := ε) (txHash origTx) origTx.vout.length
      exact ⟨S, hS, hsub, fun h => absurd h hh⟩
  refine ⟨forEach S (fun it acc => pool.CalculateDescendants it acc) ∅, _, ?_,
    ⟨hwf.forEach_CalculateDescendants_subset hSsub, hwf.forEach_CalculateDescendants_closed hSsub,
      rfl⟩, fun hh => ?_⟩
  · rw [removeRecursive_eq_bind, hS, Checked.ok_bind]
    exact hc.RemoveStaged_eq_ok (hwf.forEach_CalculateDescendants_subset hSsub) false nofun
  · ext y
    rw [hwf.mem_forEach_CalculateDescendants hSsub, hSself hh, Finset.mem_insert]
    simp

/-- `removeRecursive` meets no failed `assert` and keeps the pool consistent; the fee deltas
need agree beforehand only off the transaction itself, which leaves when it is in the pool. -/
theorem removeRecursive_consistent {ε : Type} (origTx : CTransaction) :
    ∃ q, (pool.removeRecursive txHash origTx : Checked ε CTxMemPool) = .ok q ∧
      Consistent txHash q ∧ Shrinks q pool ∧
      ((∀ x ∈ pool.mapTx, x ≠ txHash origTx → (pool.entry x).feeDelta = (pool.mapDeltas x).getD 0) →
        FeeDeltasAgree q) := by
  obtain ⟨E, q, hq, hrem, hE⟩ := removeRecursive_removesClosed hc (ε := ε) origTx
  refine ⟨q, hq, hrem.consistent hc, hrem.shrinks hc, fun hfd => hrem.feeDeltasAgree hc fun x hx => ?_⟩
  obtain ⟨hxT, hxE⟩ := Finset.mem_sdiff.mp hx
  refine hfd x hxT fun hxh => hxE ?_
  rw [hE (hxh ▸ hxT), hxh]
  exact Finset.mem_insert_self _ _

/-- `removeRecursive` of a transaction in the pool meets no failed `assert` and removes exactly
it and its descendants. -/
theorem removeRecursive_mapTx {ε : Type} {origTx : CTransaction} (hh : txHash origTx ∈ pool.mapTx) :
    ∃ q, (pool.removeRecursive txHash origTx : Checked ε CTxMemPool) = .ok q ∧
      q.mapTx = pool.mapTx \ insert (txHash origTx) (pool.descendants (txHash origTx)) := by
  obtain ⟨E, q, hq, hrem, hE⟩ := removeRecursive_removesClosed hc (ε := ε) origTx
  refine ⟨q, hq, ?_⟩
  rw [hrem.eq, RemoveStagedState_mapTx hc.links hrem.subset, hE hh]

omit hc in
theorem emptyTx_canAdd :
    CanAdd (fun _ => Uint256.zero) empty Uint256.zero (create ⟨[], []⟩ 0 0 400 0) :=
  emptyTx_new.canAdd 0 0 (by decide) le_rfl

omit hc in
theorem removeRecursive_mapTx_single :
    ∃ q, ((empty.addUncheckedState Uint256.zero (create ⟨[], []⟩ 0 0 400 0)).removeRecursive
        (fun _ => Uint256.zero) ⟨[], []⟩ : Checked Unit CTxMemPool) = .ok q ∧ q.mapTx = ∅ := by
  set p := empty.addUncheckedState Uint256.zero (create ⟨[], []⟩ 0 0 400 0)
  have hc1 := addUncheckedState_consistent (empty_consistent _) emptyTx_canAdd
  have hT := addUncheckedState_mapTx (empty_consistent _) emptyTx_canAdd
  have hh : Uint256.zero ∈ p.mapTx := by
    rw [hT]
    exact Finset.mem_insert_self _ _
  obtain ⟨q, hq, hqT⟩ : ∃ q, (p.removeRecursive (fun _ => Uint256.zero) ⟨[], []⟩ : Checked Unit CTxMemPool) =
      .ok q ∧ q.mapTx = p.mapTx \ insert Uint256.zero (p.descendants Uint256.zero) :=
    removeRecursive_mapTx hc1 hh
  refine ⟨q, hq, ?_⟩
  rw [hqT, hT, show empty.mapTx = ∅ from rfl]
  simp

/-! ## `Expire` -/

/-- The stage of `Expire`: the entries older than `time` and their descendants. -/
theorem mem_Expire_stage (time : ℤ) (y : Uint256) :
    y ∈ forEach (pool.mapTx.filter fun it => (pool.entry it).nTime < time)
        (fun removeit stage => pool.CalculateDescendants removeit stage) ∅ ↔
      ∃ s ∈ pool.mapTx, (pool.entry s).nTime < time ∧ (y = s ∨ y ∈ pool.descendants s) := by
  rw [hc.links.mem_forEach_CalculateDescendants (Finset.filter_subset _ _)]
  simp [and_assoc]

theorem ExpireState_removesClosed (time : ℤ) :
    RemovesClosed txHash pool (pool.ExpireState time).1
      (forEach (pool.mapTx.filter fun it => (pool.entry it).nTime < time)
        (fun removeit stage => pool.CalculateDescendants removeit stage) ∅) :=
  ⟨hc.links.forEach_CalculateDescendants_subset (Finset.filter_subset _ _),
    hc.links.forEach_CalculateDescendants_closed (Finset.filter_subset _ _), rfl⟩

/-- `Expire` returns the state `ExpireState` describes. -/
theorem Expire_eq_ok {ε : Type} (time : ℤ) :
    (pool.Expire time : Checked ε (CTxMemPool × ℕ)) = .ok (pool.ExpireState time) := by
  unfold Expire ExpireState
  dsimp only
  rw [hc.RemoveStaged_eq_ok (ExpireState_removesClosed hc time).subset false nofun, Checked.ok_bind]
  rfl

/-- `Expire(time)` meets no failed `assert`, keeps the pool consistent and leaves no entry older
than `time`, nor any entry with an ancestor older than `time`. -/
theorem Expire_consistent {ε : Type} (time : ℤ) :
    ∃ q n, (pool.Expire time : Checked ε (CTxMemPool × ℕ)) = .ok (q, n) ∧ Consistent txHash q ∧
      ∀ x ∈ q.mapTx, time ≤ (pool.entry x).nTime ∧
        ∀ a ∈ pool.ancestors x, time ≤ (pool.entry a).nTime := by
  have hrem := ExpireState_removesClosed hc time
  refine ⟨(pool.ExpireState time).1, (pool.ExpireState time).2, Expire_eq_ok hc time,
    hrem.consistent hc, fun x hx => ?_⟩
  rw [hrem.eq, RemoveStagedState_mapTx hc.links hrem.subset, Finset.mem_sdiff,
    mem_Expire_stage hc] at hx
  obtain ⟨hxT, hxE⟩ := hx
  refine ⟨not_lt.mp fun hlt => hxE ⟨x, hxT, hlt, .inl rfl⟩, fun a ha => not_lt.mp fun hlt => ?_⟩
  exact hxE ⟨a, (mem_ancestors.mp ha).1, hlt,
    .inr (hc.links.mem_descendants_iff_mem_ancestors.mpr ha)⟩

end Closed

theorem Expire_empty_consistent :
    ∃ q n, (empty.Expire 0 : Checked Unit (CTxMemPool × ℕ)) = .ok (q, n) ∧
      Consistent (fun _ => Uint256.zero) q ∧
      ∀ x ∈ q.mapTx, 0 ≤ (empty.entry x).nTime ∧ ∀ a ∈ empty.ancestors x, 0 ≤ (empty.entry a).nTime :=
  Expire_consistent (empty_consistent _) 0

/-! ## `ClearPrioritisation` -/

theorem ClearPrioritisation_mapDeltas_of_ne {hash x : Uint256} (hx : x ≠ hash) :
    (pool.ClearPrioritisation hash).mapDeltas x = pool.mapDeltas x :=
  Function.update_of_ne hx _ _

theorem ClearPrioritisation_shrinks (hash : Uint256) : Shrinks (pool.ClearPrioritisation hash) pool :=
  ⟨fun _ hx => hx, fun _ _ => subset_rfl, fun _ _ => rfl⟩

/-- Clearing the delta of a hash the pool does not hold keeps the fee deltas in agreement. -/
theorem ClearPrioritisation_feeDeltasAgree {hash : Uint256} (hfd : FeeDeltasAgree pool)
    (hh : hash ∉ pool.mapTx) : FeeDeltasAgree (pool.ClearPrioritisation hash) := by
  intro x hx
  have hxh : x ≠ hash := fun hxh => hh (by rw [← hxh]; exact hx)
  rw [ClearPrioritisation_entry, ClearPrioritisation_mapDeltas_of_ne hxh]
  exact hfd x hx

/-! ## The pool's sigop cost -/

theorem empty_sigOpsFit : SigOpsFit empty := by
  unfold SigOpsFit
  rw [show empty.mapTx = ∅ from rfl, Finset.sum_empty]
  norm_num

/-- An entry admitted with a sigop cost that keeps the pool's within an `int` keeps it there. -/
theorem addUncheckedState_sigOpsFit {hash : Uint256} {e : CTxMemPoolEntry}
    (hc : Consistent txHash pool) (hadd : CanAdd txHash pool hash e)
    (hfit : ∑ x ∈ pool.mapTx, (pool.entry x).sigOpCost + e.sigOpCost < 2 ^ 31) :
    SigOpsFit (pool.addUncheckedState hash e) := by
  have hself : ((pool.addUncheckedState hash e).entry hash).sigOpCost = e.sigOpCost := by
    rw [addUncheckedState_entry_self hc hadd, addAncestorState_sigOpCost, UpdateFeeDelta_sigOpCost]
  have hold : ∀ y ∈ pool.mapTx,
      ((pool.addUncheckedState hash e).entry y).sigOpCost = (pool.entry y).sigOpCost := fun y hy =>
    (addUncheckedState_entry_of_ne_fixed hc hadd fun h => hadd.fresh (h ▸ hy)).2.2.1
  unfold SigOpsFit
  rw [addUncheckedState_mapTx hc hadd, Finset.sum_insert hadd.fresh, hself, Finset.sum_congr rfl hold,
    add_comm]
  exact hfit

/-- A prioritisation changes no sigop cost. -/
theorem PrioritiseTransactionState_sigOpsFit (hc : Consistent txHash pool) (hfit : SigOpsFit pool)
    (hash : Uint256) (nFeeDelta : ℤ) : SigOpsFit (pool.PrioritiseTransactionState hash nFeeDelta) := by
  by_cases hh : hash ∈ pool.mapTx
  · unfold SigOpsFit
    rw [PrioritiseTransactionState_mapTx nFeeDelta hc.links hh,
      Finset.sum_congr rfl fun y _ => (PrioritiseTransactionState_entry_fixed nFeeDelta hc.links hh y).2.2]
    exact hfit
  · rw [PrioritiseTransactionState_of_not_mem hash nFeeDelta hh]
    exact hfit

/-! ## `PrioritiseTransaction` -/

/-- `PrioritiseTransaction(hash, nFeeDelta)` of an entry whose delta agrees with `mapDeltas`
moves fees only: when it returns, the entry's modified fee, the ancestor fees of it and its
descendants, and the descendant fees of it and its ancestors have risen by `nFeeDelta`, and no
count, size or sigop total has changed. -/
theorem PrioritiseTransaction_fees {ε : Type} (hwf : LinksWF pool) {hash : Uint256}
    (hh : hash ∈ pool.mapTx) (nFeeDelta : ℤ)
    (hfee : (pool.entry hash).feeDelta = (pool.mapDeltas hash).getD 0) {q : CTxMemPool}
    (hq : (pool.PrioritiseTransaction hash nFeeDelta : Checked ε CTxMemPool) = .ok q) (y : Uint256) :
    (q.entry y).GetModifiedFee = (pool.entry y).GetModifiedFee + (if y = hash then nFeeDelta else 0) ∧
      (q.entry y).nModFeesWithAncestors = (pool.entry y).nModFeesWithAncestors +
          (if y = hash ∨ y ∈ pool.descendants hash then nFeeDelta else 0) ∧
      (q.entry y).nModFeesWithDescendants = (pool.entry y).nModFeesWithDescendants +
          (if y = hash ∨ y ∈ pool.ancestors hash then nFeeDelta else 0) ∧
      (q.entry y).nCountWithAncestors = (pool.entry y).nCountWithAncestors ∧
      (q.entry y).nSizeWithAncestors = (pool.entry y).nSizeWithAncestors ∧
      (q.entry y).nSigOpCostWithAncestors = (pool.entry y).nSigOpCostWithAncestors ∧
      (q.entry y).nCountWithDescendants = (pool.entry y).nCountWithDescendants ∧
      (q.entry y).nSizeWithDescendants = (pool.entry y).nSizeWithDescendants := by
  rw [PrioritiseTransaction_eq_of_ok hq]
  have hw := PrioritiseTransactionState_ancWeight nFeeDelta hwf hh hfee y
  have ha := PrioritiseTransactionState_ancTotals nFeeDelta hwf hh hfee y
  have hd := PrioritiseTransactionState_descTotals nFeeDelta hwf hh hfee y
  -- read each total off its component of the tuples
  simp only [Prod.ext_iff, Prod.fst_add, Prod.snd_add, apply_ite Prod.fst, apply_ite Prod.snd,
    Prod.fst_zero, Prod.snd_zero, ite_self, add_zero] at hw ha hd
  exact ⟨hw.2.2.1, ha.2.2.1, hd.2.2, ha.1, ha.2.1, ha.2.2.2, hd.1, hd.2.1⟩

theorem PrioritiseTransaction_fees_single :
    let pool := empty.addUncheckedState Uint256.zero (create ⟨[], []⟩ 0 0 400 0)
    let e' := (pool.PrioritiseTransactionState Uint256.zero 5).entry Uint256.zero
    let e := pool.entry Uint256.zero
    e'.GetModifiedFee = e.GetModifiedFee + (if Uint256.zero = Uint256.zero then 5 else 0) ∧
      e'.nModFeesWithAncestors = e.nModFeesWithAncestors +
        (if Uint256.zero = Uint256.zero ∨ Uint256.zero ∈ pool.descendants Uint256.zero then 5 else 0) ∧
      e'.nModFeesWithDescendants = e.nModFeesWithDescendants +
        (if Uint256.zero = Uint256.zero ∨ Uint256.zero ∈ pool.ancestors Uint256.zero then 5 else 0) ∧
      e'.nCountWithAncestors = e.nCountWithAncestors ∧ e'.nSizeWithAncestors = e.nSizeWithAncestors ∧
      e'.nSigOpCostWithAncestors = e.nSigOpCostWithAncestors ∧
      e'.nCountWithDescendants = e.nCountWithDescendants ∧
      e'.nSizeWithDescendants = e.nSizeWithDescendants := by
  intro pool e' e
  have hc := addUncheckedState_consistent (empty_consistent _) emptyTx_canAdd
  have hfd := addUncheckedState_feeDeltasAgree (empty_consistent _) emptyTx_canAdd empty_feeDeltasAgree
  have hfit : SigOpsFit pool :=
    addUncheckedState_sigOpsFit (empty_consistent _) emptyTx_canAdd (by simp [empty, create])
  have hh : Uint256.zero ∈ pool.mapTx := by
    rw [addUncheckedState_mapTx (empty_consistent _) emptyTx_canAdd]
    exact Finset.mem_insert_self _ _
  exact PrioritiseTransaction_fees (ε := Unit) hc.links hh 5 (hfd _ hh)
    (hc.PrioritiseTransaction_eq_ok hfit _ _) Uint256.zero

section Conflicts

variable (hc : Consistent txHash pool) (hfd : FeeDeltasAgree pool)
include hc hfd

/-! ## `removeConflicts` -/

/-- `removeConflicts(tx)` meets no failed `assert`: each spender of an input of `tx` other than
`tx` loses its prioritisation and leaves with its descendants, which keeps the pool
consistent and its fee deltas in agreement. -/
theorem removeConflicts_consistent {ε : Type} (tx : CTransaction) :
    ∃ q, (pool.removeConflicts txHash tx : Checked ε CTxMemPool) = .ok q ∧
      Consistent txHash q ∧ FeeDeltasAgree q ∧ Shrinks q pool := by
  unfold removeConflicts
  refine Checked.foldlM_ok_of_invariant
    (P := fun s => Consistent txHash s ∧ FeeDeltasAgree s ∧ Shrinks s pool)
    (fun s txin ⟨hcs, hfds, hss⟩ => ?_) _ ⟨hc, hfd, Shrinks.refl pool⟩
  split
  · next conflict _ =>
    dsimp only
    split_ifs
    · -- the conflict's own delta is cleared; it leaves the pool if it is there
      have hcc : Consistent txHash (s.ClearPrioritisation (txHash (s.entry conflict).tx)) :=
        hcs.setDeltas _
      obtain ⟨q, hq, hcq, hsq, hfdq⟩ := removeRecursive_consistent hcc (ε := ε) (s.entry conflict).tx
      refine ⟨q, hq, hcq, hfdq fun x hx hxne => ?_,
        (hsq.trans (ClearPrioritisation_shrinks _)).trans hss⟩
      rw [ClearPrioritisation_mapDeltas_of_ne hxne]
      exact hfds x hx
    · exact ⟨s, rfl, hcs, hfds, hss⟩
  · exact ⟨s, rfl, hcs, hfds, hss⟩

end Conflicts

/-! ## `removeForBlock` -/

/-- The transactions of a block in their order, each with its pool parents among the block's
transactions before it (`D` at the start). A connected block is so: a transaction spends only
confirmed outputs, and a pool parent is confirmed only with the block itself. -/
def BlockOrdered (txHash : CTransaction → Uint256) (pool : CTxMemPool) :
    Finset Uint256 → List CTransaction → Prop
  | _, [] => True
  | D, tx :: vtx =>
    pool.GetMemPoolParents (txHash tx) ⊆ D ∧ BlockOrdered txHash pool (insert (txHash tx) D) vtx

instance decidableBlockOrdered (txHash : CTransaction → Uint256) (pool : CTxMemPool) :
    ∀ D vtx, Decidable (BlockOrdered txHash pool D vtx)
  | _, [] => isTrue trivial
  | D, tx :: vtx =>
    @instDecidableAnd _ _ inferInstance (decidableBlockOrdered txHash pool (insert (txHash tx) D) vtx)

/-- What `removeForBlock` keeps along the block: the pool stays consistent, within the pool
it started from, with its sigop cost in an `int`, and holds none of the block's transactions
already passed. -/
structure BlockInv (txHash : CTransaction → Uint256) (pool : CTxMemPool) (D : Finset Uint256)
    (s : CTxMemPool) : Prop where
  consistent : Consistent txHash s
  feeDeltas : FeeDeltasAgree s
  fit : SigOpsFit s
  shrinks : Shrinks s pool
  disjoint : Disjoint D s.mapTx

/-- The invariant at the start of the block. -/
theorem BlockInv.init (hc : Consistent txHash pool) (hfd : FeeDeltasAgree pool) (hfit : SigOpsFit pool) :
    BlockInv txHash pool ∅ pool :=
  ⟨hc, hfd, hfit, Shrinks.refl pool, Finset.disjoint_empty_left _⟩

/-- The invariant for fewer transactions of the block passed. -/
theorem BlockInv.anti {D D' : Finset Uint256} {s : CTxMemPool} (h : BlockInv txHash pool D s)
    (hD : D' ⊆ D) : BlockInv txHash pool D' s :=
  ⟨h.consistent, h.feeDeltas, h.fit, h.shrinks, Finset.disjoint_of_subset_left hD h.disjoint⟩

/-- The loop of `removeForBlock` one transaction at a time. -/
theorem removeForBlock_cons {ε : Type} (s : CTxMemPool) (tx : CTransaction) (vtx : List CTransaction) :
    (s.removeForBlock txHash (tx :: vtx) : Checked ε CTxMemPool) =
      (if txHash tx ∈ s.mapTx then s.RemoveStaged {txHash tx} true else pure s) >>= fun s1 =>
        s1.removeConflicts txHash tx >>= fun q =>
          (q.ClearPrioritisation (txHash tx)).removeForBlock txHash vtx := by
  unfold removeForBlock
  rw [List.foldlM_cons]
  by_cases h : txHash tx ∈ s.mapTx <;> simp only [h, ↓reduceIte, bind_assoc, pure_bind]

/-- One transaction of the block: it leaves the pool as a root, since its pool parents lie
among the block's transactions already passed and none of those is left. -/
theorem BlockInv.step {ε : Type} {D : Finset Uint256} {s : CTxMemPool} (hs : BlockInv txHash pool D s)
    {tx : CTransaction} (hpar : pool.GetMemPoolParents (txHash tx) ⊆ D) :
    ∃ s1 q, (if txHash tx ∈ s.mapTx then s.RemoveStaged {txHash tx} true else pure s :
        Checked ε CTxMemPool) = .ok s1 ∧
      (s1.removeConflicts txHash tx : Checked ε CTxMemPool) = .ok q ∧
      BlockInv txHash pool (insert (txHash tx) D) (q.ClearPrioritisation (txHash tx)) := by
  have hwf := hs.consistent.links
  obtain ⟨s1, h1, hc1, hfd1, hs1, hout⟩ : ∃ s1, (if txHash tx ∈ s.mapTx then
      s.RemoveStaged {txHash tx} true else pure s : Checked ε CTxMemPool) = .ok s1 ∧
      Consistent txHash s1 ∧ FeeDeltasAgree s1 ∧ Shrinks s1 s ∧ txHash tx ∉ s1.mapTx := by
    split_ifs with hin
    · -- the transaction is a root of `s`: a parent would be a block transaction still there
      have hroot : s.GetMemPoolParents (txHash tx) = ∅ :=
        Finset.eq_empty_of_forall_notMem fun p hp => Finset.disjoint_left.mp hs.disjoint
          (hpar (hs.shrinks.parents_sub _ hin hp)) (hwf.parents_sub _ hp)
      have hE : {txHash tx} ⊆ s.mapTx := Finset.singleton_subset_iff.mpr hin
      refine ⟨_, hs.consistent.RemoveStaged_eq_ok hE true fun _ => hs.fit,
        RemoveStagedState_consistent_root hroot hs.consistent hin,
        RemoveStagedState_feeDeltasAgree hwf hE true fun x hx => hs.feeDeltas x (Finset.mem_sdiff.mp hx).1,
        RemoveStagedState_shrinks hwf hE true, ?_⟩
      rw [RemoveStagedState_mapTx hwf hE]
      simp
    · exact ⟨s, rfl, hs.consistent, hs.feeDeltas, Shrinks.refl s, hin⟩
  obtain ⟨q, hq, hcq, hfdq, hsq⟩ := removeConflicts_consistent hc1 hfd1 (ε := ε) tx
  have hqout : txHash tx ∉ q.mapTx := fun h => hout (hsq.mapTx_sub h)
  have hshr : Shrinks (q.ClearPrioritisation (txHash tx)) s :=
    (ClearPrioritisation_shrinks _).trans (hsq.trans hs1)
  refine ⟨s1, q, h1, hq, hcq.setDeltas _, ClearPrioritisation_feeDeltasAgree hfdq hqout,
    hshr.sigOpsFit hs.consistent hs.fit, hshr.trans hs.shrinks, ?_⟩
  rw [ClearPrioritisation_mapTx, Finset.disjoint_insert_left]
  exact ⟨hqout, Finset.disjoint_of_subset_right (hsq.trans hs1).mapTx_sub hs.disjoint⟩

/-- The run of `removeForBlock` over the rest of a block, from a state of the invariant. -/
theorem BlockInv.removeForBlock {ε : Type} :
    ∀ (vtx : List CTransaction) {D : Finset Uint256} {s : CTxMemPool}, BlockInv txHash pool D s →
      BlockOrdered txHash pool D vtx →
      ∃ q, (s.removeForBlock txHash vtx : Checked ε CTxMemPool) = .ok q ∧
        BlockInv txHash pool D q ∧ ∀ tx ∈ vtx, txHash tx ∉ q.mapTx
  | [], _, s, hs, _ => ⟨s, rfl, hs, fun _ h => absurd h List.not_mem_nil⟩
  | tx :: vtx, D, s, hs, hord => by
    obtain ⟨s1, q, h1, hq, hq'⟩ := hs.step (ε := ε) hord.1
    obtain ⟨r, hr, hr', hout⟩ := BlockInv.removeForBlock vtx hq' hord.2
    refine ⟨r, by rw [removeForBlock_cons, h1, Checked.ok_bind, hq, Checked.ok_bind]; exact hr,
      hr'.anti (Finset.subset_insert _ _), ?_⟩
    intro t ht
    rcases List.mem_cons.mp ht with rfl | ht
    · exact Finset.disjoint_left.mp hr'.disjoint (Finset.mem_insert_self _ _)
    · exact hout t ht

/-- `removeForBlock(vtx)` of a block in order meets no failed `assert`, keeps the pool
consistent and its fee deltas in agreement, and leaves none of the block's transactions; the
pool's sigop cost must fit an `int`, as `UpdateAncestorState` casts it. -/
theorem removeForBlock_consistent {ε : Type} (hc : Consistent txHash pool) (hfd : FeeDeltasAgree pool)
    (hfit : SigOpsFit pool) {vtx : List CTransaction} (hord : BlockOrdered txHash pool ∅ vtx) :
    ∃ q, (pool.removeForBlock txHash vtx : Checked ε CTxMemPool) = .ok q ∧
      Consistent txHash q ∧ FeeDeltasAgree q ∧ Shrinks q pool ∧ ∀ tx ∈ vtx, txHash tx ∉ q.mapTx := by
  obtain ⟨q, hq, hinv, hout⟩ :=
    BlockInv.removeForBlock (ε := ε) vtx (BlockInv.init hc hfd hfit) hord
  exact ⟨q, hq, hinv.consistent, hinv.feeDeltas, hinv.shrinks, hout⟩

theorem removeForBlock_empty_consistent :
    ∃ q, (empty.removeForBlock (fun _ => Uint256.zero) [⟨[], []⟩] : Checked Unit CTxMemPool) = .ok q ∧
      Consistent (fun _ => Uint256.zero) q ∧ FeeDeltasAgree q ∧ Shrinks q empty ∧
      ∀ tx ∈ [(⟨[], []⟩ : CTransaction)], Uint256.zero ∉ q.mapTx :=
  removeForBlock_consistent (empty_consistent _) empty_feeDeltasAgree empty_sigOpsFit (by decide)

end CTxMemPool

/-! ## Runs -/

/-- The operations of `CTxMemPool` that change the pool. -/
inductive MempoolOp where
  /-- `addUnchecked` of the entry `AcceptToMemoryPool` builds for `tx`. -/
  | addUnchecked (tx : CTransaction) (nFee nTime nTxWeight sigOpCost : ℤ)
  | removeRecursive (tx : CTransaction)
  | removeForBlock (vtx : List CTransaction)
  | prioritiseTransaction (hash : Uint256) (nFeeDelta : ℤ)
  | expire (time : ℤ)

namespace MempoolOp

open CTxMemPool

variable {txHash : CTransaction → Uint256} {pool : CTxMemPool}

/-- The operation run on a pool. -/
def apply {ε : Type} (txHash : CTransaction → Uint256) (pool : CTxMemPool) :
    MempoolOp → Checked ε CTxMemPool
  | addUnchecked tx nFee nTime nTxWeight sigOpCost =>
    pool.addUnchecked (txHash tx) (create tx nFee nTime nTxWeight sigOpCost)
  | removeRecursive tx => pool.removeRecursive txHash tx
  | removeForBlock vtx => pool.removeForBlock txHash vtx
  | prioritiseTransaction hash nFeeDelta => pool.PrioritiseTransaction hash nFeeDelta
  | expire time => (·.1) <$> pool.Expire time

/-- What the caller establishes before the operation: a new transaction for `addUnchecked`,
with a positive weight, a sigop cost no less than zero and a pool sigop cost with it that
fits an `int`, and a block in order for `removeForBlock`. -/
def Admissible (txHash : CTransaction → Uint256) (pool : CTxMemPool) : MempoolOp → Prop
  | addUnchecked tx _ _ nTxWeight sigOpCost => NewTx txHash pool tx ∧ 0 < nTxWeight ∧ 0 ≤ sigOpCost ∧
      ∑ x ∈ pool.mapTx, (pool.entry x).sigOpCost + sigOpCost < 2 ^ 31
  | removeForBlock vtx => BlockOrdered txHash pool ∅ vtx
  | removeRecursive _ | prioritiseTransaction _ _ | expire _ => True

/-- The step of a run: an admissible operation on a consistent pool whose sigop cost fits an
`int` meets no failed `assert`, and keeps the pool consistent, its fee deltas in agreement and
its sigop cost in an `int`. -/
theorem apply_consistent {ε : Type} (hc : Consistent txHash pool) (hfd : FeeDeltasAgree pool)
    (hfit : SigOpsFit pool) :
    ∀ op : MempoolOp, op.Admissible txHash pool →
      ∃ q, (op.apply txHash pool : Checked ε CTxMemPool) = .ok q ∧
        Consistent txHash q ∧ FeeDeltasAgree q ∧ SigOpsFit q
  | addUnchecked _ nFee nTime _ _, ⟨hnew, hw, hs, hsum⟩ => by
    have hadd := hnew.canAdd nFee nTime hw hs
    exact ⟨_, hc.addUnchecked_eq_ok hadd hsum, addUncheckedState_consistent hc hadd,
      addUncheckedState_feeDeltasAgree hc hadd hfd, addUncheckedState_sigOpsFit hc hadd hsum⟩
  | removeRecursive tx, _ => by
    obtain ⟨q, hq, hcq, hsq, hfdq⟩ := removeRecursive_consistent hc (ε := ε) tx
    exact ⟨q, hq, hcq, hfdq fun x hx _ => hfd x hx, hsq.sigOpsFit hc hfit⟩
  | removeForBlock vtx, hord => by
    obtain ⟨q, hq, hinv, _⟩ := BlockInv.removeForBlock (ε := ε) vtx (BlockInv.init hc hfd hfit) hord
    exact ⟨q, hq, hinv.consistent, hinv.feeDeltas, hinv.fit⟩
  | prioritiseTransaction hash nFeeDelta, _ =>
    ⟨_, hc.PrioritiseTransaction_eq_ok hfit hash nFeeDelta,
      PrioritiseTransactionState_consistent hash nFeeDelta hc hfd,
      PrioritiseTransactionState_feeDeltasAgree hash nFeeDelta hc hfd,
      PrioritiseTransactionState_sigOpsFit hc hfit hash nFeeDelta⟩
  | expire time, _ => by
    have hrem := ExpireState_removesClosed hc time
    refine ⟨_, by rw [apply, Expire_eq_ok hc time]; rfl, hrem.consistent hc,
      hrem.feeDeltasAgree hc fun x hx => hfd x (Finset.mem_sdiff.mp hx).1,
      (hrem.shrinks hc).sigOpsFit hc hfit⟩

end MempoolOp

namespace CTxMemPool

/-- The pools a run of admissible operations reaches from the empty pool. -/
inductive Reachable (ε : Type) (txHash : CTransaction → Uint256) : CTxMemPool → Prop
  | empty : Reachable ε txHash CTxMemPool.empty
  | step {pool q : CTxMemPool} (op : MempoolOp) : Reachable ε txHash pool →
      op.Admissible txHash pool → (op.apply txHash pool : Checked ε CTxMemPool) = .ok q →
      Reachable ε txHash q

namespace Reachable

variable {ε : Type} {txHash : CTransaction → Uint256}

/-- The run lemma: every reachable pool is consistent, with its fee deltas in agreement and its
sigop cost in an `int`. -/
theorem consistent {pool : CTxMemPool} (h : Reachable ε txHash pool) :
    Consistent txHash pool ∧ FeeDeltasAgree pool ∧ SigOpsFit pool := by
  induction h with
  | empty => exact ⟨empty_consistent txHash, empty_feeDeltasAgree, empty_sigOpsFit⟩
  | step op _ hadm hq ih =>
    obtain ⟨hc, hfd, hfit⟩ := ih
    obtain ⟨q', hq', hcq⟩ := MempoolOp.apply_consistent (ε := ε) hc hfd hfit op hadm
    rw [hq, Except.ok.injEq] at hq'
    exact hq' ▸ hcq

/-- Progress: from a reachable pool an admissible operation meets no failed `assert`, and the
pool it returns is reachable. -/
theorem apply_ok {pool : CTxMemPool} (h : Reachable ε txHash pool) {op : MempoolOp}
    (hadm : op.Admissible txHash pool) :
    ∃ q, (op.apply txHash pool : Checked ε CTxMemPool) = .ok q ∧ Reachable ε txHash q := by
  obtain ⟨hc, hfd, hfit⟩ := h.consistent
  obtain ⟨q, hq, -⟩ := MempoolOp.apply_consistent (ε := ε) hc hfd hfit op hadm
  exact ⟨q, hq, .step op h hadm hq⟩

/-- Every pool a run of admissible operations reaches passes `check`. -/
theorem passes_check {ε' : Type} {pool : CTxMemPool} (h : Reachable ε txHash pool) :
    (pool.check txHash : Checked ε' Unit) = .ok () :=
  h.consistent.1.check_eq_ok

/-- A run of one operation: the pool after admitting a transaction with no inputs. -/
theorem addUnchecked_empty :
    Reachable Unit (fun _ => Uint256.zero)
      (CTxMemPool.empty.addUncheckedState Uint256.zero (create ⟨[], []⟩ 0 0 400 0)) := by
  have hadm : (MempoolOp.addUnchecked ⟨[], []⟩ 0 0 400 0).Admissible (fun _ => Uint256.zero)
      CTxMemPool.empty :=
    ⟨emptyTx_new, by decide, le_rfl, by simp [CTxMemPool.empty]⟩
  exact .step _ .empty hadm ((empty_consistent _).addUnchecked_eq_ok emptyTx_canAdd hadm.2.2.2)

theorem addUnchecked_empty_passes_check :
    ((CTxMemPool.empty.addUncheckedState Uint256.zero (create ⟨[], []⟩ 0 0 400 0)).check
      (fun _ => Uint256.zero) : Checked Unit Unit) = .ok () :=
  passes_check addUnchecked_empty

theorem addUnchecked_empty_expire_ok :
    ∃ q, ((MempoolOp.expire 0).apply (fun _ => Uint256.zero)
        (CTxMemPool.empty.addUncheckedState Uint256.zero (create ⟨[], []⟩ 0 0 400 0)) :
          Checked Unit CTxMemPool) = .ok q ∧
      Reachable Unit (fun _ => Uint256.zero) q :=
  apply_ok addUnchecked_empty trivial

/-- In every reachable pool the totals of every entry pass the `assert`s of
`UpdateDescendantState` and `UpdateAncestorState`. -/
theorem entry_totals_pos {pool : CTxMemPool} (h : Reachable ε txHash pool) {x : Uint256}
    (hx : x ∈ pool.mapTx) :
    0 < (pool.entry x).nCountWithAncestors ∧ 0 < (pool.entry x).nSizeWithAncestors ∧
      0 ≤ (pool.entry x).nSigOpCostWithAncestors ∧ 0 < (pool.entry x).nCountWithDescendants ∧
      0 < (pool.entry x).nSizeWithDescendants :=
  h.consistent.1.totals_pos hx

theorem addUnchecked_empty_totals_pos :
    let pool := CTxMemPool.empty.addUncheckedState Uint256.zero (create ⟨[], []⟩ 0 0 400 0)
    0 < (pool.entry Uint256.zero).nCountWithAncestors ∧
      0 < (pool.entry Uint256.zero).nSizeWithAncestors ∧
      0 ≤ (pool.entry Uint256.zero).nSigOpCostWithAncestors ∧
      0 < (pool.entry Uint256.zero).nCountWithDescendants ∧
      0 < (pool.entry Uint256.zero).nSizeWithDescendants :=
  entry_totals_pos addUnchecked_empty (by
    rw [addUncheckedState_mapTx (empty_consistent _) emptyTx_canAdd]
    exact Finset.mem_insert_self _ _)

end Reachable

end CTxMemPool

end Mempool

end Cascoin
