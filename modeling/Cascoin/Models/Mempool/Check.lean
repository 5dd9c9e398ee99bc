import Cascoin.Models.Mempool.Links

/-!
# What `check` asserts

`CTxMemPool::check` walks `mapTx` and asserts, of every entry, that an input spending another
entry names an output that entry has and that is not null, that its inputs are marked in
`mapNextTx` as spent by it, that its stored parents are the entries its inputs spend from and its
stored children the entries `mapNextTx` records as spending its outputs, that its ancestor totals
are its own weight plus its ancestors', and that its size with descendants is at least its own
and its children's; then that every spender `mapNextTx` records is in `mapTx`, and that
`totalTxSize` is the sum of the sizes. `check` models those assertions; what it asserts of the
coins view (`HaveCoin`, `CheckInputsAndUpdateCoins`) relates the pool to the chain and is left
out, and so is `cachedInnerUsage`, as no total reads it.

`Consistent` is the invariant behind them, stated over the closure sets of `Links`: each entry's
ancestor totals are its weight plus the weights of its ancestors, and its descendant totals its
weight plus the weights of its descendants. A consistent pool passes `check`
(`Consistent.check_eq_ok`), and its totals are positive, as the `assert`s of
`UpdateDescendantState` and `UpdateAncestorState` require (`Consistent.totals_pos`).
-/

namespace Cascoin

namespace Mempool

open Closure

namespace CTxMemPoolEntry

/-- The ancestor totals of an entry: count, size, modified fees and sigop cost. -/
def ancTotals (e : CTxMemPoolEntry) : ℤ × ℤ × ℤ × ℤ :=
  (e.nCountWithAncestors, e.nSizeWithAncestors, e.nModFeesWithAncestors, e.nSigOpCostWithAncestors)

/-- What an entry counts for in the ancestor totals of itself and of its descendants. -/
def ancWeight (e : CTxMemPoolEntry) : ℤ × ℤ × ℤ × ℤ := (1, e.GetTxSize, e.GetModifiedFee, e.sigOpCost)

/-- The descendant totals of an entry: count, size and modified fees. -/
def descTotals (e : CTxMemPoolEntry) : ℤ × ℤ × ℤ :=
  (e.nCountWithDescendants, e.nSizeWithDescendants, e.nModFeesWithDescendants)

/-- What an entry counts for in the descendant totals of itself and of its ancestors. -/
def descWeight (e : CTxMemPoolEntry) : ℤ × ℤ × ℤ := (1, e.GetTxSize, e.GetModifiedFee)

section Totals

variable (e : CTxMemPoolEntry)

@[simp] theorem ancTotals_addAncestorState (s f c o : ℤ) :
    (e.addAncestorState s f c o).ancTotals = e.ancTotals + (c, s, f, o) := rfl

@[simp] theorem ancTotals_addDescendantState (s f c : ℤ) :
    (e.addDescendantState s f c).ancTotals = e.ancTotals := rfl

@[simp] theorem descTotals_addDescendantState (s f c : ℤ) :
    (e.addDescendantState s f c).descTotals = e.descTotals + (c, s, f) := rfl

@[simp] theorem descTotals_addAncestorState (s f c o : ℤ) :
    (e.addAncestorState s f c o).descTotals = e.descTotals := rfl

@[simp] theorem ancWeight_addAncestorState (s f c o : ℤ) :
    (e.addAncestorState s f c o).ancWeight = e.ancWeight := rfl

@[simp] theorem ancWeight_addDescendantState (s f c : ℤ) :
    (e.addDescendantState s f c).ancWeight = e.ancWeight := rfl

@[simp] theorem descWeight_addAncestorState (s f c o : ℤ) :
    (e.addAncestorState s f c o).descWeight = e.descWeight := rfl

@[simp] theorem descWeight_addDescendantState (s f c : ℤ) :
    (e.addDescendantState s f c).descWeight = e.descWeight := rfl

/-- A new fee delta moves the modified fee, and both fee totals, by its change. -/
theorem ancTotals_UpdateFeeDelta (d : ℤ) :
    (e.UpdateFeeDelta d).ancTotals = e.ancTotals + (0, 0, d - e.feeDelta, 0) := by
  simp [ancTotals, UpdateFeeDelta]

theorem descTotals_UpdateFeeDelta (d : ℤ) :
    (e.UpdateFeeDelta d).descTotals = e.descTotals + (0, 0, d - e.feeDelta) := by
  simp [descTotals, UpdateFeeDelta]

theorem UpdateFeeDelta_GetModifiedFee (d : ℤ) :
    (e.UpdateFeeDelta d).GetModifiedFee = e.GetModifiedFee + (d - e.feeDelta) := by
  show e.nFee + d = e.nFee + e.feeDelta + (d - e.feeDelta)
  ring

theorem ancWeight_UpdateFeeDelta (d : ℤ) :
    (e.UpdateFeeDelta d).ancWeight = e.ancWeight + (0, 0, d - e.feeDelta, 0) := by
  simp only [ancWeight, UpdateFeeDelta_GetTxSize, UpdateFeeDelta_sigOpCost,
    UpdateFeeDelta_GetModifiedFee, Prod.mk_add_mk, add_zero]

theorem descWeight_UpdateFeeDelta (d : ℤ) :
    (e.UpdateFeeDelta d).descWeight = e.descWeight + (0, 0, d - e.feeDelta) := by
  simp only [descWeight, UpdateFeeDelta_GetTxSize, UpdateFeeDelta_GetModifiedFee, Prod.mk_add_mk,
    add_zero]

/-- A zero delta changes nothing of an entry that has none. -/
theorem UpdateFeeDelta_zero {e : CTxMemPoolEntry} (h : e.feeDelta = 0) : e.UpdateFeeDelta 0 = e := by
  cases e
  simp_all [UpdateFeeDelta]

/-- A new entry is a package of itself alone. -/
theorem ancTotals_create (tx : CTransaction) (nFee nTime nTxWeight sigOpCost : ℤ) :
    (create tx nFee nTime nTxWeight sigOpCost).ancTotals =
      (create tx nFee nTime nTxWeight sigOpCost).ancWeight := by
  simp [ancTotals, ancWeight, create, GetTxSize, GetModifiedFee]

theorem descTotals_create (tx : CTransaction) (nFee nTime nTxWeight sigOpCost : ℤ) :
    (create tx nFee nTime nTxWeight sigOpCost).descTotals =
      (create tx nFee nTime nTxWeight sigOpCost).descWeight := by
  simp [descTotals, descWeight, create, GetTxSize, GetModifiedFee]

end Totals

/-- A transaction of positive weight has a positive virtual size. -/
theorem GetTxSize_pos {e : CTxMemPoolEntry} (hw : 0 < e.nTxWeight) : 0 < e.GetTxSize := by
  have hmax : e.nTxWeight ≤ max e.nTxWeight (e.sigOpCost * nBytesPerSigOp) := le_max_left _ _
  unfold GetTxSize GetVirtualTransactionSize
  rw [WITNESS_SCALE_FACTOR]
  omega

end CTxMemPoolEntry

open CTxMemPoolEntry

/-- The weights of a set of entries, added up component by component: the sums
`UpdateEntryForAncestors` and `check` make. -/
theorem sum_ancWeight (S : Finset Uint256) (f : Uint256 → CTxMemPoolEntry) :
    ∑ a ∈ S, (f a).ancWeight =
      ((S.card : ℤ), ∑ a ∈ S, (f a).GetTxSize, ∑ a ∈ S, (f a).GetModifiedFee,
        ∑ a ∈ S, (f a).sigOpCost) := by
  simp only [ancWeight, Prod.ext_iff, Prod.fst_sum, Prod.snd_sum, Finset.sum_const, nsmul_eq_mul,
    mul_one, and_self]

theorem sum_descWeight (S : Finset Uint256) (f : Uint256 → CTxMemPoolEntry) :
    ∑ a ∈ S, (f a).descWeight =
      ((S.card : ℤ), ∑ a ∈ S, (f a).GetTxSize, ∑ a ∈ S, (f a).GetModifiedFee) := by
  simp only [descWeight, Prod.ext_iff, Prod.fst_sum, Prod.snd_sum, Finset.sum_const, nsmul_eq_mul,
    mul_one, and_self]

/-- Moving the weight of one entry moves a sum over a set that holds it. -/
theorem sum_add_ite_eq {β : Type} [AddCommMonoid β] (A : Finset Uint256) (w : Uint256 → β)
    (h : Uint256) (v : β) :
    ∑ a ∈ A, (w a + if a = h then v else 0) = ∑ a ∈ A, w a + if h ∈ A then v else 0 := by
  rw [Finset.sum_add_distrib, Finset.sum_ite_eq']

namespace CTxMemPool

variable (pool : CTxMemPool)

/-- The entries of `mapTx` an entry's inputs spend from: `check`'s `setParentCheck`. -/
def inputParents (e : CTxMemPoolEntry) : Finset Uint256 :=
  (e.tx.vin.map (·.prevout.hash)).toFinset.filter (· ∈ pool.mapTx)

theorem ancestorSearchStart_true (e : CTxMemPoolEntry) (it : Uint256) :
    pool.ancestorSearchStart e it true = pool.inputParents e := if_pos rfl

/-- The entries `mapNextTx` records as spending an output of `hash`: `check`'s
`setChildrenCheck`. A key of `mapNextTx` points into the inputs of the transaction it maps to,
so the keys with `hash` are found among the inputs of the entries. -/
def childrenCheck (hash : Uint256) : Finset Uint256 :=
  pool.mapTx.filter fun c =>
    ∃ txin ∈ (pool.entry c).tx.vin, txin.prevout.hash = hash ∧ pool.mapNextTx txin.prevout = some c

/-- `mapNextTx` is a function of the outpoints: its entries are those of the finitely many
outpoints it maps to a spender, which a loop over the map visits. -/
instance : Fintype Uint256 :=
  Fintype.ofEquiv (Fin (2 ^ 256))
    ⟨fun i => ⟨i.val, i.isLt⟩, fun h => ⟨h.toNat, h.toNat_lt⟩, fun _ => rfl, fun _ => rfl⟩

instance : Fintype COutPoint :=
  Fintype.ofEquiv (Uint256 × UInt32) ⟨fun p => ⟨p.1, p.2⟩, fun o => (o.hash, o.n), fun _ => rfl, fun _ => rfl⟩

section Check

variable {ε : Type} (txHash : CTransaction → Uint256)

/-- The assertions of `check` on the entry `it` of `mapTx`. -/
def checkEntry (it : Uint256) : Checked ε Unit := do
  let e := pool.entry it
  e.tx.vin.forM fun txin => do
    if txin.prevout.hash ∈ pool.mapTx then
      let tx2 := (pool.entry txin.prevout.hash).tx
      -- `tx2.vout.size() > txin.prevout.n && !tx2.vout[txin.prevout.n].IsNull()`
      Checked.assert (match tx2.vout[txin.prevout.n.toNat]? with
        | some out => !out.IsNull
        | none => false)
    Checked.assert (pool.mapNextTx txin.prevout = some it)
  Checked.assert (pool.inputParents e = pool.GetMemPoolParents it)
  -- `CalculateMemPoolAncestors` with its default `fSearchForParents = true`
  let setAncestors := pool.CalculateMemPoolAncestors e it true
  Checked.assert (e.nCountWithAncestors = setAncestors.card + 1)
  Checked.assert (e.nSizeWithAncestors = e.GetTxSize + ∑ a ∈ setAncestors, (pool.entry a).GetTxSize)
  Checked.assert
    (e.nSigOpCostWithAncestors = e.sigOpCost + ∑ a ∈ setAncestors, (pool.entry a).sigOpCost)
  Checked.assert
    (e.nModFeesWithAncestors = e.GetModifiedFee + ∑ a ∈ setAncestors, (pool.entry a).GetModifiedFee)
  let setChildrenCheck := pool.childrenCheck (txHash e.tx)
  let childSizes := ∑ c ∈ setChildrenCheck, (pool.entry c).GetTxSize
  Checked.assert (setChildrenCheck = pool.GetMemPoolChildren it)
  Checked.assert (childSizes + e.GetTxSize ≤ e.nSizeWithDescendants)

/-- `check(pcoins)`, on the pool's own state. -/
def check : Checked ε Unit := do
  (pool.mapTx.sort memcmpLE).forM (pool.checkEntry txHash)
  -- the loop over `mapNextTx`: the spender each outpoint records is found in `mapTx`
  Checked.assert (∀ o : COutPoint, (pool.mapNextTx o).all (· ∈ pool.mapTx))
  Checked.assert (pool.totalTxSize = ∑ it ∈ pool.mapTx, (pool.entry it).GetTxSize)

end Check

/-! ## The invariant -/

/-- The state every operation keeps: the links are well formed and follow the inputs,
`mapNextTx` records exactly the inputs of the entries, every entry is stored under its hash, and
the totals are those of the packages the links define; an input spending an entry names an
output of it that is not null. -/
structure Consistent (txHash : CTransaction → Uint256) (pool : CTxMemPool) : Prop where
  links : LinksWF pool
  hash : ∀ x ∈ pool.mapTx, txHash (pool.entry x).tx = x
  parents_eq : ∀ x ∈ pool.mapTx, pool.GetMemPoolParents x = pool.inputParents (pool.entry x)
  nextTx : ∀ o h, pool.mapNextTx o = some h ↔
    h ∈ pool.mapTx ∧ o ∈ (pool.entry h).tx.vin.map (·.prevout)
  ancestors : ∀ x ∈ pool.mapTx, (pool.entry x).ancTotals =
    (pool.entry x).ancWeight + ∑ a ∈ pool.ancestors x, (pool.entry a).ancWeight
  descendants : ∀ x ∈ pool.mapTx, (pool.entry x).descTotals =
    (pool.entry x).descWeight + ∑ z ∈ pool.descendants x, (pool.entry z).descWeight
  totalTxSize : pool.totalTxSize = ∑ x ∈ pool.mapTx, (pool.entry x).GetTxSize
  size_pos : ∀ x ∈ pool.mapTx, 0 < (pool.entry x).GetTxSize
  sigOpCost_nonneg : ∀ x ∈ pool.mapTx, 0 ≤ (pool.entry x).sigOpCost
  outputs : ∀ x ∈ pool.mapTx, ∀ txin ∈ (pool.entry x).tx.vin, txin.prevout.hash ∈ pool.mapTx →
    ∃ out, (pool.entry txin.prevout.hash).tx.vout[txin.prevout.n.toNat]? = some out ∧ out.IsNull = false

/-- The fee delta of every entry is the one `mapDeltas` holds for it. `PrioritiseTransaction`
relies on it; `removeConflicts` breaks it for the entries it is about to remove. -/
def FeeDeltasAgree (pool : CTxMemPool) : Prop :=
  ∀ x ∈ pool.mapTx, (pool.entry x).feeDelta = (pool.mapDeltas x).getD 0

theorem empty_consistent (txHash : CTransaction → Uint256) : Consistent txHash empty where
  links :=
    { out := fun _ _ => rfl
      parents_sub := fun _ => Finset.empty_subset _
      children_iff := fun _ _ =>
        ⟨fun h => absurd h (Finset.notMem_empty _), fun h => absurd h (Finset.notMem_empty _)⟩
      acyclic := fun x h => by
        obtain ⟨p, hp, -⟩ := above_iff_exists_reach.mp h
        exact Finset.notMem_empty p hp }
  hash := fun _ h => absurd h (Finset.notMem_empty _)
  parents_eq := fun _ h => absurd h (Finset.notMem_empty _)
  nextTx := fun _ _ => by simp [empty]
  ancestors := fun _ h => absurd h (Finset.notMem_empty _)
  descendants := fun _ h => absurd h (Finset.notMem_empty _)
  totalTxSize := rfl
  size_pos := fun _ h => absurd h (Finset.notMem_empty _)
  sigOpCost_nonneg := fun _ h => absurd h (Finset.notMem_empty _)
  outputs := fun _ h => absurd h (Finset.notMem_empty _)

theorem empty_feeDeltasAgree : FeeDeltasAgree empty := fun _ h => absurd h (Finset.notMem_empty _)

namespace Consistent

variable {txHash : CTransaction → Uint256} {pool : CTxMemPool} (hc : Consistent txHash pool)
include hc

/-- The invariant carries over to a pool with the same entries, links, spenders and size, whose
entries keep their transactions, sizes and sigop costs, once the totals are shown to match the
packages again. -/
theorem of_totals {q : CTxMemPool} (hT : q.mapTx = pool.mapTx) (hL : q.mapLinks = pool.mapLinks)
    (hN : q.mapNextTx = pool.mapNextTx) (hS : q.totalTxSize = pool.totalTxSize)
    (hfixed : ∀ y, (q.entry y).tx = (pool.entry y).tx ∧
      (q.entry y).GetTxSize = (pool.entry y).GetTxSize ∧ (q.entry y).sigOpCost = (pool.entry y).sigOpCost)
    (hanc : ∀ x ∈ pool.mapTx, (q.entry x).ancTotals =
      (q.entry x).ancWeight + ∑ a ∈ pool.ancestors x, (q.entry a).ancWeight)
    (hdesc : ∀ x ∈ pool.mapTx, (q.entry x).descTotals =
      (q.entry x).descWeight + ∑ z ∈ pool.descendants x, (q.entry z).descWeight) :
    Consistent txHash q := by
  have hP : q.GetMemPoolParents = pool.GetMemPoolParents := funext fun x => by
    simp only [GetMemPoolParents, hL]
  have hanc_eq : q.ancestors = pool.ancestors := by
    unfold CTxMemPool.ancestors
    rw [hP, hT]
  have hdesc_eq : q.descendants = pool.descendants := by
    unfold CTxMemPool.descendants
    rw [hP, hT]
  have hinput : ∀ y, q.inputParents (q.entry y) = pool.inputParents (pool.entry y) := fun y => by
    simp only [inputParents, (hfixed y).1, hT]
  refine ⟨hc.links.of_eq hT hL, ?_, ?_, ?_, ?_, ?_, ?_, ?_, ?_, ?_⟩
  · intro x hx
    rw [(hfixed x).1]
    exact hc.hash x (hT ▸ hx)
  · intro x hx
    rw [hP, hinput]
    exact hc.parents_eq x (hT ▸ hx)
  · intro o h
    rw [hN, hT, (hfixed h).1]
    exact hc.nextTx o h
  · intro x hx
    rw [hanc_eq]
    exact hanc x (hT ▸ hx)
  · intro x hx
    rw [hdesc_eq]
    exact hdesc x (hT ▸ hx)
  · rw [hS, hT, hc.totalTxSize]
    exact Finset.sum_congr rfl fun y _ => ((hfixed y).2.1).symm
  · intro x hx
    rw [(hfixed x).2.1]
    exact hc.size_pos x (hT ▸ hx)
  · intro x hx
    rw [(hfixed x).2.2]
    exact hc.sigOpCost_nonneg x (hT ▸ hx)
  · intro x hx txin hin hp
    rw [(hfixed x).1] at hin
    rw [(hfixed _).1]
    exact hc.outputs x (hT ▸ hx) txin hin (hT ▸ hp)

/-- An input spending an entry passes `check`'s test of the output it names. -/
theorem output_ok {x : Uint256} (hx : x ∈ pool.mapTx) {txin : CTxIn}
    (hin : txin ∈ (pool.entry x).tx.vin) (hp : txin.prevout.hash ∈ pool.mapTx) :
    (match (pool.entry txin.prevout.hash).tx.vout[txin.prevout.n.toNat]? with
      | some out => !out.IsNull
      | none => false) = true := by
  obtain ⟨out, hout, hnull⟩ := hc.outputs x hx txin hin hp
  rw [hout]
  simp [hnull]

/-- `mapDeltas` is no part of the invariant. -/
theorem setDeltas (m : Uint256 → Option ℤ) : Consistent txHash { pool with mapDeltas := m } :=
  hc.of_totals rfl rfl rfl rfl (fun _ => ⟨rfl, rfl, rfl⟩) hc.ancestors hc.descendants

/-- Every input of an entry is recorded as spent by it. -/
theorem mapNextTx_input {x : Uint256} (hx : x ∈ pool.mapTx) {txin : CTxIn}
    (hin : txin ∈ (pool.entry x).tx.vin) : pool.mapNextTx txin.prevout = some x :=
  (hc.nextTx _ _).mpr ⟨hx, List.mem_map_of_mem hin⟩

/-- Searching from the inputs finds the ancestors the stored parents reach. -/
theorem CalculateMemPoolAncestors_entry {x : Uint256} (hx : x ∈ pool.mapTx) :
    pool.CalculateMemPoolAncestors (pool.entry x) x true = pool.ancestors x := by
  ext a
  rw [hc.links.mem_CalculateMemPoolAncestors_search, ancestorSearchStart_true,
    ← hc.parents_eq x hx, mem_ancestors, ← above_iff_exists_reach]
  exact ⟨fun h => ⟨hc.links.mem_of_above h, h⟩, fun h => h.2⟩

/-- The children `check` finds through `mapNextTx` are the stored children. -/
theorem childrenCheck_eq {x : Uint256} (hx : x ∈ pool.mapTx) :
    pool.childrenCheck (txHash (pool.entry x).tx) = pool.GetMemPoolChildren x := by
  ext c
  rw [childrenCheck, Finset.mem_filter, hc.hash x hx, hc.links.children_iff]
  constructor
  · rintro ⟨hc', txin, hin, hhash, -⟩
    rw [hc.parents_eq c hc', inputParents, Finset.mem_filter, List.mem_toFinset]
    exact ⟨List.mem_map.mpr ⟨txin, hin, hhash⟩, hx⟩
  · intro hxc
    have hc' : c ∈ pool.mapTx := hc.links.mem_of_above_left (above_single hxc)
    rw [hc.parents_eq c hc', inputParents, Finset.mem_filter, List.mem_toFinset,
      List.mem_map] at hxc
    obtain ⟨⟨txin, hin, hhash⟩, -⟩ := hxc
    exact ⟨hc', txin, hin, hhash, hc.mapNextTx_input hc' hin⟩

/-- The children are among the descendants. -/
theorem children_subset_descendants (x : Uint256) :
    pool.GetMemPoolChildren x ⊆ pool.descendants x := by
  intro c hxc
  have hpar := (hc.links.children_iff x c).mp hxc
  exact mem_descendants.mpr ⟨hc.links.children_sub x hxc, above_single hpar⟩

/-- The size with descendants covers the entry and its children: the last assertion `check`
makes of an entry. -/
theorem childSizes_le {x : Uint256} (hx : x ∈ pool.mapTx) :
    ∑ c ∈ pool.GetMemPoolChildren x, (pool.entry c).GetTxSize + (pool.entry x).GetTxSize ≤
      (pool.entry x).nSizeWithDescendants := by
  have hdesc := congrArg (·.2.1) (hc.descendants x hx)
  simp only [descTotals, descWeight, Prod.snd_add, Prod.fst_add, Prod.snd_sum, Prod.fst_sum]
    at hdesc
  have hle : ∑ c ∈ pool.GetMemPoolChildren x, (pool.entry c).GetTxSize ≤
      ∑ z ∈ pool.descendants x, (pool.entry z).GetTxSize :=
    Finset.sum_le_sum_of_subset_of_nonneg (hc.children_subset_descendants x)
      fun z hz _ => (hc.size_pos z (mem_descendants.mp hz).1).le
  omega

theorem checkEntry_eq_ok {ε : Type} {x : Uint256} (hx : x ∈ pool.mapTx) :
    (pool.checkEntry txHash x : Checked ε Unit) = .ok () := by
  have hanc := hc.ancestors x hx
  rw [sum_ancWeight] at hanc
  simp only [ancTotals, ancWeight, Prod.mk_add_mk, Prod.mk.injEq] at hanc
  obtain ⟨hcount, hsize, hfee, hsig⟩ := hanc
  rw [add_comm] at hcount
  unfold checkEntry
  dsimp only
  rw [Checked.forM_eq_ok fun txin hin => ?_, Checked.ok_bind]
  · simp [hc.parents_eq x hx, hc.CalculateMemPoolAncestors_entry hx, hc.childrenCheck_eq hx, hcount,
      hsize, hfee, hsig, hc.childSizes_le hx]
  · -- each input: the output it names, then its record in `mapNextTx`
    by_cases hp : txin.prevout.hash ∈ pool.mapTx
    · simp [hp, hc.output_ok hx hin hp, hc.mapNextTx_input hx hin]
    · simp [hp, hc.mapNextTx_input hx hin]

/-- A consistent pool passes `check`. -/
theorem check_eq_ok {ε : Type} : (pool.check txHash : Checked ε Unit) = .ok () := by
  -- every spender `mapNextTx` records is an entry
  have hnext : ∀ o : COutPoint, (pool.mapNextTx o).all (· ∈ pool.mapTx) = true := by
    intro o
    cases h : pool.mapNextTx o with
    | none => rfl
    | some y => simpa using ((hc.nextTx o y).mp h).1
  rw [check, Checked.forM_eq_ok fun x hx => hc.checkEntry_eq_ok (mem_sort.mp hx), Checked.ok_bind,
    hc.totalTxSize]
  simp [hnext]

/-- The totals the `assert`s of `UpdateDescendantState` and `UpdateAncestorState` test are
positive in a consistent pool. -/
theorem totals_pos {x : Uint256} (hx : x ∈ pool.mapTx) :
    0 < (pool.entry x).nCountWithAncestors ∧ 0 < (pool.entry x).nSizeWithAncestors ∧
      0 ≤ (pool.entry x).nSigOpCostWithAncestors ∧ 0 < (pool.entry x).nCountWithDescendants ∧
      0 < (pool.entry x).nSizeWithDescendants := by
  have hanc := hc.ancestors x hx
  have hdesc := hc.descendants x hx
  rw [sum_ancWeight] at hanc
  rw [sum_descWeight] at hdesc
  simp only [ancTotals, ancWeight, descTotals, descWeight, Prod.mk_add_mk, Prod.mk.injEq] at hanc hdesc
  have hsize := hc.size_pos x hx
  have hanc_size : 0 ≤ ∑ a ∈ pool.ancestors x, (pool.entry a).GetTxSize :=
    Finset.sum_nonneg fun a ha => (hc.size_pos a (mem_ancestors.mp ha).1).le
  have hanc_sig : 0 ≤ ∑ a ∈ pool.ancestors x, (pool.entry a).sigOpCost :=
    Finset.sum_nonneg fun a ha => hc.sigOpCost_nonneg a (mem_ancestors.mp ha).1
  have hdesc_size : 0 ≤ ∑ z ∈ pool.descendants x, (pool.entry z).GetTxSize :=
    Finset.sum_nonneg fun z hz => (hc.size_pos z (mem_descendants.mp hz).1).le
  have hsig := hc.sigOpCost_nonneg x hx
  omega

end Consistent

end CTxMemPool

end Mempool

end Cascoin
