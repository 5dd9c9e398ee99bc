import Cascoin.Models.Mempool.Add
import Cascoin.Models.Mempool.Remove

/-!
# The `assert`s of the package totals

`UpdateDescendantState` and `UpdateAncestorState` `assert` that the totals they move stay
positive, and that the sigop cost with ancestors, cast to `int`, is no less than zero. On a
consistent pool every call the operations make meets them. A total that gives up the weights of
some of the entries it counts keeps at least the entry's own weight
(`Consistent.ancestorStateOk_sub`, `Consistent.descendantStateOk_sub`); one that gains weights,
or fees only, keeps its count and size. For the cast, the sigop cost of the whole pool must fit
an `int` (`SigOpsFit`), which `addUnchecked`'s caller keeps: a sigop costs at least five virtual
bytes (`GetVirtualTransactionSize`), and `-maxmempool` bounds the pool's size.

So on a consistent pool each operation returns the state its `State` function describes
(`RemoveStaged_eq_ok`, `addUnchecked_eq_ok`, `PrioritiseTransaction_eq_ok`), and whenever it
returns, it returns that state (`PrioritiseTransaction_eq_of_ok`).
-/

namespace Cascoin

namespace Mempool

open Closure

namespace CTxMemPoolEntry

/-- Ancestor totals with which `UpdateAncestorState` returns: a positive count and size, and a
sigop cost from zero to the largest `int`. -/
def AncestorStateOk (v : ℤ × ℤ × ℤ × ℤ) : Prop :=
  0 < v.1 ∧ 0 < v.2.1 ∧ 0 ≤ v.2.2.2 ∧ v.2.2.2 < 2 ^ 31

/-- Descendant totals with which `UpdateDescendantState` returns: a positive count and size. -/
def DescendantStateOk (u : ℤ × ℤ × ℤ) : Prop := 0 < u.1 ∧ 0 < u.2.1

/-- Only the count, the size and the sigop cost matter to the `assert`s. -/
theorem AncestorStateOk.of_eq {v w : ℤ × ℤ × ℤ × ℤ} (h : AncestorStateOk v) (h1 : w.1 = v.1)
    (h2 : w.2.1 = v.2.1) (h4 : w.2.2.2 = v.2.2.2) : AncestorStateOk w := by
  obtain ⟨hc, hs, ho, ho'⟩ := h
  exact ⟨h1 ▸ hc, h2 ▸ hs, h4 ▸ ho, h4 ▸ ho'⟩

theorem DescendantStateOk.of_eq {u w : ℤ × ℤ × ℤ} (h : DescendantStateOk u) (h1 : w.1 = u.1)
    (h2 : w.2.1 = u.2.1) : DescendantStateOk w := by
  obtain ⟨hc, hs⟩ := h
  exact ⟨h1 ▸ hc, h2 ▸ hs⟩

/-- Descendant totals stay positive when they gain a count and a size of no less than zero. -/
theorem DescendantStateOk.add {u w : ℤ × ℤ × ℤ} (h : DescendantStateOk u) (h1 : 0 ≤ w.1)
    (h2 : 0 ≤ w.2.1) : DescendantStateOk (u + w) := by
  obtain ⟨hc, hs⟩ := h
  exact ⟨by simp only [Prod.fst_add]; omega, by simp only [Prod.snd_add, Prod.fst_add]; omega⟩

variable {ε : Type} (e : CTxMemPoolEntry)

/-- The `int` cast of a sigop cost that fits an `int` is the cost itself. -/
theorem bmod_nonneg_of_lt {o : ℤ} (h0 : 0 ≤ o) (h1 : o < 2 ^ 31) : 0 ≤ Int.bmod o (2 ^ 32) := by
  rw [Int.bmod_eq_of_le (by omega) (by omega)]
  exact h0

/-- `UpdateDescendantState` returns the moved totals when they pass its `assert`s. -/
theorem UpdateDescendantState_eq_ok {s f c : ℤ} (h : DescendantStateOk (e.descTotals + (c, s, f))) :
    (e.UpdateDescendantState s f c : Checked ε CTxMemPoolEntry) = .ok (e.addDescendantState s f c) := by
  obtain ⟨hc, hs⟩ := h
  simp only [descTotals, Prod.mk_add_mk] at hc hs
  simp [UpdateDescendantState, Checked.assert, hc, hs, addDescendantState]

/-- `UpdateAncestorState` returns the moved totals when they pass its `assert`s. -/
theorem UpdateAncestorState_eq_ok {s f c o : ℤ} (h : AncestorStateOk (e.ancTotals + (c, s, f, o))) :
    (e.UpdateAncestorState s f c o : Checked ε CTxMemPoolEntry) = .ok (e.addAncestorState s f c o) := by
  obtain ⟨hc, hs, ho, ho'⟩ := h
  simp only [ancTotals, Prod.mk_add_mk] at hc hs ho ho'
  have hb : 0 ≤ Int.bmod (e.nSigOpCostWithAncestors + o) 4294967296 := bmod_nonneg_of_lt ho ho'
  simp [UpdateAncestorState, Checked.assert, hc, hs, hb, addAncestorState]

/-- Whatever `UpdateDescendantState` returns is the moved totals. -/
theorem eq_addDescendantState_of_ok {s f c : ℤ} {e' : CTxMemPoolEntry}
    (h : (e.UpdateDescendantState s f c : Checked ε CTxMemPoolEntry) = .ok e') :
    e' = e.addDescendantState s f c := by
  simp only [UpdateDescendantState, Checked.assert] at h
  split_ifs at h <;> first | cases h; rfl | cases h

/-- Whatever `UpdateAncestorState` returns is the moved totals. -/
theorem eq_addAncestorState_of_ok {s f c o : ℤ} {e' : CTxMemPoolEntry}
    (h : (e.UpdateAncestorState s f c o : Checked ε CTxMemPoolEntry) = .ok e') :
    e' = e.addAncestorState s f c o := by
  simp only [UpdateAncestorState, Checked.assert] at h
  split_ifs at h <;> first | cases h; rfl | cases h

end CTxMemPoolEntry

open CTxMemPoolEntry

namespace CTxMemPool

variable {ε : Type} {txHash : CTransaction → Uint256} {pool : CTxMemPool}

/-- The sigop cost of the whole pool fits an `int`. -/
def SigOpsFit (pool : CTxMemPool) : Prop := ∑ x ∈ pool.mapTx, (pool.entry x).sigOpCost < 2 ^ 31

/-! ## Checked loops over sets of entries -/

/-- A checked loop over a set whose pass for `b` takes the state of the members done so far to
the state with `b` done ends at the state of the whole set. -/
theorem forEachM_family {σ : Type} (st : Finset Uint256 → σ) {body : Uint256 → σ → Checked ε σ}
    {E : Finset Uint256} (hstep : ∀ b ∈ E, ∀ m ⊆ E, b ∉ m → body b (st m) = .ok (st (insert b m))) :
    forEachM E body (st ∅) = .ok (st E) := by
  rw [forEachM, Checked.foldlM_finset_family st (f := fun acc it => body it acc) hstep _
    (nodup_sort E) ∅ (Finset.empty_subset _) fun b hb => ⟨mem_sort.mp hb, Finset.notMem_empty b⟩,
    Finset.empty_union, Finset.sort_toFinset]

theorem modifyM_eq_ok (it : Uint256) {g : CTxMemPoolEntry → Checked ε CTxMemPoolEntry}
    {g' : CTxMemPoolEntry → CTxMemPoolEntry} (h : g (pool.entry it) = .ok (g' (pool.entry it))) :
    pool.modifyM it g = .ok (pool.modify it g') := by
  rw [modifyM, h, Checked.ok_bind]
  rfl

/-- Modifying each member of a set, with a modifier that returns on each member's entry, returns
what the plain loop leaves: each member is modified once, from its entry before the loop. -/
theorem forEachM_modifyM (S : Finset Uint256) {g : CTxMemPoolEntry → Checked ε CTxMemPoolEntry}
    {g' : CTxMemPoolEntry → CTxMemPoolEntry} (h : ∀ a ∈ S, g (pool.entry a) = .ok (g' (pool.entry a))) :
    forEachM S (fun a p => p.modifyM a g) pool = .ok (forEach S (fun a p => p.modify a g') pool) := by
  let st := fun m : Finset Uint256 =>
    ({ pool with entry := fun y => if y ∈ m then g' (pool.entry y) else pool.entry y } : CTxMemPool)
  have h0 : pool = st ∅ := by
    simp only [st, Finset.notMem_empty, if_false]
  have hstep : ∀ b ∈ S, ∀ m ⊆ S, b ∉ m → (st m).modifyM b g = .ok (st (insert b m)) := by
    intro b hb m _ hbm
    have hb' : (st m).entry b = pool.entry b := if_neg hbm
    rw [modifyM, hb', h b hb, Checked.ok_bind]
    simp only [st, Checked.pure_eq, Except.ok.injEq]
    congr 1
    funext y
    by_cases hy : y = b
    · subst hy
      simp
    · simp [hy]
  conv_lhs => rw [h0]
  rw [forEachM_family st hstep, forEach_modify]

/-- Whatever a checked loop of modifications returns is what the plain loop leaves, when every
modification returns only what its plain twin computes. -/
theorem eq_forEach_of_forEachM {g : CTxMemPoolEntry → Checked ε CTxMemPoolEntry}
    {g' : CTxMemPoolEntry → CTxMemPoolEntry} (hg : ∀ e e', g e = .ok e' → e' = g' e)
    (S : Finset Uint256) {q : CTxMemPool}
    (h : forEachM S (fun a p => p.modifyM a g) pool = .ok q) :
    q = forEach S (fun a p => p.modify a g') pool := by
  -- the loop over any list of members, from any pool
  suffices key : ∀ (L : List Uint256) (p : CTxMemPool),
      L.foldlM (fun acc it => acc.modifyM it g) p = .ok q →
        q = L.foldl (fun acc it => acc.modify it g') p from key _ _ h
  intro L
  induction L with
  | nil =>
    intro p hp
    cases hp
    rfl
  | cons a L ih =>
    intro p hp
    rw [List.foldlM_cons] at hp
    obtain ⟨p', hp', hrest⟩ := Checked.bind_eq_ok hp
    obtain ⟨e', he', hq'⟩ := Checked.bind_eq_ok hp'
    cases hq'
    rw [List.foldl_cons, ih _ hrest, hg _ _ he']
    rfl


/-- The weights of the members of a set with one more member `r` that pass a test `r` passes. -/
theorem sum_filter_insert {M : Type} [AddCommMonoid M] {m : Finset Uint256} {r : Uint256}
    (hr : r ∉ m) (P : Uint256 → Prop) [DecidablePred P] (hP : P r) (w : Uint256 → M) :
    ∑ t ∈ (insert r m).filter P, w t = w r + ∑ t ∈ m, if P t then w t else 0 := by
  rw [Finset.filter_insert, if_pos hP, Finset.sum_insert (fun h => hr (Finset.mem_filter.mp h).1),
    Finset.sum_filter]

/-! ## The totals a consistent pool hands to the `assert`s -/

namespace Consistent

variable (hc : Consistent txHash pool)
include hc

/-- An entry's ancestor totals less the weights of some of its ancestors: its own weight and the
other ancestors'. -/
theorem ancTotals_sub {x : Uint256} (hx : x ∈ pool.mapTx) {T : Finset Uint256}
    (hT : T ⊆ pool.ancestors x) :
    (pool.entry x).ancTotals - ∑ t ∈ T, (pool.entry t).ancWeight =
      (pool.entry x).ancWeight + ∑ a ∈ pool.ancestors x \ T, (pool.entry a).ancWeight := by
  rw [hc.ancestors x hx, ← Finset.sum_sdiff hT]
  abel

theorem descTotals_sub {x : Uint256} (hx : x ∈ pool.mapTx) {T : Finset Uint256}
    (hT : T ⊆ pool.descendants x) :
    (pool.entry x).descTotals - ∑ t ∈ T, (pool.entry t).descWeight =
      (pool.entry x).descWeight + ∑ z ∈ pool.descendants x \ T, (pool.entry z).descWeight := by
  rw [hc.descendants x hx, ← Finset.sum_sdiff hT]
  abel

/-- An entry's ancestor totals, less the weights of some of its ancestors, pass the `assert`s of
`UpdateAncestorState` when the pool's sigop cost fits an `int`. -/
theorem ancestorStateOk_sub (hfit : SigOpsFit pool) {x : Uint256} (hx : x ∈ pool.mapTx)
    {T : Finset Uint256} (hT : T ⊆ pool.ancestors x) :
    AncestorStateOk ((pool.entry x).ancTotals - ∑ t ∈ T, (pool.entry t).ancWeight) := by
  have hsub : pool.ancestors x \ T ⊆ pool.mapTx := fun a ha =>
    (mem_ancestors.mp (Finset.mem_sdiff.mp ha).1).1
  have hsize : 0 ≤ ∑ a ∈ pool.ancestors x \ T, (pool.entry a).GetTxSize :=
    Finset.sum_nonneg fun a ha => (hc.size_pos a (hsub ha)).le
  have hsig : 0 ≤ ∑ a ∈ pool.ancestors x \ T, (pool.entry a).sigOpCost :=
    Finset.sum_nonneg fun a ha => hc.sigOpCost_nonneg a (hsub ha)
  -- the sigop cost left is part of the pool's
  have hle : (pool.entry x).sigOpCost + ∑ a ∈ pool.ancestors x \ T, (pool.entry a).sigOpCost ≤
      ∑ y ∈ pool.mapTx, (pool.entry y).sigOpCost := by
    have hx' : x ∉ pool.ancestors x \ T := fun h =>
      hc.links.not_mem_ancestors_self x (Finset.mem_sdiff.mp h).1
    rw [← Finset.sum_insert (f := fun a => (pool.entry a).sigOpCost) hx']
    exact Finset.sum_le_sum_of_subset_of_nonneg (Finset.insert_subset hx hsub)
      fun y hy _ => hc.sigOpCost_nonneg y hy
  have hpos := hc.size_pos x hx
  have hnn := hc.sigOpCost_nonneg x hx
  unfold SigOpsFit at hfit
  rw [hc.ancTotals_sub hx hT, sum_ancWeight]
  simp only [AncestorStateOk, ancWeight, Prod.mk_add_mk]
  exact ⟨by omega, by omega, by omega, by omega⟩

/-- An entry's descendant totals, less the weights of some of its descendants, pass the
`assert`s of `UpdateDescendantState`. -/
theorem descendantStateOk_sub {x : Uint256} (hx : x ∈ pool.mapTx) {T : Finset Uint256}
    (hT : T ⊆ pool.descendants x) :
    DescendantStateOk ((pool.entry x).descTotals - ∑ t ∈ T, (pool.entry t).descWeight) := by
  have hsub : pool.descendants x \ T ⊆ pool.mapTx := fun z hz =>
    (mem_descendants.mp (Finset.mem_sdiff.mp hz).1).1
  have hsize : 0 ≤ ∑ z ∈ pool.descendants x \ T, (pool.entry z).GetTxSize :=
    Finset.sum_nonneg fun z hz => (hc.size_pos z (hsub hz)).le
  have hpos := hc.size_pos x hx
  rw [hc.descTotals_sub hx hT, sum_descWeight]
  simp only [DescendantStateOk, descWeight, Prod.mk_add_mk]
  exact ⟨by omega, by omega⟩

theorem ancestorStateOk (hfit : SigOpsFit pool) {x : Uint256} (hx : x ∈ pool.mapTx) :
    AncestorStateOk (pool.entry x).ancTotals := by
  simpa using hc.ancestorStateOk_sub hfit hx (Finset.empty_subset _)

theorem descendantStateOk {x : Uint256} (hx : x ∈ pool.mapTx) :
    DescendantStateOk (pool.entry x).descTotals := by
  simpa using hc.descendantStateOk_sub hx (Finset.empty_subset _)

/-- A descendant of `r` that has given up the weights of the entries of `m` it counted, and now
gives up `r`'s, passes the `assert`s of `UpdateAncestorState`. -/
theorem ancestorStateOk_after (hfit : SigOpsFit pool) {d r : Uint256} (hd : d ∈ pool.descendants r)
    {m : Finset Uint256} (hrm : r ∉ m) :
    AncestorStateOk ((pool.entry d).ancTotals +
      -∑ t ∈ m, (if d ∈ pool.descendants t then (pool.entry t).ancWeight else 0) -
        (pool.entry r).ancWeight) := by
  have heq : (pool.entry d).ancTotals +
      -∑ t ∈ m, (if d ∈ pool.descendants t then (pool.entry t).ancWeight else 0) -
        (pool.entry r).ancWeight =
      (pool.entry d).ancTotals -
        ∑ t ∈ (insert r m).filter (fun t => d ∈ pool.descendants t), (pool.entry t).ancWeight := by
    rw [sum_filter_insert hrm _ hd]
    abel
  rw [heq]
  refine hc.ancestorStateOk_sub hfit (mem_descendants.mp hd).1 fun t ht => ?_
  exact hc.links.mem_descendants_iff_mem_ancestors.mp (Finset.mem_filter.mp ht).2

/-- An ancestor of `r` that has given up the weights of the entries of `m` it counted, and now
gives up `r`'s, passes the `assert`s of `UpdateDescendantState`. -/
theorem descendantStateOk_after {a r : Uint256} (ha : a ∈ pool.ancestors r) {m : Finset Uint256}
    (hrm : r ∉ m) :
    DescendantStateOk ((pool.entry a).descTotals +
      -∑ t ∈ m, (if a ∈ pool.ancestors t then (pool.entry t).descWeight else 0) +
        -(pool.entry r).descWeight) := by
  have heq : (pool.entry a).descTotals +
      -∑ t ∈ m, (if a ∈ pool.ancestors t then (pool.entry t).descWeight else 0) +
        -(pool.entry r).descWeight =
      (pool.entry a).descTotals -
        ∑ t ∈ (insert r m).filter (fun t => a ∈ pool.ancestors t), (pool.entry t).descWeight := by
    rw [sum_filter_insert hrm _ ha]
    abel
  rw [heq]
  refine hc.descendantStateOk_sub (mem_ancestors.mp ha).1 fun t ht => ?_
  exact hc.links.mem_descendants_iff_mem_ancestors.mpr (Finset.mem_filter.mp ht).2

end Consistent

/-! ## The operations return their states -/

/-- `UpdateAncestorsOf(add, it, setAncestors)` returns when every member of `setAncestors`
passes with the weight of `it` added to, or taken from, its descendant totals. -/
theorem UpdateAncestorsOf_eq_ok (add : Bool) (it : Uint256) (S : Finset Uint256)
    (h : ∀ a ∈ S, DescendantStateOk ((pool.entry a).descTotals +
      if add then (pool.entry it).descWeight else -(pool.entry it).descWeight)) :
    (pool.UpdateAncestorsOf add it S : Checked ε CTxMemPool) =
      .ok (pool.UpdateAncestorsOfState add it S) := by
  unfold UpdateAncestorsOf UpdateAncestorsOfState
  simp only [forEach_UpdateChild]
  refine forEachM_modifyM S fun a ha => UpdateDescendantState_eq_ok _ ?_
  refine (h a ha).of_eq ?_ ?_ <;> cases add <;> simp [descWeight]

/-- `UpdateEntryForAncestors(it, setAncestors)` returns when the entry passes with the weights
of `setAncestors` added to its ancestor totals. -/
theorem UpdateEntryForAncestors_eq_ok (it : Uint256) (S : Finset Uint256)
    (h : AncestorStateOk ((pool.entry it).ancTotals + ∑ a ∈ S, (pool.entry a).ancWeight)) :
    (pool.UpdateEntryForAncestors it S : Checked ε CTxMemPool) =
      .ok (pool.UpdateEntryForAncestorsState it S) := by
  rw [sum_ancWeight] at h
  unfold UpdateEntryForAncestors UpdateEntryForAncestorsState
  exact modifyM_eq_ok it (UpdateAncestorState_eq_ok _ h)

/-- The first loop's body returns when every descendant of `r` passes with the weight of `r`
taken from its ancestor totals. -/
theorem removeFromDescendants_eq_ok (hwf : LinksWF pool) {r : Uint256} (hr : r ∈ pool.mapTx)
    (h : ∀ d ∈ pool.descendants r,
      AncestorStateOk ((pool.entry d).ancTotals - (pool.entry r).ancWeight)) :
    (pool.removeFromDescendants r : Checked ε CTxMemPool) = .ok (pool.removeFromDescendantsState r) := by
  unfold removeFromDescendants removeFromDescendantsState
  simp only [hwf.CalculateDescendants_eq hr, Finset.erase_insert (hwf.not_mem_descendants_self r)]
  refine forEachM_modifyM _ fun d hd => UpdateAncestorState_eq_ok _ ?_
  refine (h d hd).of_eq ?_ ?_ ?_ <;> simp [ancWeight, sub_eq_add_neg]


/-! ## `UpdateForRemoveFromMempool` and `RemoveStaged` -/

namespace Consistent

variable (hc : Consistent txHash pool)
include hc

/-- The first loop of `UpdateForRemoveFromMempool` returns on a consistent pool: each pass finds
the descendants still counting the removed entries done so far, and their totals less the next
one's weight keep their own. -/
theorem forEachM_removeFromDescendants (hfit : SigOpsFit pool) {E : Finset Uint256}
    (hE : E ⊆ pool.mapTx) :
    (forEachM E (fun r p => p.removeFromDescendants r) pool : Checked ε CTxMemPool) =
      .ok (forEach E (fun r p => p.removeFromDescendantsState r) pool) := by
  have hwf := hc.links
  let A := fun (m : Finset Uint256) (y : Uint256) =>
    -∑ r ∈ m, if y ∈ pool.descendants r then (pool.entry r).ancWeight else 0
  let st := fun m : Finset Uint256 =>
    ({ pool with entry := fun y => (pool.entry y).moveAncestors (A m y) } : CTxMemPool)
  have h0 : pool = st ∅ := by
    simp only [st, A, Finset.sum_empty, neg_zero, moveAncestors_zero]
  have hstep : ∀ r ∈ E, ∀ m ⊆ E, r ∉ m →
      ((st m).removeFromDescendants r : Checked ε CTxMemPool) = .ok (st (insert r m)) := by
    intro r hr m _ hrm
    have hwfm : LinksWF (st m) := hwf.of_eq rfl rfl
    rw [removeFromDescendants_eq_ok hwfm (hE hr) fun d hd => by
      simpa [st] using hc.ancestorStateOk_after hfit hd hrm]
    refine congrArg Except.ok ((removeFromDescendantsState_step hwf (hE hr) (A m)).trans ?_)
    -- the pass adds `r` to the entries given up
    simp only [st, A, Finset.sum_insert hrm, neg_add_rev]
  conv_lhs => rw [h0]
  rw [forEachM_family st hstep, forEach_removeFromDescendants hwf hE]

/-- The second loop of `UpdateForRemoveFromMempool` returns on a pool whose ancestor totals the
first loop moved: the descendant totals it tests are the consistent pool's. -/
theorem forEachM_removeFromAncestors (A : Uint256 → ℤ × ℤ × ℤ × ℤ) (E : Finset Uint256) :
    (forEachM E (fun r p => p.UpdateAncestorsOf false r
        (p.CalculateMemPoolAncestors (p.entry r) r false))
      ({ pool with entry := fun y => (pool.entry y).moveAncestors (A y) } : CTxMemPool) :
        Checked ε CTxMemPool) =
      .ok (forEach E (fun r p => p.UpdateAncestorsOfState false r
          (p.CalculateMemPoolAncestors (p.entry r) r false))
        { pool with entry := fun y => (pool.entry y).moveAncestors (A y) }) := by
  set q : CTxMemPool := { pool with entry := fun y => (pool.entry y).moveAncestors (A y) } with hq
  have hwfq : LinksWF q := hc.links.of_eq rfl rfl
  let B := fun (m : Finset Uint256) (y : Uint256) =>
    -∑ r ∈ m, if y ∈ q.ancestors r then (q.entry r).descWeight else 0
  let st := fun m : Finset Uint256 => ({ q with
    entry := fun y => (q.entry y).moveDescendants (B m y)
    mapLinks := fun y => ⟨(q.mapLinks y).parents, (q.mapLinks y).children \ m⟩ } : CTxMemPool)
  have h0 : q = st ∅ := by
    simp only [st, B, Finset.sum_empty, neg_zero, moveDescendants_zero, Finset.sdiff_empty]
  have hstep : ∀ r ∈ E, ∀ m ⊆ E, r ∉ m →
      ((st m).UpdateAncestorsOf false r ((st m).CalculateMemPoolAncestors ((st m).entry r) r false) :
        Checked ε CTxMemPool) = .ok (st (insert r m)) := by
    intro r _ m _ hrm
    -- the ancestors found are the consistent pool's
    have hA : (st m).CalculateMemPoolAncestors ((st m).entry r) r false = pool.ancestors r := by
      rw [CalculateMemPoolAncestors_congr q (q := st m) rfl (funext fun _ => rfl),
        hwfq.CalculateMemPoolAncestors_eq]
      rfl
    rw [UpdateAncestorsOf_eq_ok false r _ fun a ha => by
      rw [hA] at ha
      -- the tests of `B` read the pool's ancestors through `q`
      exact (hc.descendantStateOk_after ha hrm).of_eq (by simp [st, B, q]; rfl)
        (by simp [st, B, q]; rfl)]
    refine congrArg Except.ok ((removeFromAncestors_step hwfq r (B m) m).trans ?_)
    -- the pass adds `r` to the entries given up
    simp only [st, B, Finset.sum_insert hrm, neg_add_rev]
  conv_lhs => rw [h0]
  rw [forEachM_family st hstep, forEach_removeFromAncestors hwfq]

/-- `UpdateForRemoveFromMempool` returns on a consistent pool; with `updateDescendants` the
pool's sigop cost must fit an `int`. -/
theorem UpdateForRemoveFromMempool_eq_ok {E : Finset Uint256} (hE : E ⊆ pool.mapTx) (ud : Bool)
    (hfit : ud = true → SigOpsFit pool) :
    (pool.UpdateForRemoveFromMempool E ud : Checked ε CTxMemPool) =
      .ok (pool.UpdateForRemoveFromMempoolState E ud) := by
  -- the first loop returns, and moves ancestor totals only
  obtain ⟨A, h1, hA⟩ : ∃ A : Uint256 → ℤ × ℤ × ℤ × ℤ,
      (if ud then forEachM E (fun r p => p.removeFromDescendants r) pool else pure pool :
        Checked ε CTxMemPool) = .ok { pool with entry := fun y => (pool.entry y).moveAncestors (A y) } ∧
      (if ud then forEach E (fun r p => p.removeFromDescendantsState r) pool else pool) =
        { pool with entry := fun y => (pool.entry y).moveAncestors (A y) } := by
    cases ud with
    | false => exact ⟨0, by simp, by simp⟩
    | true =>
      refine ⟨_, ?_, forEach_removeFromDescendants hc.links hE⟩
      rw [if_pos rfl, hc.forEachM_removeFromDescendants (hfit rfl) hE,
        forEach_removeFromDescendants hc.links hE]
  -- the three loops in sequence
  have hbind : (pool.UpdateForRemoveFromMempool E ud : Checked ε CTxMemPool) =
      (if ud then forEachM E (fun r p => p.removeFromDescendants r) pool else pure pool) >>= fun p1 =>
        forEachM E (fun r p => p.UpdateAncestorsOf false r
          (p.CalculateMemPoolAncestors (p.entry r) r false)) p1 >>= fun p2 =>
        pure (forEach E (fun r p => p.UpdateChildrenForRemoval r) p2) := by
    cases ud <;> rfl
  have hstate : pool.UpdateForRemoveFromMempoolState E ud =
      forEach E (fun r p => p.UpdateChildrenForRemoval r)
        (forEach E (fun r p => p.UpdateAncestorsOfState false r
          (p.CalculateMemPoolAncestors (p.entry r) r false))
        (if ud then forEach E (fun r p => p.removeFromDescendantsState r) pool else pool)) := rfl
  rw [hbind, hstate, h1, Checked.ok_bind, hc.forEachM_removeFromAncestors A E, Checked.ok_bind, hA]
  rfl

/-- `RemoveStaged` returns on a consistent pool the state `RemoveStagedState` describes. -/
theorem RemoveStaged_eq_ok {E : Finset Uint256} (hE : E ⊆ pool.mapTx) (ud : Bool)
    (hfit : ud = true → SigOpsFit pool) :
    (pool.RemoveStaged E ud : Checked ε CTxMemPool) = .ok (pool.RemoveStagedState E ud) := by
  rw [RemoveStaged, hc.UpdateForRemoveFromMempool_eq_ok hE ud hfit, Checked.ok_bind]
  rfl

end Consistent


/-! ## `addUnchecked` and `PrioritiseTransaction` -/

/-- The entries after `UpdateAncestorsOf`: each member of the set has its descendant totals
moved by the weight of `it`. -/
theorem UpdateAncestorsOfState_entry (add : Bool) (it : Uint256) (S : Finset Uint256) :
    (pool.UpdateAncestorsOfState add it S).entry = fun y => if y ∈ S then
      (pool.entry y).addDescendantState ((if add then 1 else -1) * (pool.entry it).GetTxSize)
        ((if add then 1 else -1) * (pool.entry it).GetModifiedFee) (if add then 1 else -1)
      else pool.entry y := by
  unfold UpdateAncestorsOfState
  simp only [forEach_UpdateChild, forEach_modify]

/-- Whatever `PrioritiseTransaction` returns is the state `PrioritiseTransactionState`
describes. -/
theorem PrioritiseTransaction_eq_of_ok {hash : Uint256} {nFeeDelta : ℤ} {q : CTxMemPool}
    (h : (pool.PrioritiseTransaction hash nFeeDelta : Checked ε CTxMemPool) = .ok q) :
    q = pool.PrioritiseTransactionState hash nFeeDelta := by
  unfold PrioritiseTransaction at h
  unfold PrioritiseTransactionState
  dsimp only at h ⊢
  split_ifs at h ⊢ with hh
  · obtain ⟨p, hp, hq⟩ := Checked.bind_eq_ok h
    rw [eq_forEach_of_forEachM (fun e _ he => eq_addAncestorState_of_ok e he) _ hq,
      eq_forEach_of_forEachM (fun e _ he => eq_addDescendantState_of_ok e he) _ hp]
  · cases h
    rfl

namespace Consistent

variable (hc : Consistent txHash pool)
include hc

/-- `addUnchecked` of an entry `AcceptToMemoryPool` admits returns on a consistent pool when the
sigop cost of the pool with the entry fits an `int`: each ancestor's descendant totals gain the
entry's weight, and the entry's ancestor totals are its weight and its ancestors'. -/
theorem addUnchecked_eq_ok {hash : Uint256} {e : CTxMemPoolEntry} (hadd : CanAdd txHash pool hash e)
    (hfit : ∑ x ∈ pool.mapTx, (pool.entry x).sigOpCost + e.sigOpCost < 2 ^ 31) :
    (pool.addUnchecked hash e : Checked ε CTxMemPool) = .ok (pool.addUncheckedState hash e) := by
  unfold addUnchecked addUncheckedState addUncheckedAncestors addUncheckedAncestorsState
  dsimp only
  set S := pool.CalculateMemPoolAncestors e hash true
  set δ := (pool.mapDeltas hash).getD 0
  have hSsub : S ⊆ pool.mapTx := ancestorsOfNew_subset hc
  have hnS : hash ∉ S := fun h => hadd.fresh (hSsub h)
  have hlinks := addUncheckedLinks_eq hadd.fresh hadd.no_self_spend hadd.feeDelta_eq
  set p2 := pool.addUncheckedLinks hash e with hp2
  have hp2a : ∀ a ∈ S, p2.entry a = pool.entry a := fun a ha => by
    show p2.entry a = pool.entry a
    rw [hlinks]
    exact Function.update_of_ne (fun (h : a = hash) => hnS (h ▸ ha)) _ _
  have hp2h : p2.entry hash = e.UpdateFeeDelta δ := by
    show p2.entry hash = e.UpdateFeeDelta δ
    rw [hlinks]
    exact Function.update_self _ _ _
  -- each ancestor's descendant totals gain the new entry's weight
  have h1 : (p2.UpdateAncestorsOf true hash S : Checked ε CTxMemPool) =
      .ok (p2.UpdateAncestorsOfState true hash S) :=
    UpdateAncestorsOf_eq_ok true hash S fun a ha => by
      rw [hp2a a ha, hp2h, if_pos rfl]
      exact (hc.descendantStateOk (hSsub ha)).add (by simp [descWeight])
        (by simpa [descWeight] using hadd.size_pos.le)
  -- the new entry's ancestor totals gain its ancestors' weights
  set p3 := p2.UpdateAncestorsOfState true hash S with hp3
  have hp3a : ∀ a ∈ S, (p3.entry a).ancWeight = (pool.entry a).ancWeight := fun a ha => by
    rw [hp3, UpdateAncestorsOfState_entry]
    simp only [if_pos ha, ancWeight_addDescendantState, hp2a a ha]
  have hp3h : p3.entry hash = e.UpdateFeeDelta δ := by
    rw [hp3, UpdateAncestorsOfState_entry]
    simp only [if_neg hnS, hp2h]
  have hsize : 0 ≤ ∑ a ∈ S, (pool.entry a).GetTxSize :=
    Finset.sum_nonneg fun a ha => (hc.size_pos a (hSsub ha)).le
  have hsig : 0 ≤ ∑ a ∈ S, (pool.entry a).sigOpCost :=
    Finset.sum_nonneg fun a ha => hc.sigOpCost_nonneg a (hSsub ha)
  have hle : ∑ a ∈ S, (pool.entry a).sigOpCost ≤ ∑ x ∈ pool.mapTx, (pool.entry x).sigOpCost :=
    Finset.sum_le_sum_of_subset_of_nonneg hSsub fun x hx _ => hc.sigOpCost_nonneg x hx
  have h2 : (p3.UpdateEntryForAncestors hash S : Checked ε CTxMemPool) =
      .ok (p3.UpdateEntryForAncestorsState hash S) := by
    refine UpdateEntryForAncestors_eq_ok hash S ?_
    rw [hp3h, Finset.sum_congr rfl hp3a, ancTotals_UpdateFeeDelta, hadd.anc_eq, sum_ancWeight]
    have hpos := hadd.size_pos
    have hnn := hadd.sigOpCost_nonneg
    simp only [AncestorStateOk, ancWeight, Prod.mk_add_mk]
    exact ⟨by omega, by omega, by omega, by omega⟩
  rw [h1, Checked.ok_bind, h2, Checked.ok_bind]
  rfl

/-- `PrioritiseTransaction` returns on a consistent pool whose sigop cost fits an `int`: the
totals it moves gain fees only. -/
theorem PrioritiseTransaction_eq_ok (hfit : SigOpsFit pool) (hash : Uint256) (nFeeDelta : ℤ) :
    (pool.PrioritiseTransaction hash nFeeDelta : Checked ε CTxMemPool) =
      .ok (pool.PrioritiseTransactionState hash nFeeDelta) := by
  have hwf := hc.links
  by_cases hh : hash ∈ pool.mapTx
  · simp only [PrioritiseTransaction, PrioritiseTransactionState, hh, if_true,
      modify_CalculateMemPoolAncestors, mk_CalculateMemPoolAncestors, hwf.CalculateMemPoolAncestors_eq]
    rw [forEachM_modifyM _ ?_, Checked.ok_bind, forEachM_modifyM _ ?_]
    · -- a descendant's ancestor totals are the pool's, with fees moved
      intro d hd
      rw [forEach_modify] at hd ⊢
      simp only [mk_CalculateDescendants, modify_CalculateDescendants, hwf.CalculateDescendants_eq hh,
        Finset.erase_insert (hwf.not_mem_descendants_self hash)] at hd
      have hdh : d ≠ hash := fun h => hwf.not_mem_descendants_self hash (h ▸ hd)
      refine UpdateAncestorState_eq_ok _ ((hc.ancestorStateOk hfit (mem_descendants.mp hd).1).of_eq
        ?_ ?_ ?_) <;> by_cases hda : d ∈ pool.ancestors hash <;>
        simp [hda, modify, hdh, ancTotals, addDescendantState]
    · -- an ancestor's descendant totals are the pool's, with fees moved
      intro a ha
      have hah : a ≠ hash := fun h => hwf.not_mem_ancestors_self hash (h ▸ ha)
      exact UpdateDescendantState_eq_ok _ ((hc.descendantStateOk (mem_ancestors.mp ha).1).of_eq
        (by simp [modify, hah]) (by simp [modify, hah]))
  · simp [PrioritiseTransaction, PrioritiseTransactionState, hh]

end Consistent

end CTxMemPool

end Mempool

end Cascoin
