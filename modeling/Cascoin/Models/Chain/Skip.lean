import Cascoin.Models.Chain.Block

/-!
# The skip list of block indexes

Besides `pprev`, every `CBlockIndex` has a pointer `pskip` that `BuildSkip` sets
once, when the index is added: to the ancestor at `GetSkipHeight(nHeight)`, found
by `GetAncestor` on `pprev`. `GetAncestor(height)` walks down from the index,
taking `pskip` when the skip heights say it does not overshoot and `pprev`
otherwise, behind an `assert(pprev)`.

The `pskip` pointers of the block index are a function on indexes, `nullptr` as
`none`. The walk returns the ancestor that `pprev` reaches (`ancestorAt`) as soon
as every `pskip` behind the index points where `BuildSkip` means it to
(`GetAncestor_of_skipsBuilt`): its correctness needs only that a skip height lies
below the height it is taken from. `BuildSkip` run over indexes added parents
first sets every pointer so (`buildSkips_skipsBuilt`), which is the order both
`AddToBlockIndex` and `LoadBlockIndex` (sorted by height) keep.
-/

namespace Cascoin

/-- `InvertLowestOne(n)`: clear the lowest set bit. The code applies it only to
non-negative `int`s, where `n & (n - 1)` is the bitwise and of the naturals
(`0 & -1 = 0` as `0 &&& 0 = 0`). -/
def InvertLowestOne (n : Nat) : Nat := n &&& (n - 1)

/-- `GetSkipHeight(height)`: the height `pskip` jumps back to. -/
def GetSkipHeight (height : Int) : Int :=
  if height < 2 then 0
  else if height % 2 = 1 then InvertLowestOne (InvertLowestOne (height.toNat - 1)) + 1
  else InvertLowestOne height.toNat

theorem InvertLowestOne_le (n : Nat) : InvertLowestOne n ≤ n - 1 := Nat.and_le_right

theorem GetSkipHeight_nonneg (height : Int) : 0 ≤ GetSkipHeight height := by
  unfold GetSkipHeight
  split_ifs <;> omega

/-- A skip goes strictly down, which is all the correctness of the walk needs of
the heights. -/
theorem GetSkipHeight_lt {height : Int} (h : 1 ≤ height) : GetSkipHeight height < height := by
  unfold GetSkipHeight
  have hinner := InvertLowestOne_le (height.toNat - 1)
  have houter := InvertLowestOne_le (InvertLowestOne (height.toNat - 1))
  have heven := InvertLowestOne_le height.toNat
  split_ifs <;> omega

/-- The test of `GetAncestor`'s loop on the skip heights: follow `pskip` when it
lands on the target, or above it unless `pprev->pskip` lands between the two. -/
def followSkip (height heightWalk : Int) : Bool :=
  let heightSkip := GetSkipHeight heightWalk
  let heightSkipPrev := GetSkipHeight (heightWalk - 1)
  heightSkip == height ||
    (heightSkip > height && !(heightSkipPrev < heightSkip - 2 && heightSkipPrev >= height))

theorem le_GetSkipHeight_of_followSkip {height heightWalk : Int}
    (h : followSkip height heightWalk = true) : height ≤ GetSkipHeight heightWalk := by
  simp only [followSkip, Bool.or_eq_true, beq_iff_eq, Bool.and_eq_true, decide_eq_true_eq] at h
  omega

namespace CBlockIndex

theorem ext_of_eq {p q : CBlockIndex} (hentry : p.entry = q.entry)
    (hancestors : p.ancestors = q.ancestors) : p = q := by
  rcases p with ⟨e, ancestors, _, _⟩
  rcases q with ⟨e', ancestors', _, _⟩
  simp only at hentry hancestors
  subst hentry hancestors
  rfl

/-- Indexes are told apart by their entries and what lies behind them, as the
pointers are by the block they point to. -/
instance : DecidableEq CBlockIndex := fun p q =>
  decidable_of_iff (p.entry = q.entry ∧ p.ancestors = q.ancestors)
    ⟨fun h => ext_of_eq h.1 h.2, fun h => h ▸ ⟨rfl, rfl⟩⟩

theorem go_add (q : CBlockIndex) (m n : Nat) :
    ancestorAt.go q (m + n) = (ancestorAt.go q m).bind (ancestorAt.go · n) := by
  induction m generalizing q with
  | zero => rw [Nat.zero_add]; rfl
  | succ m ih =>
    rw [Nat.add_right_comm]
    cases hq : q.pprev with
    | none => simp only [ancestorAt.go, hq, Option.bind_none]
    | some prev => simp only [ancestorAt.go, hq, Option.bind_some, ih prev]

theorem nHeight_go {q r : CBlockIndex} {n : Nat} (h : ancestorAt.go q n = some r) :
    r.nHeight = q.nHeight - n := by
  induction n generalizing q with
  | zero =>
    cases h
    omega
  | succ n ih =>
    cases hq : q.pprev with
    | none => simp only [ancestorAt.go, hq, Option.bind_none, reduceCtorEq] at h
    | some prev =>
      simp only [ancestorAt.go, hq, Option.bind_some] at h
      rw [ih h, nHeight_pprev hq]
      omega

/-- `pprev` reaches as far back as the height. -/
theorem go_isSome {q : CBlockIndex} {n : Nat} (h : n ≤ q.nHeight) :
    ∃ r, ancestorAt.go q n = some r := by
  induction n generalizing q with
  | zero => exact ⟨q, rfl⟩
  | succ n ih =>
    obtain ⟨prev, hprev⟩ := Option.ne_none_iff_exists'.mp
      (mt (pprev_eq_none_iff q).mp (by omega))
    have hheight := nHeight_pprev hprev
    obtain ⟨r, hr⟩ := ih (q := prev) (by omega)
    exact ⟨r, by simp only [ancestorAt.go, hprev, Option.bind_some, hr]⟩

/-- Where `BuildSkip` means `pskip` to point: the ancestor of `pprev` at the skip
height; nowhere for an index without `pprev`. -/
def skipTarget (p : CBlockIndex) : Option CBlockIndex :=
  p.pprev.bind fun prev => prev.ancestorAt (GetSkipHeight p.nHeight)

/-- Above the genesis block the target is the index's own ancestor at the skip
height. -/
theorem skipTarget_eq_go {p : CBlockIndex} (h : 1 ≤ p.nHeight) :
    p.skipTarget = ancestorAt.go p (p.nHeight - GetSkipHeight p.nHeight).toNat := by
  obtain ⟨prev, hprev⟩ := Option.ne_none_iff_exists'.mp
    (mt (pprev_eq_none_iff p).mp (by omega))
  have hheight := nHeight_pprev hprev
  have hlt := GetSkipHeight_lt h
  have hnonneg := GetSkipHeight_nonneg p.nHeight
  have hsucc : (p.nHeight - GetSkipHeight p.nHeight).toNat =
      (prev.nHeight - GetSkipHeight p.nHeight).toNat + 1 := by omega
  rw [skipTarget, hprev, Option.bind_some, hsucc, ancestorAt, if_neg (by omega)]
  simp only [ancestorAt.go, hprev, Option.bind_some]

end CBlockIndex

section Walk

variable {ε : Type} (pskip : CBlockIndex → Option CBlockIndex)

/-- The loop of `GetAncestor(height)` from `pindexWalk` at `heightWalk`; the guard
before it has checked `0 ≤ height`. -/
def ancestorWalk (height : Int) (hheight : 0 ≤ height) (pindexWalk : CBlockIndex)
    (heightWalk : Int) : Checked ε CBlockIndex :=
  if hwalk : heightWalk > height then
    if hskip : (pskip pindexWalk).isSome ∧ followSkip height heightWalk = true then
      ancestorWalk height hheight ((pskip pindexWalk).get hskip.1) (GetSkipHeight heightWalk)
    else do
      Checked.assert pindexWalk.pprev.isSome
      let pprev ← Checked.deref pindexWalk.pprev
      ancestorWalk height hheight pprev (heightWalk - 1)
  else .ok pindexWalk
termination_by (heightWalk - height).toNat
decreasing_by
  · have := GetSkipHeight_lt (show 1 ≤ heightWalk by omega)
    omega
  · omega

/-- `CBlockIndex::GetAncestor(height)`: `nullptr` outside `[0, nHeight]`, else the
loop from the index itself. -/
def CBlockIndex.GetAncestor (p : CBlockIndex) (height : Int) :
    Checked ε (Option CBlockIndex) :=
  if hout : height > p.nHeight ∨ height < 0 then .ok none
  else some <$> ancestorWalk pskip height (by omega) p p.nHeight

/-- `CBlockIndex::BuildSkip()`: the `pskip` it sets from `pprev`; an index without
`pprev` keeps the constructor's `nullptr`. -/
def CBlockIndex.BuildSkip (p : CBlockIndex) : Checked ε (Option CBlockIndex) :=
  match p.pprev with
  | some prev => prev.GetAncestor pskip (GetSkipHeight p.nHeight)
  | none => .ok none

/-- Every `pskip` behind the index, its own included, points where `BuildSkip`
means it to. -/
def SkipsBuilt (p : CBlockIndex) : Prop :=
  ∀ n q, CBlockIndex.ancestorAt.go p n = some q → pskip q = q.skipTarget

variable {pskip}

theorem SkipsBuilt.go {p q : CBlockIndex} (h : SkipsBuilt pskip p) {m : Nat}
    (hq : CBlockIndex.ancestorAt.go p m = some q) : SkipsBuilt pskip q := by
  intro n r hr
  apply h (m + n) r
  rw [CBlockIndex.go_add, hq, Option.bind_some, hr]

/-- The loop from an index at its own height returns the ancestor `pprev` reaches at
the target, when the `pskip` pointers behind the index are built: a pass either
skips to the ancestor at the skip height, which lies between the target and the
current height, or steps to `pprev`, which the height above the target
guarantees. -/
theorem ancestorWalk_eq {height : Int} (hheight : 0 ≤ height) (q : CBlockIndex)
    (heightWalk : Int) (hbuilt : SkipsBuilt pskip q) (hq : q.nHeight = heightWalk)
    (hle : height ≤ heightWalk) {r : CBlockIndex}
    (hr : CBlockIndex.ancestorAt.go q (heightWalk - height).toNat = some r) :
    (ancestorWalk pskip height hheight q heightWalk : Checked ε CBlockIndex) = .ok r := by
  fun_induction ancestorWalk pskip height hheight q heightWalk with
  | case1 q heightWalk hwalk hskip ih =>
    subst hq
    have hself : pskip q = q.skipTarget := hbuilt 0 q rfl
    have hlow := le_GetSkipHeight_of_followSkip hskip.2
    have hbelow := GetSkipHeight_lt (show 1 ≤ q.nHeight by omega)
    have hjump : CBlockIndex.ancestorAt.go q (q.nHeight - GetSkipHeight q.nHeight).toNat =
        some ((pskip q).get hskip.1) := by
      rw [← CBlockIndex.skipTarget_eq_go (by omega), ← hself, Option.some_get]
    have hsplit : (q.nHeight - height).toNat =
        (q.nHeight - GetSkipHeight q.nHeight).toNat + (GetSkipHeight q.nHeight - height).toNat := by
      omega
    rw [hsplit, CBlockIndex.go_add, hjump, Option.bind_some] at hr
    apply ih (hbuilt.go hjump) _ hlow hr
    rw [CBlockIndex.nHeight_go hjump]
    omega
  | case2 q heightWalk hwalk hskip ih =>
    subst hq
    obtain ⟨prev, hprev⟩ := Option.ne_none_iff_exists'.mp
      (mt (CBlockIndex.pprev_eq_none_iff q).mp (by omega))
    have hheight := CBlockIndex.nHeight_pprev hprev
    have hstep : CBlockIndex.ancestorAt.go q 1 = some prev := by
      simp only [CBlockIndex.ancestorAt.go, hprev, Option.bind_some]
    have hsplit : (q.nHeight - height).toNat = 1 + (q.nHeight - 1 - height).toNat := by omega
    rw [hsplit, CBlockIndex.go_add, hstep, Option.bind_some] at hr
    rw [hprev, Option.isSome_some, Checked.assert_true, Checked.ok_bind, Checked.deref_some,
      Checked.ok_bind]
    exact ih prev (hbuilt.go hstep) hheight (by omega) hr
  | case3 q heightWalk hstop =>
    have hzero : (heightWalk - height).toNat = 0 := by omega
    rw [hzero] at hr
    cases hr
    rfl

/-- With the `pskip` pointers behind it built, `GetAncestor` returns the ancestor
`pprev` reaches, `nullptr` outside `[0, nHeight]`: the `assert` never fails and
the loop ends. -/
theorem GetAncestor_of_skipsBuilt {p : CBlockIndex} (hbuilt : SkipsBuilt pskip p)
    (height : Int) :
    (p.GetAncestor pskip height : Checked ε (Option CBlockIndex)) = .ok (p.ancestorAt height) := by
  by_cases hout : height > p.nHeight ∨ height < 0
  · rw [CBlockIndex.GetAncestor, dif_pos hout, CBlockIndex.ancestorAt, if_pos (by omega)]
  · obtain ⟨r, hr⟩ := CBlockIndex.go_isSome (q := p) (n := (p.nHeight - height).toNat) (by omega)
    rw [CBlockIndex.GetAncestor, dif_neg hout, CBlockIndex.ancestorAt, if_neg (by omega), hr,
      ancestorWalk_eq (by omega) p p.nHeight hbuilt rfl (by omega) hr, Checked.map_ok]

/-- On an index whose parent's pointers are built, `BuildSkip` sets `pskip` to its
target. -/
theorem BuildSkip_of_skipsBuilt {p : CBlockIndex}
    (hprev : ∀ prev, p.pprev = some prev → SkipsBuilt pskip prev) :
    (p.BuildSkip pskip : Checked ε (Option CBlockIndex)) = .ok p.skipTarget := by
  unfold CBlockIndex.BuildSkip CBlockIndex.skipTarget
  cases hp : p.pprev with
  | none => rfl
  | some prev => exact GetAncestor_of_skipsBuilt (hprev prev hp) _

/-- An index is built once its own pointer is and its parent's are. -/
theorem skipsBuilt_of_pprev {p : CBlockIndex} (hself : pskip p = p.skipTarget)
    (hprev : ∀ prev, p.pprev = some prev → SkipsBuilt pskip prev) : SkipsBuilt pskip p := by
  intro n q hq
  cases n with
  | zero =>
    cases hq
    exact hself
  | succ n =>
    cases hp : p.pprev with
    | none => simp only [CBlockIndex.ancestorAt.go, hp, Option.bind_none, reduceCtorEq] at hq
    | some prev =>
      simp only [CBlockIndex.ancestorAt.go, hp, Option.bind_some] at hq
      exact hprev prev hp n q hq

/-- Setting one pointer to its target keeps every built index built. -/
theorem SkipsBuilt.update {p q : CBlockIndex} (h : SkipsBuilt pskip q) :
    SkipsBuilt (Function.update pskip p p.skipTarget) q := by
  intro n r hr
  by_cases hrp : r = p
  · subst hrp
    rw [Function.update_self]
  · rw [Function.update_of_ne hrp]
    exact h n r hr

end Walk

section Build

variable {ε : Type}

/-- The `pskip` pointers after `BuildSkip` ran on each index of `added` (latest
first), after those behind it; the constructor leaves every `pskip` `nullptr`. -/
def buildSkips : List CBlockIndex → Checked ε (CBlockIndex → Option CBlockIndex)
  | [] => .ok fun _ => none
  | p :: older => do
    let pskip ← buildSkips older
    let skip ← p.BuildSkip pskip
    return Function.update pskip p skip

/-- Each index of `added` (latest first) came after its `pprev`. -/
def ParentsFirst : List CBlockIndex → Prop
  | [] => True
  | p :: older => (∀ prev, p.pprev = some prev → prev ∈ older) ∧ ParentsFirst older

/-- Indexes added parents first and built in that order have every pointer behind
them built. -/
theorem buildSkips_skipsBuilt {added : List CBlockIndex} (hadded : ParentsFirst added) :
    ∃ pskip, (buildSkips added : Checked ε _) = .ok pskip ∧ ∀ p ∈ added, SkipsBuilt pskip p := by
  induction added with
  | nil => exact ⟨fun _ => none, rfl, fun p hp => absurd hp List.not_mem_nil⟩
  | cons p older ih =>
    obtain ⟨hparent, hrest⟩ := hadded
    obtain ⟨pskip, hrun, hbuilt⟩ := ih hrest
    have hprev : ∀ prev, p.pprev = some prev → SkipsBuilt pskip prev :=
      fun prev h => hbuilt prev (hparent prev h)
    refine ⟨Function.update pskip p p.skipTarget, ?_, ?_⟩
    · rw [buildSkips, hrun, Checked.ok_bind, BuildSkip_of_skipsBuilt hprev, Checked.ok_bind]
      rfl
    · intro q hq
      rcases List.mem_cons.mp hq with rfl | hq
      · exact skipsBuilt_of_pprev (Function.update_self ..) fun prev h => (hprev prev h).update
      · exact (hbuilt q hq).update

/-- Over any indexes added parents first with `BuildSkip` run on each, every
`pskip` points at the ancestor at its skip height, and `GetAncestor` on any of
them returns, for every height, the ancestor `pprev` reaches (`nullptr` outside
`[0, nHeight]`), without failing its `assert`. -/
theorem GetAncestor_of_BuildSkip {added : List CBlockIndex} (hadded : ParentsFirst added) :
    ∃ pskip, (buildSkips added : Checked ε _) = .ok pskip ∧
      ∀ p ∈ added, pskip p = p.skipTarget ∧
        ∀ height, (p.GetAncestor pskip height : Checked ε _) = .ok (p.ancestorAt height) := by
  obtain ⟨pskip, hrun, hbuilt⟩ := buildSkips_skipsBuilt hadded
  exact ⟨pskip, hrun, fun p hp => ⟨hbuilt p hp 0 p rfl, GetAncestor_of_skipsBuilt (hbuilt p hp)⟩⟩

/-- A genesis index and two descendants, latest first. -/
def threeIndexes : List CBlockIndex :=
  let g := CBlockIndex.genesis Uint256.zero ⟨1, Uint256.zero, Uint256.zero, 0, 0, 0⟩ true 1
  let b1 := g.extend Uint256.zero ⟨1, g.hash, Uint256.zero, 1, 0, 0⟩ true 1 rfl
  [b1.extend Uint256.zero ⟨1, b1.hash, Uint256.zero, 2, 0, 0⟩ true 1 rfl, b1, g]

theorem GetAncestor_of_BuildSkip_three :
    ∃ pskip, (buildSkips threeIndexes : Checked Unit _) = .ok pskip ∧
      ∀ p ∈ threeIndexes, pskip p = p.skipTarget ∧
        ∀ height, (p.GetAncestor pskip height : Checked Unit _) = .ok (p.ancestorAt height) := by
  apply GetAncestor_of_BuildSkip
  refine ⟨fun prev h => ?_, fun prev h => ?_, fun prev h => ?_, trivial⟩
  · rw [CBlockIndex.pprev_extend] at h
    cases h
    exact List.mem_cons_self
  · rw [CBlockIndex.pprev_extend] at h
    cases h
    exact List.mem_singleton_self _
  · simp [CBlockIndex.genesis, CBlockIndex.pprev] at h

end Build

end Cascoin
