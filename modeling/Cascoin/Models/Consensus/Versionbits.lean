import Cascoin.Core.Median
import Cascoin.Models.Chain.Node

/-!
# Versionbits

`AbstractThresholdConditionChecker::GetStateFor` gives the BIP9 state of a
deployment for the block after `pindexPrev`. The state changes only at the first
block of a period of `nPeriod` blocks, so it is computed at the last block of the
period before. The code walks back in steps of `nPeriod` until it reaches a block
whose state is cached, a null pointer, or a block whose median time past is before
the start time, where it sets `THRESHOLD_DEFINED`; then it walks forward again,
caching each state on the way.

A pointer is modelled by its path (`CBlockIndex.path`, `[]` for `nullptr`), so
`pindex->nHeight` is the path's length less one and `GetAncestor` drops entries
from the front of the path (`pathOf_ancestorAt`). The cache is keyed by these
paths.

The reference is the uncached recursion `stateAfter` over the period ends below a
block. The cached walk agrees with it, from every cache that earlier calls left,
as long as the median time past never decreases along a chain and the start time
is not after the timeout (`GetStateFor_eq_BIP9State`). Where the start time is
after the timeout, the shortcut at the start time can return `THRESHOLD_DEFINED`
for a period the recursion has already failed (`GetStateFor_shortcut_after_timeout`).
-/

namespace Cascoin

/-- `ThresholdState`. -/
inductive ThresholdState where
  | THRESHOLD_DEFINED
  | THRESHOLD_STARTED
  | THRESHOLD_LOCKED_IN
  | THRESHOLD_ACTIVE
  | THRESHOLD_FAILED
  deriving DecidableEq, Repr

open ThresholdState

/-! ## Pointers as paths -/

/-- The path of a `CBlockIndex*`, `[]` for `nullptr`. -/
def pathOf : Option CBlockIndex → List BlockIndexEntry
  | none => []
  | some p => p.path

/-- `pindex->nHeight` of the index with this path. -/
def pathHeight (path : List BlockIndexEntry) : Int := path.length - 1

/-- `pindex->GetAncestor(nHeight)`: `nullptr` outside `[0, pindex->nHeight]`. -/
def GetAncestor (path : List BlockIndexEntry) (nHeight : Int) : List BlockIndexEntry :=
  if nHeight < 0 ∨ pathHeight path < nHeight then []
  else path.drop (pathHeight path - nHeight).toNat

/-- The ancestor `k` blocks back is the path without its first `k` entries. -/
theorem GetAncestor_sub (path : List BlockIndexEntry) (k : Nat) :
    GetAncestor path (pathHeight path - k) = path.drop k := by
  unfold GetAncestor pathHeight
  split
  · -- no block that far back
    rw [List.drop_eq_nil_of_le (by omega)]
  · congr
    omega

theorem pathOf_go (q : CBlockIndex) (n : Nat) :
    pathOf (CBlockIndex.ancestorAt.go q n) = q.path.drop n := by
  induction n generalizing q with
  | zero => rfl
  | succ n ih =>
    cases hq : q.pprev with
    | none =>
      -- the genesis block: its path is the entry alone
      have hanc : q.ancestors = [] := by
        have h0 := (CBlockIndex.pprev_eq_none_iff q).1 hq
        rw [CBlockIndex.nHeight_eq] at h0
        exact List.length_eq_zero_iff.1 (by omega)
      simp [CBlockIndex.ancestorAt.go, hq, pathOf, CBlockIndex.path, hanc]
    | some r =>
      simp only [CBlockIndex.ancestorAt.go, hq, Option.bind_some, ih r,
        CBlockIndex.path_pprev hq]
      rfl

/-- `ancestorAt`, the model of `GetAncestor` on indexes, is `GetAncestor` on paths. -/
theorem pathOf_ancestorAt (p : CBlockIndex) (h : Int) :
    pathOf (p.ancestorAt h) = GetAncestor p.path h := by
  have hheight : p.nHeight = pathHeight p.path := by
    simp [pathHeight, CBlockIndex.path, CBlockIndex.nHeight_eq]
  unfold CBlockIndex.ancestorAt GetAncestor
  rw [hheight]
  split
  · rfl
  · exact pathOf_go p _

/-- `nMedianTimeSpan`. -/
def nMedianTimeSpan : Nat := 11

/-- `GetMedianTimePast()`: the middle of the sorted block times of the index and up
to ten ancestors. -/
def GetMedianTimePast (path : List BlockIndexEntry) : Int :=
  let pmedian := ((path.take nMedianTimeSpan).map fun e => (e.header.nTime.toNat : Int)).insertionSort
    (· ≤ ·)
  pmedian.getD (pmedian.length / 2) 0

/-- The times `GetMedianTimePast()` reads: the index's and up to ten ancestors'. -/
def medianTimes (path : List BlockIndexEntry) : List Int :=
  (path.take nMedianTimeSpan).map fun e => (e.header.nTime.toNat : Int)

theorem GetMedianTimePast_eq_median (path : List BlockIndexEntry) :
    GetMedianTimePast path = (medianTimes path).median 0 := by
  simp only [GetMedianTimePast, List.median, medianTimes, List.length_insertionSort]

/-- `ContextualCheckBlockHeader`'s `time-too-old` rule along the path: every block's time
is after its parent's median time past. -/
def BlockTimesAfterMedian : List BlockIndexEntry → Prop
  | e :: f :: rest =>
    GetMedianTimePast (f :: rest) < (e.header.nTime.toNat : Int) ∧ BlockTimesAfterMedian (f :: rest)
  | _ => True

instance BlockTimesAfterMedian.instDecidable :
    (path : List BlockIndexEntry) → Decidable (BlockTimesAfterMedian path)
  | [] => isTrue trivial
  | [_] => isTrue trivial
  | _ :: f :: rest =>
    have := BlockTimesAfterMedian.instDecidable (f :: rest)
    inferInstanceAs (Decidable (_ ∧ _))

/-- One block more: the window gains the new block's time, which is above the median, and
loses at most its oldest time. -/
theorem GetMedianTimePast_le_cons {e f : BlockIndexEntry} {rest : List BlockIndexEntry}
    (h : GetMedianTimePast (f :: rest) < (e.header.nTime.toNat : Int)) :
    GetMedianTimePast (f :: rest) ≤ GetMedianTimePast (e :: f :: rest) := by
  have hwindow : medianTimes (e :: f :: rest) =
      (e.header.nTime.toNat : Int) :: ((f :: rest).take (nMedianTimeSpan - 1)).map
        fun e => (e.header.nTime.toNat : Int) := by
    simp [medianTimes, nMedianTimeSpan]
  have hsub : List.Sublist
      (((f :: rest).take (nMedianTimeSpan - 1)).map fun e => (e.header.nTime.toNat : Int))
      (medianTimes (f :: rest)) :=
    ((List.take_sublist_take_left (by simp [nMedianTimeSpan])).map _)
  have hlen : (medianTimes (f :: rest)).length ≤
      (((f :: rest).take (nMedianTimeSpan - 1)).map fun e => (e.header.nTime.toNat : Int)).length + 1 := by
    simp only [medianTimes, List.length_map, List.length_take]
    simp [nMedianTimeSpan]
    omega
  rw [GetMedianTimePast_eq_median, GetMedianTimePast_eq_median, hwindow]
  rw [GetMedianTimePast_eq_median] at h
  exact List.median_le_median_cons 0 (by simp [medianTimes, nMedianTimeSpan]) hsub hlen h

/-- The median time past never decreases from a block to the next along the path. -/
def MedianTimeNondecreasing : List BlockIndexEntry → Prop
  | e :: f :: rest =>
    GetMedianTimePast (f :: rest) ≤ GetMedianTimePast (e :: f :: rest) ∧
      MedianTimeNondecreasing (f :: rest)
  | _ => True

instance MedianTimeNondecreasing.instDecidable :
    (path : List BlockIndexEntry) → Decidable (MedianTimeNondecreasing path)
  | [] => isTrue trivial
  | [_] => isTrue trivial
  | _ :: f :: rest =>
    have := MedianTimeNondecreasing.instDecidable (f :: rest)
    inferInstanceAs (Decidable (_ ∧ _))

theorem MedianTimeNondecreasing.tail {path : List BlockIndexEntry}
    (h : MedianTimeNondecreasing path) : MedianTimeNondecreasing path.tail := by
  match path, h with
  | [], _ => trivial
  | [_], _ => trivial
  | _ :: _ :: _, h => exact h.2

theorem MedianTimeNondecreasing.drop {path : List BlockIndexEntry}
    (h : MedianTimeNondecreasing path) (k : Nat) : MedianTimeNondecreasing (path.drop k) := by
  induction k generalizing path with
  | zero => exact h
  | succ k ih =>
    rw [show k + 1 = 1 + k by omega, ← List.drop_drop, List.drop_one]
    exact ih h.tail

/-- Along such a path an ancestor's median time past is at most the block's. -/
theorem MedianTimeNondecreasing.le_drop {path : List BlockIndexEntry}
    (h : MedianTimeNondecreasing path) {k : Nat} (hk : path.drop k ≠ []) :
    GetMedianTimePast (path.drop k) ≤ GetMedianTimePast path := by
  induction k generalizing path with
  | zero => exact le_refl _
  | succ k ih =>
    match path, h, hk with
    | [], _, hk => simp at hk
    | [_], _, hk => simp at hk
    | e :: f :: rest, h, hk =>
      calc GetMedianTimePast ((e :: f :: rest).drop (k + 1))
          = GetMedianTimePast ((f :: rest).drop k) := rfl
        _ ≤ GetMedianTimePast (f :: rest) := ih h.2 hk
        _ ≤ GetMedianTimePast (e :: f :: rest) := h.1

/-- Under the `time-too-old` rule the median time past never decreases along a chain. -/
theorem MedianTimeNondecreasing_of_blockTimes {path : List BlockIndexEntry}
    (h : BlockTimesAfterMedian path) : MedianTimeNondecreasing path := by
  induction path with
  | nil => trivial
  | cons e rest ih =>
    match rest, h, ih with
    | [], _, _ => trivial
    | f :: rest, h, ih => exact ⟨GetMedianTimePast_le_cons h.1, ih h.2⟩

/-! ## The checker -/

/-- An `AbstractThresholdConditionChecker` at fixed consensus parameters: the values of
its virtual methods. `Period()` is positive on every network; the code takes `%` by it. -/
structure ThresholdConditionChecker where
  Condition : BlockIndexEntry → Bool
  BeginTime : Int
  EndTime : Int
  Period : Nat
  Threshold : Int
  Period_pos : 0 < Period

/-- `Consensus::BIP9Deployment`. -/
structure BIP9Deployment where
  bit : Nat
  nStartTime : Int
  nTimeout : Int
  deriving DecidableEq, Repr

/-- `BIP9Deployment::ALWAYS_ACTIVE`. -/
def BIP9Deployment.ALWAYS_ACTIVE : Int := -1

/-- `BIP9Deployment::NO_TIMEOUT`, the largest `int64_t`. -/
def BIP9Deployment.NO_TIMEOUT : Int := 2 ^ 63 - 1

/-- The versionbits fields of `Consensus::Params`. -/
structure VersionBitsParams where
  nRuleChangeActivationThreshold : Int
  nMinerConfirmationWindow : Nat
  vDeployments : Deployment → BIP9Deployment
  nMinerConfirmationWindow_pos : 0 < nMinerConfirmationWindow

/-- `VERSIONBITS_TOP_BITS`. -/
def VERSIONBITS_TOP_BITS : UInt32 := 0x20000000

/-- `VERSIONBITS_TOP_MASK`. -/
def VERSIONBITS_TOP_MASK : UInt32 := 0xE0000000

/-- `VersionBitsConditionChecker(id)`. Past `powForkTime` every block signals by its bit
alone; before it the top bits must read `001` as in BIP9. -/
def VersionBitsConditionChecker (params : ConsensusParams) (vb : VersionBitsParams)
    (id : Deployment) : ThresholdConditionChecker where
  Condition pindex :=
    let mask := (1 : UInt32) <<< (vb.vDeployments id).bit.toUInt32
    let nVersion := UInt32.ofInt pindex.header.nVersion
    if pindex.header.nTime > params.powForkTime then (nVersion &&& mask) != 0
    else (nVersion &&& VERSIONBITS_TOP_MASK) == VERSIONBITS_TOP_BITS && (nVersion &&& mask) != 0
  BeginTime := (vb.vDeployments id).nStartTime
  EndTime := (vb.vDeployments id).nTimeout
  Period := vb.nMinerConfirmationWindow
  Threshold := vb.nRuleChangeActivationThreshold
  Period_pos := vb.nMinerConfirmationWindow_pos

/-- `ThresholdConditionCache`, keyed by the paths of the indexes. -/
abbrev ThresholdConditionCache := List BlockIndexEntry → Option ThresholdState

/-! ## `GetStateFor` -/

section GetStateFor

variable (checker : ThresholdConditionChecker)

/-- The counting loop: the blocks among the `nPeriod` ending at `pindexPrev` that signal. -/
def countCondition (pindexPrev : List BlockIndexEntry) : Nat :=
  ((pindexPrev.take checker.Period).filter checker.Condition).length

/-- The `switch` of the forward walk: the state of the period after `pindexPrev`, from
the state of the period `pindexPrev` ends. -/
def nextState (state : ThresholdState) (pindexPrev : List BlockIndexEntry) : ThresholdState :=
  match state with
  | THRESHOLD_DEFINED =>
    if GetMedianTimePast pindexPrev ≥ checker.EndTime then THRESHOLD_FAILED
    else if GetMedianTimePast pindexPrev ≥ checker.BeginTime then THRESHOLD_STARTED
    else THRESHOLD_DEFINED
  | THRESHOLD_STARTED =>
    if GetMedianTimePast pindexPrev ≥ checker.EndTime then THRESHOLD_FAILED
    else if (countCondition checker pindexPrev : Int) ≥ checker.Threshold then THRESHOLD_LOCKED_IN
    else THRESHOLD_STARTED
  | THRESHOLD_LOCKED_IN => THRESHOLD_ACTIVE
  | THRESHOLD_FAILED => THRESHOLD_FAILED
  | THRESHOLD_ACTIVE => THRESHOLD_ACTIVE

/-- `pindexPrev->GetAncestor(pindexPrev->nHeight - ((pindexPrev->nHeight + 1) % nPeriod))`:
the last block of the period before the block after `pindexPrev`. -/
def periodEnd (pindexPrev : List BlockIndexEntry) : List BlockIndexEntry :=
  if pindexPrev = [] then []
  else GetAncestor pindexPrev
    (pathHeight pindexPrev - (pathHeight pindexPrev + 1) % (checker.Period : Int))

/-- The backward walk: the blocks to compute (`vToCompute`, its back first), the block
whose state is known and the cache with the state the walk set there. -/
def walkBackward (cache : ThresholdConditionCache) (vToCompute : List (List BlockIndexEntry))
    (pindexPrev : List BlockIndexEntry) :
    List (List BlockIndexEntry) × List BlockIndexEntry × ThresholdConditionCache :=
  if (cache pindexPrev).isSome then (vToCompute, pindexPrev, cache)
  else if pindexPrev = [] then
    -- the genesis block is by definition defined
    (vToCompute, pindexPrev, FunMap.insert cache pindexPrev THRESHOLD_DEFINED)
  else if GetMedianTimePast pindexPrev < checker.BeginTime then
    (vToCompute, pindexPrev, FunMap.insert cache pindexPrev THRESHOLD_DEFINED)
  else
    walkBackward cache (pindexPrev :: vToCompute)
      (GetAncestor pindexPrev (pathHeight pindexPrev - checker.Period))
termination_by pindexPrev.length
decreasing_by
  rw [GetAncestor_sub, List.length_drop]
  have hpos := checker.Period_pos
  have hne : pindexPrev.length ≠ 0 := by simpa
  omega

/-- The forward walk: pop `vToCompute` from its back, compute and cache each state. -/
def walkForward (state : ThresholdState) (cache : ThresholdConditionCache) :
    List (List BlockIndexEntry) → ThresholdState × ThresholdConditionCache
  | [] => (state, cache)
  | pindexPrev :: vToCompute =>
    let stateNext := nextState checker state pindexPrev
    walkForward stateNext (FunMap.insert cache pindexPrev stateNext) vToCompute

/-- `GetStateFor(pindexPrev, params, cache)`, with the cache it leaves. -/
def GetStateFor (pindexPrev : List BlockIndexEntry) (cache : ThresholdConditionCache) :
    ThresholdState × ThresholdConditionCache :=
  if checker.BeginTime = BIP9Deployment.ALWAYS_ACTIVE then (THRESHOLD_ACTIVE, cache)
  else
    let (vToCompute, pindexPrev, cache) := walkBackward checker cache [] (periodEnd checker pindexPrev)
    -- `assert(cache.count(pindexPrev))`: the walk stops at a cached block or caches it
    let (state, cache) := FunMap.subscript cache pindexPrev THRESHOLD_DEFINED
    walkForward checker state cache vToCompute

/-- The uncached BIP9 recursion: the state of the period after the period end
`pindexPrev`, from the state of the period before. -/
def stateAfter (pindexPrev : List BlockIndexEntry) : ThresholdState :=
  if pindexPrev = [] then THRESHOLD_DEFINED
  else nextState checker (stateAfter (pindexPrev.drop checker.Period)) pindexPrev
termination_by pindexPrev.length
decreasing_by
  have hpos := checker.Period_pos
  have hne : pindexPrev.length ≠ 0 := by simpa
  simp only [List.length_drop]
  omega

/-- The state BIP9 gives the block after `pindexPrev`. -/
def BIP9State (pindexPrev : List BlockIndexEntry) : ThresholdState :=
  if checker.BeginTime = BIP9Deployment.ALWAYS_ACTIVE then THRESHOLD_ACTIVE
  else stateAfter checker (pindexPrev.drop (pindexPrev.length % checker.Period))

@[simp] theorem stateAfter_nil : stateAfter checker [] = THRESHOLD_DEFINED := by
  rw [stateAfter, if_pos rfl]

theorem stateAfter_of_ne_nil {pindexPrev : List BlockIndexEntry} (h : pindexPrev ≠ []) :
    stateAfter checker pindexPrev =
      nextState checker (stateAfter checker (pindexPrev.drop checker.Period)) pindexPrev := by
  rw [stateAfter, if_neg h]

theorem periodEnd_eq (pindexPrev : List BlockIndexEntry) :
    periodEnd checker pindexPrev = pindexPrev.drop (pindexPrev.length % checker.Period) := by
  unfold periodEnd
  split
  · simp_all
  · have hmod : (pathHeight pindexPrev + 1) % (checker.Period : Int) =
        ((pindexPrev.length % checker.Period : Nat) : Int) := by
      simp only [pathHeight, sub_add_cancel]
      exact (Int.natCast_mod _ _).symm
    rw [hmod, GetAncestor_sub]

/-- Before the start time, and so before the timeout, a period stays defined. -/
theorem nextState_defined_of_lt (htime : checker.BeginTime ≤ checker.EndTime)
    {pindexPrev : List BlockIndexEntry} (h : GetMedianTimePast pindexPrev < checker.BeginTime) :
    nextState checker THRESHOLD_DEFINED pindexPrev = THRESHOLD_DEFINED := by
  simp only [nextState]
  rw [if_neg (by omega), if_neg (by omega)]

/-- The shortcut of the backward walk is sound: when the median time past never
decreases, every period end before the start time is still defined. -/
theorem stateAfter_of_lt_BeginTime (htime : checker.BeginTime ≤ checker.EndTime)
    {pindexPrev : List BlockIndexEntry} (hmono : MedianTimeNondecreasing pindexPrev)
    (h : GetMedianTimePast pindexPrev < checker.BeginTime) :
    stateAfter checker pindexPrev = THRESHOLD_DEFINED := by
  induction pindexPrev using stateAfter.induct checker with
  | case1 => exact stateAfter_nil checker
  | case2 pindexPrev hne ih =>
    rw [stateAfter_of_ne_nil checker hne]
    -- the period end before has no later median time past
    have hbefore : stateAfter checker (pindexPrev.drop checker.Period) = THRESHOLD_DEFINED := by
      by_cases hnil : pindexPrev.drop checker.Period = []
      · rw [hnil, stateAfter_nil]
      · exact ih (hmono.drop _) (lt_of_le_of_lt (hmono.le_drop hnil) h)
    rw [hbefore, nextState_defined_of_lt checker htime h]

/-- `vToCompute` from its back: each block is a non-null period end `nPeriod` blocks
after the one before it, the first after `stop`. -/
def PeriodChain (stop : List BlockIndexEntry) : List (List BlockIndexEntry) → Prop
  | [] => True
  | pindexPrev :: vToCompute =>
    pindexPrev ≠ [] ∧ pindexPrev.drop checker.Period = stop ∧ PeriodChain pindexPrev vToCompute

/-- The forward walk from the state of `stop` computes the states of the chain, caches
each and ends at the state of the chain's last block. -/
theorem walkForward_spec {cache : ThresholdConditionCache}
    (hcache : FunMap.Agrees (stateAfter checker) cache) {stop : List BlockIndexEntry}
    {vToCompute : List (List BlockIndexEntry)} (hchain : PeriodChain checker stop vToCompute) :
    (walkForward checker (stateAfter checker stop) cache vToCompute).1 =
        stateAfter checker (vToCompute.getLastD stop) ∧
      FunMap.Agrees (stateAfter checker)
        (walkForward checker (stateAfter checker stop) cache vToCompute).2 := by
  induction vToCompute generalizing cache stop with
  | nil => exact ⟨rfl, hcache⟩
  | cons pindexPrev vToCompute ih =>
    obtain ⟨hne, hdrop, hrest⟩ := hchain
    have hnext : nextState checker (stateAfter checker stop) pindexPrev =
        stateAfter checker pindexPrev := by
      rw [stateAfter_of_ne_nil checker hne, hdrop]
    simp only [walkForward, hnext, List.getLastD_cons]
    exact ih (hcache.insert pindexPrev) hrest

/-- What the backward walk leaves: a cache that still agrees with the recursion and
holds the state of the block it stopped at, and a chain from there to the block it
started from. -/
theorem walkBackward_spec (htime : checker.BeginTime ≤ checker.EndTime)
    {cache : ThresholdConditionCache} (hcache : FunMap.Agrees (stateAfter checker) cache)
    {vToCompute : List (List BlockIndexEntry)} {pindexPrev : List BlockIndexEntry}
    (hmono : MedianTimeNondecreasing pindexPrev) (hchain : PeriodChain checker pindexPrev vToCompute) :
    let r := walkBackward checker cache vToCompute pindexPrev
    FunMap.Agrees (stateAfter checker) r.2.2 ∧ (r.2.2 r.2.1).isSome ∧
      PeriodChain checker r.2.1 r.1 ∧ r.1.getLastD r.2.1 = vToCompute.getLastD pindexPrev := by
  induction vToCompute, pindexPrev using walkBackward.induct checker cache with
  | case1 vToCompute pindexPrev hsome =>
    rw [walkBackward, if_pos hsome]
    exact ⟨hcache, hsome, hchain, rfl⟩
  | case2 vToCompute hnone =>
    -- a null pointer: the state before the first period
    rw [walkBackward, if_neg hnone, if_pos rfl]
    refine ⟨?_, by simp, hchain, rfl⟩
    rw [← stateAfter_nil checker]
    exact hcache.insert []
  | case3 vToCompute pindexPrev hnone hnil hlt =>
    -- the shortcut before the start time
    rw [walkBackward, if_neg hnone, if_neg hnil, if_pos hlt]
    have hdef : THRESHOLD_DEFINED = stateAfter checker pindexPrev :=
      (stateAfter_of_lt_BeginTime checker htime hmono hlt).symm
    refine ⟨?_, by simp, hchain, rfl⟩
    rw [hdef]
    exact hcache.insert pindexPrev
  | case4 vToCompute pindexPrev hnone hnil hge ih =>
    rw [walkBackward, if_neg hnone, if_neg hnil, if_neg hge]
    rw [GetAncestor_sub] at ih ⊢
    have hstep := ih (hmono.drop _) ⟨hnil, rfl, hchain⟩
    refine ⟨hstep.1, hstep.2.1, hstep.2.2.1, ?_⟩
    rw [hstep.2.2.2, List.getLastD_cons]

/-- From a cache that agrees with the recursion, `GetStateFor` returns the BIP9 state and
leaves a cache that still agrees, provided the median time past never decreases along
`pindexPrev`'s chain and the start time is not after the timeout. -/
theorem GetStateFor_spec (htime : checker.BeginTime ≤ checker.EndTime)
    {cache : ThresholdConditionCache} (hcache : FunMap.Agrees (stateAfter checker) cache)
    {pindexPrev : List BlockIndexEntry} (hmono : MedianTimeNondecreasing pindexPrev) :
    (GetStateFor checker pindexPrev cache).1 = BIP9State checker pindexPrev ∧
      FunMap.Agrees (stateAfter checker) (GetStateFor checker pindexPrev cache).2 := by
  unfold GetStateFor BIP9State
  split
  · exact ⟨rfl, hcache⟩
  · have hback := @walkBackward_spec checker htime cache hcache [] _
      (hmono.drop (pindexPrev.length % checker.Period)) trivial
    rw [← periodEnd_eq] at hback ⊢
    obtain ⟨hagree, hsome, hchain, hlast⟩ := hback
    generalize walkBackward checker cache [] (periodEnd checker pindexPrev) = r at hagree hsome hchain hlast
    obtain ⟨vToCompute, stop, cache'⟩ := r
    simp only at hagree hsome hchain hlast ⊢
    rw [hagree.subscript hsome]
    have hfwd := walkForward_spec checker hagree hchain
    rw [hlast] at hfwd
    exact hfwd

/-- The forward walk starts from the first period's state: an empty cache and a first
period end before the start time but at the timeout give `THRESHOLD_DEFINED` from the
shortcut, where the recursion has the period failed. -/
theorem GetStateFor_shortcut_of_first_period {pindexPrev : List BlockIndexEntry}
    (hlen : pindexPrev.length = checker.Period)
    (hbegin : checker.BeginTime ≠ BIP9Deployment.ALWAYS_ACTIVE)
    (hlt : GetMedianTimePast pindexPrev < checker.BeginTime)
    (hend : checker.EndTime ≤ GetMedianTimePast pindexPrev) :
    (GetStateFor checker pindexPrev (fun _ => none)).1 = THRESHOLD_DEFINED ∧
      BIP9State checker pindexPrev = THRESHOLD_FAILED := by
  have hpos := checker.Period_pos
  have hne : pindexPrev ≠ [] := by
    intro h
    rw [h] at hlen
    simp at hlen
    omega
  have hmod : pindexPrev.length % checker.Period = 0 := by simp [hlen]
  have hend' : periodEnd checker pindexPrev = pindexPrev := by simp [periodEnd_eq, hmod]
  have hback : walkBackward checker (fun _ => none) [] pindexPrev =
      ([], pindexPrev, FunMap.insert (fun _ => none) pindexPrev THRESHOLD_DEFINED) := by
    rw [walkBackward, if_neg (by simp), if_neg hne, if_pos hlt]
  have hbefore : pindexPrev.drop checker.Period = [] := List.drop_eq_nil_of_le (by omega)
  constructor
  · simp only [GetStateFor, if_neg hbegin, hend', hback]
    rw [FunMap.subscript_of_some _ (FunMap.insert_same _ _ _)]
    rfl
  · rw [BIP9State, if_neg hbegin, hmod, List.drop_zero, stateAfter_of_ne_nil checker hne,
      hbefore, stateAfter_nil]
    simp only [nextState]
    rw [if_pos hend]

/-- A deployment that is active or has failed stays so: the recursion `m` periods later. -/
theorem stateAfter_of_drop_terminal {s : ThresholdState}
    (hs : s = THRESHOLD_ACTIVE ∨ s = THRESHOLD_FAILED) (m : Nat) {pindexPrev : List BlockIndexEntry}
    (h : stateAfter checker (pindexPrev.drop (checker.Period * m)) = s) :
    stateAfter checker pindexPrev = s := by
  induction m generalizing pindexPrev with
  | zero => simpa using h
  | succ m ih =>
    have hbefore : stateAfter checker (pindexPrev.drop checker.Period) = s := by
      apply ih
      rw [List.drop_drop, show checker.Period + checker.Period * m = checker.Period * (m + 1) by ring]
      exact h
    by_cases hnil : pindexPrev = []
    · -- no block: the state is `THRESHOLD_DEFINED`, not terminal
      subst hnil
      rcases hs with rfl | rfl <;> simp at h
    · rw [stateAfter_of_ne_nil checker hnil, hbefore]
      rcases hs with rfl | rfl <;> rfl

/-- Blocks of one period have one state: their period ends are the same block. -/
theorem BIP9State_of_same_period {pindexPrev pindexPrev' : List BlockIndexEntry}
    (hsuffix : pindexPrev' <:+ pindexPrev)
    (hperiod : pindexPrev'.length / checker.Period = pindexPrev.length / checker.Period) :
    BIP9State checker pindexPrev' = BIP9State checker pindexPrev := by
  rw [List.suffix_iff_eq_drop] at hsuffix
  have hle : pindexPrev'.length ≤ pindexPrev.length := by
    rw [hsuffix, List.length_drop]
    omega
  have h1 := Nat.div_add_mod pindexPrev.length checker.Period
  have h2 := Nat.div_add_mod pindexPrev'.length checker.Period
  rw [← hperiod] at h1
  -- the period end of the later block lies as far back from it as the earlier one's
  have hdrop : pindexPrev'.drop (pindexPrev'.length % checker.Period) =
      pindexPrev.drop (pindexPrev.length % checker.Period) := by
    rw [hsuffix, List.drop_drop, ← hsuffix]
    congr 1
    omega
  simp only [BIP9State, hdrop]

/-- Once a block's successor is active or failed, so is every descendant's successor,
with the same state. -/
theorem BIP9State_of_terminal {pindexPrev pindexPrev' : List BlockIndexEntry}
    (hsuffix : pindexPrev' <:+ pindexPrev)
    (hs : BIP9State checker pindexPrev' = THRESHOLD_ACTIVE ∨
      BIP9State checker pindexPrev' = THRESHOLD_FAILED) :
    BIP9State checker pindexPrev = BIP9State checker pindexPrev' := by
  unfold BIP9State at hs ⊢
  by_cases hbegin : checker.BeginTime = BIP9Deployment.ALWAYS_ACTIVE
  · simp only [if_pos hbegin]
  · simp only [if_neg hbegin] at hs ⊢
    rw [List.suffix_iff_eq_drop] at hsuffix
    have hle : pindexPrev'.length ≤ pindexPrev.length := by
      rw [hsuffix, List.length_drop]
      omega
    have h1 := Nat.div_add_mod pindexPrev.length checker.Period
    have h2 := Nat.div_add_mod pindexPrev'.length checker.Period
    have hdiv : pindexPrev'.length / checker.Period ≤ pindexPrev.length / checker.Period :=
      Nat.div_le_div_right hle
    have hmul : checker.Period * (pindexPrev'.length / checker.Period) ≤
        checker.Period * (pindexPrev.length / checker.Period) := Nat.mul_le_mul_left _ hdiv
    -- the earlier period end lies whole periods behind the later one
    have hdrop : pindexPrev'.drop (pindexPrev'.length % checker.Period) =
        (pindexPrev.drop (pindexPrev.length % checker.Period)).drop
          (checker.Period * (pindexPrev.length / checker.Period - pindexPrev'.length / checker.Period)) := by
      rw [hsuffix, List.drop_drop, List.drop_drop, ← hsuffix, Nat.mul_sub]
      congr 1
      omega
    rw [hdrop] at hs ⊢
    exact stateAfter_of_drop_terminal checker hs _ rfl

end GetStateFor

/-! ## `VersionBitsState` -/

/-- `VersionBitsCache`: one cache per deployment. -/
abbrev VersionBitsCache := Deployment → ThresholdConditionCache

/-- `VersionBitsState(pindexPrev, params, pos, cache)`, with the cache it leaves. -/
def VersionBitsState (params : ConsensusParams) (vb : VersionBitsParams)
    (pindexPrev : Option CBlockIndex) (pos : Deployment) (cache : VersionBitsCache) :
    ThresholdState × VersionBitsCache :=
  let (state, caches) :=
    GetStateFor (VersionBitsConditionChecker params vb pos) (pathOf pindexPrev) (cache pos)
  (state, Function.update cache pos caches)

/-- The cache after the calls of `VersionBitsState`, in order, from `VersionBitsCache::Clear`. -/
def versionBitsCacheAfter (params : ConsensusParams) (vb : VersionBitsParams)
    (calls : List (Option CBlockIndex × Deployment)) : VersionBitsCache :=
  calls.foldl (fun cache call => (VersionBitsState params vb call.1 call.2 cache).2) fun _ _ => none

/-! ## The networks -/

/-- The versionbits fields of `CMainParams`. -/
def mainVersionBitsParams : VersionBitsParams where
  nRuleChangeActivationThreshold := 6048
  nMinerConfirmationWindow := 8064
  vDeployments
    | .DEPLOYMENT_HIVE => ⟨7, BIP9Deployment.ALWAYS_ACTIVE, BIP9Deployment.NO_TIMEOUT⟩
    | .DEPLOYMENT_HIVE_1_1 => ⟨9, BIP9Deployment.ALWAYS_ACTIVE, BIP9Deployment.NO_TIMEOUT⟩
    | .DEPLOYMENT_MINOTAURX => ⟨7, BIP9Deployment.ALWAYS_ACTIVE, BIP9Deployment.NO_TIMEOUT⟩
    | .DEPLOYMENT_RIALTO => ⟨9, 2000000000, 2000000000 + 31536000⟩
  nMinerConfirmationWindow_pos := by decide

/-- The versionbits fields of `CRegTestParams` after `-vbparams=pos:nStartTime:nTimeout`.
The constructor sets none of the Cascoin deployments: they, and `pos`'s bit, hold the
indeterminate values `unset`. -/
def regTestVersionBitsParams (unset : Deployment → BIP9Deployment) (pos : Deployment)
    (nStartTime nTimeout : Int) : VersionBitsParams where
  nRuleChangeActivationThreshold := 108
  nMinerConfirmationWindow := 144
  vDeployments d := if d = pos then { unset d with nStartTime, nTimeout } else unset d
  nMinerConfirmationWindow_pos := by decide

/-- The versionbits fields of `CTestNetParams`. -/
def testNetVersionBitsParams : VersionBitsParams where
  nRuleChangeActivationThreshold := 15
  nMinerConfirmationWindow := 20
  vDeployments
    | .DEPLOYMENT_HIVE => ⟨7, BIP9Deployment.ALWAYS_ACTIVE, BIP9Deployment.NO_TIMEOUT⟩
    | .DEPLOYMENT_HIVE_1_1 => ⟨9, BIP9Deployment.ALWAYS_ACTIVE, BIP9Deployment.NO_TIMEOUT⟩
    | .DEPLOYMENT_MINOTAURX => ⟨2, BIP9Deployment.ALWAYS_ACTIVE, BIP9Deployment.NO_TIMEOUT⟩
    | .DEPLOYMENT_RIALTO => ⟨8, 2000000000, BIP9Deployment.NO_TIMEOUT⟩
  nMinerConfirmationWindow_pos := by decide

/-- The node's `IsHiveEnabled` and the other deployment checks,
`VersionBitsState(pindexPrev, params, pos, versionbitscache) == THRESHOLD_ACTIVE`, from the
cache `VersionBitsCache::Clear` leaves; by `VersionBitsState_eq_BIP9State` the caches that
later calls leave give the same state. -/
def ChainEnv.withVersionBits (env : ChainEnv) (vb : VersionBitsParams) : ChainEnv :=
  { env with
    deploymentActive := fun d pindexPrev =>
      (VersionBitsState env.params vb pindexPrev d fun _ _ => none).1 == THRESHOLD_ACTIVE }

/-- A chain of `n + 1` blocks in which the block at height `h` has the time `h + 1`. -/
def risingTimeChain : Nat → CBlockIndex
  | 0 => CBlockIndex.genesis Uint256.zero ⟨1, Uint256.zero, Uint256.zero, 1, 0, 0⟩ true 1
  | n + 1 =>
    let p := risingTimeChain n
    p.extend Uint256.zero ⟨1, p.hash, Uint256.zero, (n + 2).toUInt32, 0, 0⟩ true 1 rfl

/-- A chain of `n + 1` blocks of version `nVersion` in which the block at height `h` has the
time `nTime0 + h`. -/
def versionChain (nVersion : Int) (nTime0 : Nat) : Nat → CBlockIndex
  | 0 => CBlockIndex.genesis Uint256.zero ⟨nVersion, Uint256.zero, Uint256.zero, nTime0.toUInt32, 0, 0⟩ true 1
  | n + 1 =>
    let p := versionChain nVersion nTime0 n
    p.extend Uint256.zero ⟨nVersion, p.hash, Uint256.zero, (nTime0 + n + 1).toUInt32, 0, 0⟩ true 1 rfl

section Runs

variable (params : ConsensusParams) (vb : VersionBitsParams)

/-- Every run of calls leaves each deployment's cache agreeing with the recursion, when
the median time past never decreases along the chains it visits. -/
theorem versionBitsCacheAfter_agrees {pos : Deployment}
    (htime : (vb.vDeployments pos).nStartTime ≤ (vb.vDeployments pos).nTimeout)
    {calls : List (Option CBlockIndex × Deployment)}
    (hcalls : ∀ call ∈ calls, MedianTimeNondecreasing (pathOf call.1)) :
    FunMap.Agrees (stateAfter (VersionBitsConditionChecker params vb pos))
      (versionBitsCacheAfter params vb calls pos) := by
  let checker := VersionBitsConditionChecker params vb pos
  -- the invariant of the fold: `pos`'s cache agrees
  have hrun : ∀ (cache : VersionBitsCache) (calls : List (Option CBlockIndex × Deployment)),
      (∀ call ∈ calls, MedianTimeNondecreasing (pathOf call.1)) →
      FunMap.Agrees (stateAfter checker) (cache pos) →
      FunMap.Agrees (stateAfter checker)
        (calls.foldl (fun cache call => (VersionBitsState params vb call.1 call.2 cache).2) cache pos) := by
    intro cache calls hcalls hcache
    induction calls generalizing cache with
    | nil => exact hcache
    | cons call calls ih =>
      apply ih _ (fun c hc => hcalls c (by simp [hc]))
      simp only [VersionBitsState]
      by_cases hpos : pos = call.2
      · subst hpos
        rw [Function.update_self]
        exact (GetStateFor_spec checker htime hcache (hcalls call (by simp))).2
      · rw [Function.update_of_ne hpos]
        exact hcache
  exact hrun _ calls hcalls (FunMap.agrees_empty _)

/-- Where the node's `deploymentActive` is `VersionBitsState(...) == THRESHOLD_ACTIVE` at the
BIP9 state, a deployment active for the block after `pindexPrev'` stays active for the block
after every descendant `pindexPrev`. -/
theorem deploymentActive_of_suffix {env : ChainEnv}
    (henv : ∀ d pindexPrev, env.deploymentActive d pindexPrev =
      (BIP9State (VersionBitsConditionChecker env.params vb d) (pathOf pindexPrev) == THRESHOLD_ACTIVE))
    {d : Deployment} {pindexPrev pindexPrev' : Option CBlockIndex}
    (hsuffix : pathOf pindexPrev' <:+ pathOf pindexPrev) (h : env.deploymentActive d pindexPrev' = true) :
    env.deploymentActive d pindexPrev = true := by
  rw [henv, beq_iff_eq] at h ⊢
  rw [BIP9State_of_terminal _ hsuffix (Or.inl h), h]

end Runs

/-- The versionbits state machine. From every cache that earlier calls on any blocks left,
`VersionBitsState` returns the state of the uncached BIP9 recursion, as long as the median
time past never decreases along the chains it is called on and the deployment starts no
later than it times out. That state is one for all blocks of a period, and once active or
failed it stays so on every descendant, so `deploymentActive` is monotone along chains. -/
theorem VersionBitsState_eq_BIP9State (params : ConsensusParams) (vb : VersionBitsParams)
    (pos : Deployment) (htime : (vb.vDeployments pos).nStartTime ≤ (vb.vDeployments pos).nTimeout)
    (calls : List (Option CBlockIndex × Deployment))
    (hcalls : ∀ call ∈ calls, MedianTimeNondecreasing (pathOf call.1))
    (pindexPrev : Option CBlockIndex) (hmono : MedianTimeNondecreasing (pathOf pindexPrev)) :
    (VersionBitsState params vb pindexPrev pos (versionBitsCacheAfter params vb calls)).1 =
        BIP9State (VersionBitsConditionChecker params vb pos) (pathOf pindexPrev) ∧
      (∀ p q : Option CBlockIndex, pathOf q <:+ pathOf p →
        (pathOf q).length / vb.nMinerConfirmationWindow =
          (pathOf p).length / vb.nMinerConfirmationWindow →
        BIP9State (VersionBitsConditionChecker params vb pos) (pathOf q) =
          BIP9State (VersionBitsConditionChecker params vb pos) (pathOf p)) ∧
      (∀ p q : Option CBlockIndex, pathOf q <:+ pathOf p →
        (BIP9State (VersionBitsConditionChecker params vb pos) (pathOf q) = THRESHOLD_ACTIVE ∨
          BIP9State (VersionBitsConditionChecker params vb pos) (pathOf q) = THRESHOLD_FAILED) →
        BIP9State (VersionBitsConditionChecker params vb pos) (pathOf p) =
          BIP9State (VersionBitsConditionChecker params vb pos) (pathOf q)) ∧
      ∀ env : ChainEnv, env.params = params →
        (∀ d p, env.deploymentActive d p =
          (BIP9State (VersionBitsConditionChecker params vb d) (pathOf p) == THRESHOLD_ACTIVE)) →
        ∀ p q : Option CBlockIndex, pathOf q <:+ pathOf p →
          env.deploymentActive pos q = true → env.deploymentActive pos p = true := by
  let checker := VersionBitsConditionChecker params vb pos
  have hcache := versionBitsCacheAfter_agrees params vb htime hcalls
  refine ⟨(GetStateFor_spec checker htime hcache hmono).1, ?_, ?_, ?_⟩
  · intro p q hsuffix hperiod
    exact BIP9State_of_same_period checker hsuffix hperiod
  · intro p q hsuffix hs
    exact BIP9State_of_terminal checker hsuffix hs
  · intro env hparams henv p q hsuffix hq
    subst hparams
    exact deploymentActive_of_suffix vb henv hsuffix hq

/-- On regtest with `-vbparams=rialto:0:NO_TIMEOUT`, a call on a chain of 151 blocks, past the
first period of 144, and then a call on a chain of 301 blocks, whose walk stops at the period end
the first call cached. -/
theorem VersionBitsState_eq_BIP9State_on_regtest :
    let vb := regTestVersionBitsParams (fun _ => ⟨9, 0, 0⟩) .DEPLOYMENT_RIALTO 0
      BIP9Deployment.NO_TIMEOUT
    (vb.vDeployments .DEPLOYMENT_RIALTO).nStartTime ≤ (vb.vDeployments .DEPLOYMENT_RIALTO).nTimeout ∧
      MedianTimeNondecreasing (pathOf (some (risingTimeChain 150))) ∧
      MedianTimeNondecreasing (pathOf (some (risingTimeChain 300))) ∧
      (VersionBitsState (regTestParams mainParams) vb (some (risingTimeChain 300)) .DEPLOYMENT_RIALTO
          (versionBitsCacheAfter (regTestParams mainParams) vb
            [(some (risingTimeChain 150), .DEPLOYMENT_RIALTO)])).1 =
        BIP9State (VersionBitsConditionChecker (regTestParams mainParams) vb .DEPLOYMENT_RIALTO)
          (pathOf (some (risingTimeChain 300))) := by
  intro vb
  have htime : (vb.vDeployments .DEPLOYMENT_RIALTO).nStartTime ≤
      (vb.vDeployments .DEPLOYMENT_RIALTO).nTimeout := by decide
  have h150 : MedianTimeNondecreasing (pathOf (some (risingTimeChain 150))) := by decide +kernel
  have h300 : MedianTimeNondecreasing (pathOf (some (risingTimeChain 300))) := by decide +kernel
  refine ⟨htime, h150, h300, (VersionBitsState_eq_BIP9State (regTestParams mainParams) vb
    .DEPLOYMENT_RIALTO htime _ ?_ _ h300).1⟩
  simpa using h150

/-- On regtest with `-vbparams=rialto:1000:100`, a start time after the timeout, the first
period end of a chain that keeps the `time-too-old` rule is at the timeout but before the start:
`VersionBitsState` returns `THRESHOLD_DEFINED` from its shortcut, the recursion
`THRESHOLD_FAILED`. -/
theorem GetStateFor_shortcut_after_timeout :
    let vb := regTestVersionBitsParams (fun _ => ⟨9, 0, 0⟩) .DEPLOYMENT_RIALTO 1000 100
    let pindexPrev := some (risingTimeChain 143)
    BlockTimesAfterMedian (pathOf pindexPrev) ∧
      (VersionBitsState (regTestParams mainParams) vb pindexPrev .DEPLOYMENT_RIALTO
        fun _ _ => none).1 = THRESHOLD_DEFINED ∧
      BIP9State (VersionBitsConditionChecker (regTestParams mainParams) vb .DEPLOYMENT_RIALTO)
        (pathOf pindexPrev) = THRESHOLD_FAILED := by
  intro vb pindexPrev
  let checker := VersionBitsConditionChecker (regTestParams mainParams) vb .DEPLOYMENT_RIALTO
  -- the chain is 144 blocks long, one regtest period, with median time past 139
  have hlen : (pathOf pindexPrev).length = checker.Period := by decide +kernel
  have hmtp : GetMedianTimePast (pathOf pindexPrev) = 139 := by decide +kernel
  have hbegin : checker.BeginTime = 1000 := by decide
  have hend : checker.EndTime = 100 := by decide
  have hshort := GetStateFor_shortcut_of_first_period checker hlen (by rw [hbegin]; decide)
    (by rw [hbegin, hmtp]; decide) (by rw [hend, hmtp]; decide)
  exact ⟨by decide +kernel, hshort⟩

end Cascoin
