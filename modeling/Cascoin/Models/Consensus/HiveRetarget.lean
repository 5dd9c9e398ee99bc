import Cascoin.Models.Consensus.Pow
import Cascoin.Models.Chain.Node

/-!
# Hive difficulty: the Hive 1.0, 1.1 and 1.2 retargets

`GetNextHive11WorkRequired` and `GetNextHive12WorkRequired` (`pow.cpp`) walk
back from the tip while fewer than `hiveDifficultyWindow` hive blocks are
found, adding up the hive blocks' targets and counting the blocks walked. The
average target is then scaled by the number of blocks walked over the number a
hive block every `hiveBlockSpacingTarget` blocks would take, and capped at
`powLimitHive`. The two differ in the walk's extra condition (a height floor for
1.1, MinotaurX being enabled for 1.2) and in the bootstrap rule (no hive block
for 1.1, fewer than 24 for 1.2).

The sum, the product and the quotients are `arith_uint256` operations, so the
model reduces the sum and the product modulo `2 ^ 256`. The sum cannot wrap
when the collected targets are at most the limit (`hiveWalk_zero_spec`); the
product can. When it does not, the result is the exact formula
(`hiveRetarget_walk_exact`), which on the main network covers every walk of at
most 4096 blocks (`hiveRetarget_walk_exact_main`). On a chain where the last 36
hive blocks are spread over 4136 blocks it does wrap, and both retargets return
about 0.56 of the target the formula gives (`hiveRetarget_wraps_on_sparse_chain`).
Whatever the product, the cap keeps the target of the returned `nBits` at most
`powLimitHive` (`GetNextHiveWorkRequired_target_le`).

`GetNextHiveWorkRequired` takes Hive 1.2's retarget once MinotaurX is enabled and Hive 1.1's
once that is; before, Hive 1.0's moves the last hive block's target by an exponential moving
average. Its result is capped the same way, so the bee hash target of
`ChainEnv.withHiveRetarget`, which puts it in the place of the environment's, is at most the
limit too.
-/

namespace Cascoin

/-- The consensus fields of the hive retarget that `ConsensusParams` does not
carry. -/
structure HiveParams where
  /-- `UintToArith256(params.powLimitHive)`. -/
  powLimitHive : Uint256
  minHiveCheckBlock : Int
  /-- One block in this many should be hive mined. -/
  hiveBlockSpacingTarget : Int
  /-- How many hive blocks the average is taken over. -/
  hiveDifficultyWindow : Int
  /-- The snap speed of Hive 1.0's exponential moving average. -/
  hiveTargetAdjustAggression : Int

/-- The main network's hive limit `uint256S("000fffff…ff")` is a 256-bit number. -/
theorem powLimitHive_main_lt : 2 ^ 244 - 1 < 2 ^ 256 := by decide

/-- The main network's values: `powLimitHive` is
`uint256S("000fffff…ff")`, that is `2 ^ 244 - 1`. -/
def mainHiveParams : HiveParams where
  powLimitHive := ⟨2 ^ 244 - 1, powLimitHive_main_lt⟩
  minHiveCheckBlock := 0
  hiveBlockSpacingTarget := 2
  hiveDifficultyWindow := 36
  hiveTargetAdjustAggression := 30

/-! ## The walk -/

/-- The running state of the walk: `beeHashTarget`, `hiveBlockCount` and
`totalBlockCount`. -/
structure HiveWalk where
  beeHashTarget : Nat
  hiveBlockCount : Nat
  totalBlockCount : Nat
  deriving DecidableEq, Repr

/-- The target a hive block's `nBits` stands for, `arith_uint256().SetCompact(nBits)`. -/
def hiveTarget (header : CBlockHeader) : Nat := (SetCompact header.nBits).1

/-- One pass of the loop body over the block at `pindexLast`. -/
def HiveWalk.step (marker : UInt32) (acc : HiveWalk) (header : CBlockHeader) : HiveWalk :=
  if header.IsHiveMined marker then
    { beeHashTarget := (acc.beeHashTarget + hiveTarget header) % 2 ^ 256,
      hiveBlockCount := acc.hiveBlockCount + 1,
      totalBlockCount := acc.totalBlockCount + 1 }
  else { acc with totalBlockCount := acc.totalBlockCount + 1 }

/-- The loop `while (hiveBlockCount < window && pindexLast->pprev && cont(pindexLast))`. -/
def hiveWalk (marker : UInt32) (window : Int) (cont : CBlockIndex → Bool) (acc : HiveWalk)
    (pindexLast : CBlockIndex) : HiveWalk :=
  if (acc.hiveBlockCount : Int) < window ∧ cont pindexLast = true then
    match h : pindexLast.pprev with
    | some pprev => hiveWalk marker window cont (acc.step marker pindexLast.header) pprev
    | none => acc
  else acc
termination_by pindexLast.ancestors.length
decreasing_by exact CBlockIndex.ancestors_length_pprev h

/-- The targets of the hive blocks among the first `t` blocks from `p` back. -/
def walkedTargets (marker : UInt32) (t : Nat) (p : CBlockIndex) : List Nat :=
  ((p.path.take t).filter (·.header.IsHiveMined marker)).map (hiveTarget ·.header)

section Walk

variable {marker : UInt32} {window : Int} {cont : CBlockIndex → Bool}

/-- The running sum stays a 256-bit number. -/
theorem HiveWalk.step_beeHashTarget_lt {acc : HiveWalk} (hS : acc.beeHashTarget < 2 ^ 256)
    (header : CBlockHeader) : (acc.step marker header).beeHashTarget < 2 ^ 256 := by
  unfold HiveWalk.step
  split
  · exact Nat.mod_lt _ (Nat.two_pow_pos 256)
  · exact hS

/-- A block with a parent that passes the loop condition is one step. -/
theorem hiveWalk_of_pprev (acc : HiveWalk) {p q : CBlockIndex} (hq : p.pprev = some q)
    (hrun : (acc.hiveBlockCount : Int) < window ∧ cont p = true) :
    hiveWalk marker window cont acc p = hiveWalk marker window cont (acc.step marker p.header) q := by
  rw [hiveWalk, if_pos hrun]
  split
  · rename_i r hr
    rw [hq] at hr
    cases hr
    rfl
  · rename_i hnone
    rw [hq] at hnone
    cases hnone

/-- A block that fails the loop condition ends the walk. -/
theorem hiveWalk_of_not (acc : HiveWalk) {p : CBlockIndex}
    (hstop : ¬ ((acc.hiveBlockCount : Int) < window ∧ cont p = true)) :
    hiveWalk marker window cont acc p = acc := by
  rw [hiveWalk, if_neg hstop]

@[simp] theorem walkedTargets_zero (p : CBlockIndex) : walkedTargets marker 0 p = [] := by
  simp [walkedTargets]

/-- Walking one block more from `p` adds that block's target, if it is a hive block. -/
theorem walkedTargets_succ {p q : CBlockIndex} (hq : p.pprev = some q) (t : Nat) :
    walkedTargets marker (t + 1) p =
      (if p.header.IsHiveMined marker then [hiveTarget p.header] else []) ++
        walkedTargets marker t q := by
  have hpath : p.path = p.entry :: q.path := by
    rw [CBlockIndex.path_pprev hq]
    rfl
  rw [walkedTargets, walkedTargets, hpath, List.take_succ_cons, List.filter_cons]
  split <;> simp [CBlockIndex.header, *]

/-- The walk from `acc` adds up the targets of the hive blocks among the `t`
blocks it passes, modulo `2 ^ 256`, and counts them. -/
theorem hiveWalk_spec (acc : HiveWalk) (p : CBlockIndex) (hS : acc.beeHashTarget < 2 ^ 256) :
    ∃ t, hiveWalk marker window cont acc p =
      { beeHashTarget := (acc.beeHashTarget + (walkedTargets marker t p).sum) % 2 ^ 256,
        hiveBlockCount := acc.hiveBlockCount + (walkedTargets marker t p).length,
        totalBlockCount := acc.totalBlockCount + t } := by
  fun_induction hiveWalk marker window cont acc p with
  | case1 acc p hrun q hq ih =>
    obtain ⟨t, ht⟩ := ih (HiveWalk.step_beeHashTarget_lt hS _)
    refine ⟨t + 1, ?_⟩
    rw [ht, walkedTargets_succ hq]
    unfold HiveWalk.step
    -- the block is a hive block on both sides or on neither
    split
    · simp only [List.singleton_append, List.sum_cons, List.length_cons, Nat.mod_add_mod,
        HiveWalk.mk.injEq]
      refine ⟨by rw [Nat.add_assoc], by omega, by omega⟩
    · simp only [List.nil_append, HiveWalk.mk.injEq, true_and]
      omega
  | case2 acc p hrun hnone =>
    refine ⟨0, ?_⟩
    simp only [walkedTargets_zero, List.sum_nil, List.length_nil, Nat.add_zero,
      Nat.mod_eq_of_lt hS]
  | case3 acc p hstop =>
    refine ⟨0, ?_⟩
    simp only [walkedTargets_zero, List.sum_nil, List.length_nil, Nat.add_zero,
      Nat.mod_eq_of_lt hS]

/-- A step counts at most one more hive block. -/
theorem HiveWalk.step_hiveBlockCount_le (acc : HiveWalk) (header : CBlockHeader) :
    (acc.step marker header).hiveBlockCount ≤ acc.hiveBlockCount + 1 := by
  unfold HiveWalk.step
  split <;> simp

/-- The walk stops at the window: it never counts more hive blocks than that. -/
theorem hiveWalk_hiveBlockCount_le (acc : HiveWalk) (p : CBlockIndex)
    (hc : acc.hiveBlockCount ≤ window.toNat) :
    (hiveWalk marker window cont acc p).hiveBlockCount ≤ window.toNat := by
  fun_induction hiveWalk marker window cont acc p with
  | case1 acc p hrun q hq ih =>
    -- the loop only runs below the window
    have hstep : (acc.step marker p.header).hiveBlockCount ≤ acc.hiveBlockCount + 1 :=
      HiveWalk.step_hiveBlockCount_le acc p.header
    exact ih (by omega)
  | case2 acc p hrun hnone => exact hc
  | case3 acc p hstop => exact hc

/-- From the start, when every hive block on the path has a target of at most
`L` and a window's worth of such targets fits in 256 bits, the sum does not wrap:
the walk holds the exact sum and count of the hive targets among the blocks it
passed. -/
theorem hiveWalk_zero_spec (p : CBlockIndex) {L : Nat} (hL : window.toNat * L < 2 ^ 256)
    (hle : ∀ e ∈ p.path, e.header.IsHiveMined marker = true → hiveTarget e.header ≤ L) :
    ∃ t, hiveWalk marker window cont ⟨0, 0, 0⟩ p =
      ⟨(walkedTargets marker t p).sum, (walkedTargets marker t p).length, t⟩ := by
  obtain ⟨t, ht⟩ := @hiveWalk_spec marker window cont ⟨0, 0, 0⟩ p (Nat.two_pow_pos 256)
  refine ⟨t, ?_⟩
  have hcount := @hiveWalk_hiveBlockCount_le marker window cont ⟨0, 0, 0⟩ p (Nat.zero_le _)
  rw [ht] at hcount ⊢
  simp only [Nat.zero_add] at hcount ⊢
  -- every collected target is at most `L`, and there are at most a window's worth
  have hbound : ∀ x ∈ walkedTargets marker t p, x ≤ L := by
    intro x hx
    simp only [walkedTargets, List.mem_map, List.mem_filter] at hx
    obtain ⟨e, ⟨he, hhive⟩, rfl⟩ := hx
    exact hle e (List.mem_of_mem_take he) hhive
  have hsum : (walkedTargets marker t p).sum ≤ window.toNat * L :=
    calc (walkedTargets marker t p).sum
        ≤ (walkedTargets marker t p).length * L := by
          simpa using List.sum_le_card_nsmul _ L hbound
      _ ≤ window.toNat * L := Nat.mul_le_mul_right L hcount
  rw [Nat.mod_eq_of_lt (lt_of_le_of_lt hsum hL)]

end Walk

/-! ## The retarget -/

/-- The retarget after the walk, before `GetCompact`: the average target scaled
by `totalBlockCount / (hiveBlockCount * hiveBlockSpacingTarget)`, capped at the
limit. -/
def hiveRetarget {ε : Type} (hive : HiveParams) (acc : HiveWalk) : Checked ε Nat := do
  let bnPowLimit := hive.powLimitHive.toNat
  let beeHashTarget ← arithDiv acc.beeHashTarget acc.hiveBlockCount
  let targetTotalBlockCount : Int := acc.hiveBlockCount * hive.hiveBlockSpacingTarget
  -- `*= totalBlockCount` takes the `uint32_t` overload and wraps at 256 bits
  let beeHashTarget := beeHashTarget * (acc.totalBlockCount % 2 ^ 32) % 2 ^ 256
  -- `/= targetTotalBlockCount` converts the `int` through `uint64_t`
  let beeHashTarget ← arithDiv beeHashTarget (targetTotalBlockCount % 2 ^ 64).toNat
  return if beeHashTarget > bnPowLimit then bnPowLimit else beeHashTarget

/-- The walk of `GetNextHive11WorkRequired`: hive blocks from `minHiveCheckBlock` on. -/
def hive11Walk (env : ChainEnv) (hive : HiveParams) (pindexLast : CBlockIndex) : HiveWalk :=
  hiveWalk env.params.hiveNonceMarker hive.hiveDifficultyWindow
    (fun p => decide (p.nHeight ≥ hive.minHiveCheckBlock)) ⟨0, 0, 0⟩ pindexLast

/-- `GetNextHive11WorkRequired`: the limit while no hive block is found. -/
def GetNextHive11WorkRequired {ε : Type} (env : ChainEnv) (hive : HiveParams)
    (pindexLast : CBlockIndex) : Checked ε UInt32 := do
  let acc := hive11Walk env hive pindexLast
  if acc.hiveBlockCount = 0 then GetCompact hive.powLimitHive.toNat false
  else GetCompact (← hiveRetarget hive acc) false

/-- The walk of `GetNextHive12WorkRequired`: hive blocks while MinotaurX is enabled. -/
def hive12Walk (env : ChainEnv) (hive : HiveParams) (pindexLast : CBlockIndex) : HiveWalk :=
  hiveWalk env.params.hiveNonceMarker hive.hiveDifficultyWindow
    (fun p => IsMinotaurXEnabled env (some p)) ⟨0, 0, 0⟩ pindexLast

/-- `GetNextHive12WorkRequired`: the limit while fewer than 24 hive blocks are
found, to bootstrap the Labyrinth. -/
def GetNextHive12WorkRequired {ε : Type} (env : ChainEnv) (hive : HiveParams)
    (pindexLast : CBlockIndex) : Checked ε UInt32 := do
  let acc := hive12Walk env hive pindexLast
  if acc.hiveBlockCount < 24 then GetCompact hive.powLimitHive.toNat false
  else GetCompact (← hiveRetarget hive acc) false

/-! ## Hive 1.0, and the choice of retarget -/

/-- The walk of Hive 1.0: back from the tip to the last hive block, counting the PoW blocks
passed; `none` when the chain, or the heights from `minHiveCheckBlock` on, run out first. -/
def hive10Walk (marker : UInt32) (minHiveCheckBlock : Int) (numPowBlocks : Nat)
    (pindexLast : CBlockIndex) : Option (CBlockHeader × Nat) :=
  match h : pindexLast.pprev with
  | none => none
  | some pprev =>
    if pindexLast.nHeight < minHiveCheckBlock then none
    else if pindexLast.header.IsHiveMined marker then some (pindexLast.header, numPowBlocks)
    else hive10Walk marker minHiveCheckBlock (numPowBlocks + 1) pprev
termination_by pindexLast.ancestors.length
decreasing_by exact CBlockIndex.ancestors_length_pprev h

/-- Hive 1.0's retarget: the last hive block's target, moved by an exponential moving average
towards one hive block every `hiveBlockSpacingTarget` blocks and capped at the limit; the limit
when no hive block is found, and the impossible target 0 when the tip is a hive block. -/
def GetNextHive10WorkRequired {ε : Type} (env : ChainEnv) (hive : HiveParams)
    (pindexLast : CBlockIndex) : Checked ε UInt32 := do
  let bnPowLimit := hive.powLimitHive.toNat
  match hive10Walk env.params.hiveNonceMarker hive.minHiveCheckBlock 0 pindexLast with
  | none => GetCompact bnPowLimit false
  | some (block, numPowBlocks) =>
    if numPowBlocks = 0 then GetCompact 0 false
    else
      let interval := hive.hiveTargetAdjustAggression.tdiv hive.hiveBlockSpacingTarget
      -- `*=` takes the `uint32_t` overload, `/=` converts the `int` through `uint64_t`
      let factor := (interval - 1) * hive.hiveBlockSpacingTarget + numPowBlocks + numPowBlocks
      let beeHashTarget := hiveTarget block * (factor % 2 ^ 32).toNat % 2 ^ 256
      let beeHashTarget ← arithDiv beeHashTarget
        (((interval + 1) * hive.hiveBlockSpacingTarget) % 2 ^ 64).toNat
      GetCompact (if beeHashTarget > bnPowLimit then bnPowLimit else beeHashTarget) false

/-- `GetNextHiveWorkRequired`: Hive 1.2's retarget once MinotaurX is enabled, else Hive 1.1's
once it is enabled, else Hive 1.0's. -/
def GetNextHiveWorkRequired {ε : Type} (env : ChainEnv) (hive : HiveParams)
    (pindexLast : CBlockIndex) : Checked ε UInt32 :=
  if IsMinotaurXEnabled env (some pindexLast) then GetNextHive12WorkRequired env hive pindexLast
  else if IsHive11Enabled env (some pindexLast) then GetNextHive11WorkRequired env hive pindexLast
  else GetNextHive10WorkRequired env hive pindexLast

/-- The environment whose `GetNextHiveWorkRequired` is the one of this module, for the
network's hive parameters. A fault, a division by zero or a failed assertion of `GetCompact`,
reads as the word 0. -/
def ChainEnv.withHiveRetarget (env : ChainEnv) (hive : HiveParams) : ChainEnv :=
  { env with
    nextHiveWorkRequired := fun pindexLast =>
      match (GetNextHiveWorkRequired env hive pindexLast : Checked Unit UInt32) with
      | .ok nBits => nBits
      | .error _ => 0 }

section Retarget

variable {ε : Type} (hive : HiveParams)

/-- What the retarget computes: the product by `totalBlockCount` is taken modulo
`2 ^ 256` before the division. -/
theorem hiveRetarget_eq (acc : HiveWalk) (hc : 0 < acc.hiveBlockCount)
    (hspacing : 0 < hive.hiveBlockSpacingTarget)
    (hdiv : acc.hiveBlockCount * hive.hiveBlockSpacingTarget < 2 ^ 64) :
    (hiveRetarget hive acc : Checked ε Nat) =
      .ok (min hive.powLimitHive.toNat
        (acc.beeHashTarget / acc.hiveBlockCount * (acc.totalBlockCount % 2 ^ 32) % 2 ^ 256 /
          (acc.hiveBlockCount * hive.hiveBlockSpacingTarget.toNat))) := by
  have hpos : (acc.hiveBlockCount * hive.hiveBlockSpacingTarget : Int) % 2 ^ 64 =
      acc.hiveBlockCount * hive.hiveBlockSpacingTarget :=
    Int.emod_eq_of_lt (by positivity) hdiv
  have hconv : ((acc.hiveBlockCount * hive.hiveBlockSpacingTarget : Int) % 2 ^ 64).toNat =
      acc.hiveBlockCount * hive.hiveBlockSpacingTarget.toNat := by
    rw [hpos, Int.toNat_mul (by positivity) hspacing.le, Int.toNat_natCast]
  have hdiv0 : acc.hiveBlockCount * hive.hiveBlockSpacingTarget.toNat ≠ 0 := by
    apply Nat.mul_ne_zero <;> omega
  simp only [hiveRetarget, arithDiv, Nat.pos_iff_ne_zero.mp hc, if_false, hconv, hdiv0,
    Checked.ok_bind, pure, Except.pure]
  congr 1
  split <;> omega

/-- When the product does not wrap, the retarget is the exact formula. -/
theorem hiveRetarget_exact (acc : HiveWalk) (hc : 0 < acc.hiveBlockCount)
    (hspacing : 0 < hive.hiveBlockSpacingTarget)
    (hdiv : acc.hiveBlockCount * hive.hiveBlockSpacingTarget < 2 ^ 64)
    (ht : acc.totalBlockCount < 2 ^ 32)
    (hprod : acc.beeHashTarget / acc.hiveBlockCount * acc.totalBlockCount < 2 ^ 256) :
    (hiveRetarget hive acc : Checked ε Nat) =
      .ok (min hive.powLimitHive.toNat
        (acc.beeHashTarget / acc.hiveBlockCount * acc.totalBlockCount /
          (acc.hiveBlockCount * hive.hiveBlockSpacingTarget.toNat))) := by
  rw [hiveRetarget_eq hive acc hc hspacing hdiv, Nat.mod_eq_of_lt ht, Nat.mod_eq_of_lt hprod]

/-- After a walk from the start over hive targets at most `powLimitHive`, the
retarget is the exact formula whenever the product does not wrap: `S` is the
sum of the collected hive targets, `c` their number and `t` the number of
blocks walked. -/
theorem hiveRetarget_walk_exact {marker : UInt32} {cont : CBlockIndex → Bool} (p : CBlockIndex)
    (hL : hive.hiveDifficultyWindow.toNat * hive.powLimitHive.toNat < 2 ^ 256)
    (hle : ∀ e ∈ p.path, e.header.IsHiveMined marker = true →
      hiveTarget e.header ≤ hive.powLimitHive.toNat)
    (hspacing : 0 < hive.hiveBlockSpacingTarget)
    (hwindow : hive.hiveDifficultyWindow * hive.hiveBlockSpacingTarget < 2 ^ 64) :
    ∃ t, hiveWalk marker hive.hiveDifficultyWindow cont ⟨0, 0, 0⟩ p =
        ⟨(walkedTargets marker t p).sum, (walkedTargets marker t p).length, t⟩ ∧
      (0 < (walkedTargets marker t p).length → t < 2 ^ 32 →
        (walkedTargets marker t p).sum / (walkedTargets marker t p).length * t < 2 ^ 256 →
        (hiveRetarget hive
            ⟨(walkedTargets marker t p).sum, (walkedTargets marker t p).length, t⟩ :
            Checked ε Nat) =
          .ok (min hive.powLimitHive.toNat
            ((walkedTargets marker t p).sum / (walkedTargets marker t p).length * t /
              ((walkedTargets marker t p).length * hive.hiveBlockSpacingTarget.toNat)))) := by
  obtain ⟨t, ht⟩ := @hiveWalk_zero_spec marker hive.hiveDifficultyWindow cont p _ hL hle
  refine ⟨t, ht, fun hc htot hprod => ?_⟩
  -- at most a window's worth of hive blocks, so the divisor fits in 64 bits
  have hcount := @hiveWalk_hiveBlockCount_le marker hive.hiveDifficultyWindow cont ⟨0, 0, 0⟩ p
    (Nat.zero_le _)
  rw [ht] at hcount
  dsimp only at hcount
  have hdiv : ((walkedTargets marker t p).length : Int) * hive.hiveBlockSpacingTarget < 2 ^ 64 := by
    have hle' : ((walkedTargets marker t p).length : Int) ≤ hive.hiveDifficultyWindow := by omega
    calc ((walkedTargets marker t p).length : Int) * hive.hiveBlockSpacingTarget
        ≤ hive.hiveDifficultyWindow * hive.hiveBlockSpacingTarget :=
          Int.mul_le_mul_of_nonneg_right hle' hspacing.le
      _ < 2 ^ 64 := hwindow
  exact hiveRetarget_exact hive _ hc hspacing hdiv htot hprod

/-- On the main network the retargets are exact whenever they walk at most
4096 blocks: the average is below `2 ^ 244`, so its product by the count stays
below `2 ^ 256`. -/
theorem hiveRetarget_walk_exact_main {marker : UInt32} {cont : CBlockIndex → Bool}
    (p : CBlockIndex)
    (hle : ∀ e ∈ p.path, e.header.IsHiveMined marker = true →
      hiveTarget e.header ≤ mainHiveParams.powLimitHive.toNat) :
    ∃ t, hiveWalk marker mainHiveParams.hiveDifficultyWindow cont ⟨0, 0, 0⟩ p =
        ⟨(walkedTargets marker t p).sum, (walkedTargets marker t p).length, t⟩ ∧
      (0 < (walkedTargets marker t p).length → t ≤ 4096 →
        (hiveRetarget mainHiveParams
            ⟨(walkedTargets marker t p).sum, (walkedTargets marker t p).length, t⟩ :
            Checked ε Nat) =
          .ok (min mainHiveParams.powLimitHive.toNat
            ((walkedTargets marker t p).sum / (walkedTargets marker t p).length * t /
              ((walkedTargets marker t p).length * 2)))) := by
  obtain ⟨t, ht, hexact⟩ := @hiveRetarget_walk_exact ε mainHiveParams marker cont p
    (by decide) hle (by decide) (by decide)
  refine ⟨t, ht, fun hc htot => ?_⟩
  -- the sum is at most `c` limits, so the average is at most the limit
  have hbound : ∀ x ∈ walkedTargets marker t p, x ≤ 2 ^ 244 - 1 := by
    intro x hx
    simp only [walkedTargets, List.mem_map, List.mem_filter] at hx
    obtain ⟨e, ⟨he, hhive⟩, rfl⟩ := hx
    exact hle e (List.mem_of_mem_take he) hhive
  have hsum : (walkedTargets marker t p).sum ≤ (walkedTargets marker t p).length * (2 ^ 244 - 1) := by
    simpa using List.sum_le_card_nsmul _ _ hbound
  have havg : (walkedTargets marker t p).sum / (walkedTargets marker t p).length ≤ 2 ^ 244 - 1 :=
    (Nat.div_le_iff_le_mul_add_pred hc).mpr (by nlinarith)
  have hprod : (walkedTargets marker t p).sum / (walkedTargets marker t p).length * t < 2 ^ 256 :=
    calc _ ≤ (2 ^ 244 - 1) * 4096 := Nat.mul_le_mul havg htot
      _ < 2 ^ 256 := by decide
  exact hexact hc (by omega) hprod

/-- The retarget is capped at the limit, whatever the product. -/
theorem hiveRetarget_le {acc : HiveWalk} {t : Nat} (h : (hiveRetarget hive acc : Checked ε Nat) = .ok t) :
    t ≤ hive.powLimitHive.toNat := by
  obtain ⟨_, -, h⟩ := Checked.bind_eq_ok h
  obtain ⟨_, -, h⟩ := Checked.bind_eq_ok h
  cases h
  split <;> omega

/-- The target of the `nBits` Hive 1.1's or Hive 1.2's retarget returns is at most
`powLimitHive`. -/
theorem GetNextHive1xWorkRequired_target_le {env : ChainEnv} {pindexLast : CBlockIndex}
    {nBits : UInt32}
    (h : (GetNextHive11WorkRequired env hive pindexLast : Checked ε UInt32) = .ok nBits ∨
      (GetNextHive12WorkRequired env hive pindexLast : Checked ε UInt32) = .ok nBits) :
    (SetCompact nBits).1 ≤ hive.powLimitHive.toNat := by
  have hlimit := hive.powLimitHive.toNat_lt
  -- both return the limit, or the capped retarget, through `GetCompact`
  rcases h with h | h <;>
  · simp only [GetNextHive11WorkRequired, GetNextHive12WorkRequired] at h
    split at h
    · exact target_le_of_GetCompact le_rfl hlimit h
    · obtain ⟨t, ht, h⟩ := Checked.bind_eq_ok h
      exact target_le_of_GetCompact (hiveRetarget_le hive ht) hlimit h

/-- The target of the `nBits` Hive 1.0's retarget returns is at most `powLimitHive`. -/
theorem GetNextHive10WorkRequired_target_le {env : ChainEnv} {pindexLast : CBlockIndex}
    {nBits : UInt32}
    (h : (GetNextHive10WorkRequired env hive pindexLast : Checked ε UInt32) = .ok nBits) :
    (SetCompact nBits).1 ≤ hive.powLimitHive.toNat := by
  have hlimit := hive.powLimitHive.toNat_lt
  simp only [GetNextHive10WorkRequired] at h
  -- no hive block: the limit; the tip a hive block: 0; else the capped average
  split at h
  · exact target_le_of_GetCompact le_rfl hlimit h
  · split at h
    · exact target_le_of_GetCompact (Nat.zero_le _) hlimit h
    · obtain ⟨t, -, h⟩ := Checked.bind_eq_ok h
      refine target_le_of_GetCompact ?_ hlimit h
      split <;> omega

/-- The target of the `nBits` `GetNextHiveWorkRequired` returns is at most `powLimitHive`,
whichever retarget it takes. -/
theorem GetNextHiveWorkRequired_target_le {env : ChainEnv} {pindexLast : CBlockIndex}
    {nBits : UInt32}
    (h : (GetNextHiveWorkRequired env hive pindexLast : Checked ε UInt32) = .ok nBits) :
    (SetCompact nBits).1 ≤ hive.powLimitHive.toNat := by
  unfold GetNextHiveWorkRequired at h
  split at h
  · exact GetNextHive1xWorkRequired_target_le hive (.inr h)
  split at h
  · exact GetNextHive1xWorkRequired_target_le hive (.inl h)
  · exact GetNextHive10WorkRequired_target_le hive h

/-- With this module's retarget, the bee hash target `CheckHiveProof` and the miner read is at
most `powLimitHive`. -/
theorem ChainEnv.withHiveRetarget_target_le (env : ChainEnv) (pindexLast : CBlockIndex) :
    (SetCompact ((env.withHiveRetarget hive).nextHiveWorkRequired pindexLast)).1 ≤
      hive.powLimitHive.toNat := by
  simp only [ChainEnv.withHiveRetarget]
  split
  · rename_i nBits h
    exact GetNextHiveWorkRequired_target_le hive h
  · simp [SetCompact]

end Retarget

/-! ## A chain on which the product wraps -/

/-- The block on top of `p` with the given bits and nonce; it names `p` as its parent. -/
def pushHeader (p : CBlockIndex) (nBits nNonce : UInt32) : CBlockIndex :=
  p.extend Uint256.zero ⟨0x20000000, p.hash, Uint256.zero, 0, nBits, nNonce⟩ true 1 rfl

/-- `k` such blocks on top of `p`. -/
def pushHeaders (p : CBlockIndex) (nBits nNonce : UInt32) : Nat → CBlockIndex
  | 0 => p
  | k + 1 => pushHeader (pushHeaders p nBits nNonce k) nBits nNonce

theorem pprev_pushHeader (p : CBlockIndex) (nBits nNonce : UInt32) :
    (pushHeader p nBits nNonce).pprev = some p :=
  CBlockIndex.pprev_extend ..

@[simp] theorem header_pushHeader (p : CBlockIndex) (nBits nNonce : UInt32) :
    (pushHeader p nBits nNonce).header = ⟨0x20000000, p.hash, Uint256.zero, 0, nBits, nNonce⟩ :=
  rfl

section Pushed

variable {marker : UInt32} {window : Int} {cont : CBlockIndex → Bool}

/-- Walking down `k` blocks that are not hive mined only counts them. -/
theorem hiveWalk_pushHeaders_pow (p : CBlockIndex) (nBits : UInt32) {nNonce : UInt32}
    (hn : nNonce ≠ marker) (hcont : ∀ q, cont q = true) (acc : HiveWalk)
    (hc : (acc.hiveBlockCount : Int) < window) (k : Nat) :
    hiveWalk marker window cont acc (pushHeaders p nBits nNonce k) =
      hiveWalk marker window cont { acc with totalBlockCount := acc.totalBlockCount + k } p := by
  induction k generalizing acc with
  | zero => rfl
  | succ k ih =>
    rw [pushHeaders, hiveWalk_of_pprev acc (pprev_pushHeader ..) ⟨hc, hcont _⟩]
    have hstep : acc.step marker (pushHeader (pushHeaders p nBits nNonce k) nBits nNonce).header =
        { acc with totalBlockCount := acc.totalBlockCount + 1 } := by
      simp [HiveWalk.step, CBlockHeader.IsHiveMined, hn]
    rw [hstep, ih { acc with totalBlockCount := acc.totalBlockCount + 1 } hc, Nat.add_assoc,
      Nat.add_comm 1 k]

/-- Walking down `k` hive blocks, all below the window, adds their targets. -/
theorem hiveWalk_pushHeaders_hive (p : CBlockIndex) (nBits : UInt32) {nNonce : UInt32}
    (hn : nNonce = marker) (hcont : ∀ q, cont q = true) (k : Nat) (acc : HiveWalk)
    (hS : acc.beeHashTarget < 2 ^ 256) (hc : ((acc.hiveBlockCount + k : Nat) : Int) ≤ window) :
    hiveWalk marker window cont acc (pushHeaders p nBits nNonce k) =
      hiveWalk marker window cont
        { beeHashTarget := (acc.beeHashTarget + k * (SetCompact nBits).1) % 2 ^ 256,
          hiveBlockCount := acc.hiveBlockCount + k,
          totalBlockCount := acc.totalBlockCount + k } p := by
  induction k generalizing acc with
  | zero => simp only [pushHeaders, Nat.zero_mul, Nat.add_zero, Nat.mod_eq_of_lt hS]
  | succ k ih =>
    rw [pushHeaders, hiveWalk_of_pprev acc (pprev_pushHeader ..) ⟨by omega, hcont _⟩]
    have hstep : acc.step marker (pushHeader (pushHeaders p nBits nNonce k) nBits nNonce).header =
        { beeHashTarget := (acc.beeHashTarget + (SetCompact nBits).1) % 2 ^ 256,
          hiveBlockCount := acc.hiveBlockCount + 1,
          totalBlockCount := acc.totalBlockCount + 1 } := by
      simp [HiveWalk.step, CBlockHeader.IsHiveMined, hiveTarget, hn]
    rw [hstep, ih _ (Nat.mod_lt _ (Nat.two_pow_pos 256)) (by dsimp only; omega)]
    congr 1
    simp only [Nat.mod_add_mod, HiveWalk.mk.injEq]
    refine ⟨?_, by omega, by omega⟩
    rw [Nat.succ_mul, Nat.add_assoc, Nat.add_comm (SetCompact nBits).1]

end Pushed

/-- The genesis block of the sparse chain, a PoW block at the limit's bits. -/
def sparseGenesis : CBlockIndex :=
  CBlockIndex.genesis Uint256.zero ⟨0x20000000, Uint256.zero, Uint256.zero, 0, 0x1f0fffff, 0⟩ true 1

/-- A main network chain whose last 36 hive blocks are spread over 4136 blocks:
the genesis block, 36 hive blocks with the bits of `powLimitHive` (`0x1f0fffff`),
then 4100 PoW blocks. -/
def sparseHiveChain : CBlockIndex :=
  pushHeaders (pushHeaders sparseGenesis 0x1f0fffff 192 36) 0x1f0fffff 0 4100

/-- Any walk that the extra condition does not stop passes the 4100 PoW blocks
and the 36 hive blocks, and stops at the window. -/
theorem hiveWalk_sparseHiveChain {cont : CBlockIndex → Bool} (hcont : ∀ q, cont q = true) :
    hiveWalk 192 36 cont ⟨0, 0, 0⟩ sparseHiveChain =
      ⟨36 * (SetCompact 0x1f0fffff).1 % 2 ^ 256, 36, 4136⟩ := by
  rw [sparseHiveChain, hiveWalk_pushHeaders_pow _ _ (by decide) hcont _ (by decide),
    hiveWalk_pushHeaders_hive _ _ rfl hcont 36 _ (by decide) (by decide)]
  -- the window is full when the walk reaches the genesis block
  exact hiveWalk_of_not _ fun h => absurd h.1 (by decide)

/-- On the sparse chain both retargets collect the 36 hive targets, whose sum
fits in 256 bits, over 4136 blocks; the product by 4136 wraps, and the target
they compute before compact encoding differs from the exact formula
`min(powLimitHive, floor(floor(S / c) * t / (c * hiveBlockSpacingTarget)))`,
which is the limit itself. -/
theorem hiveRetarget_wraps_on_sparse_chain :
    hive12Walk (constEnv mainParams) mainHiveParams sparseHiveChain =
        hive11Walk (constEnv mainParams) mainHiveParams sparseHiveChain ∧
      hive11Walk (constEnv mainParams) mainHiveParams sparseHiveChain =
        ⟨36 * (SetCompact 0x1f0fffff).1, 36, 4136⟩ ∧
      (hiveRetarget mainHiveParams ⟨36 * (SetCompact 0x1f0fffff).1, 36, 4136⟩ :
          Checked Unit Nat) ≠
        .ok (min mainHiveParams.powLimitHive.toNat
          (36 * (SetCompact 0x1f0fffff).1 / 36 * 4136 /
            (36 * mainHiveParams.hiveBlockSpacingTarget.toNat))) := by
  have h11 : hive11Walk (constEnv mainParams) mainHiveParams sparseHiveChain =
      ⟨36 * (SetCompact 0x1f0fffff).1 % 2 ^ 256, 36, 4136⟩ :=
    hiveWalk_sparseHiveChain fun q => decide_eq_true q.nHeight_nonneg
  have h12 : hive12Walk (constEnv mainParams) mainHiveParams sparseHiveChain =
      ⟨36 * (SetCompact 0x1f0fffff).1 % 2 ^ 256, 36, 4136⟩ :=
    hiveWalk_sparseHiveChain fun _ => rfl
  -- the 36 targets at the limit's bits add up below `2 ^ 256`
  have hsum : 36 * (SetCompact 0x1f0fffff).1 % 2 ^ 256 = 36 * (SetCompact 0x1f0fffff).1 := by
    decide
  rw [hsum] at h11 h12
  refine ⟨h12.trans h11.symm, h11, ?_⟩
  rw [hiveRetarget_eq mainHiveParams _ (by decide) (by decide) (by decide)]
  decide

end Cascoin
