import Cascoin.Models.Consensus.Params

/-!
# Block subsidy and bee cost

`GetBlockSubsidy` halves `50 * COIN` every `nSubsidyHalvingInterval` blocks, with
special heights 0, 1 and the first post-fork block, a zero reward from the
total-money-supply height on, and an optional slow start. `GetBeeCost` prices a
bee at the subsidy over `beeCostFactor`, never below `minBeeCost`. Integer
division is C++'s, rounding toward zero.

A negative shift count (a height at or below `-nSubsidyHalvingInterval`, which
is no block's) is modelled as no shift.
-/

namespace Cascoin

/-- `GetBlockSubsidy(nHeight, consensusParams)`. -/
def GetBlockSubsidy (nHeight : Int) (params : ConsensusParams) : Int :=
  if nHeight = 0 then 0
  else if nHeight = 1 then 50 * COIN
  else if nHeight = params.lastScryptBlock + 1 then params.premineAmount * COIN
  else
    let halvings := nHeight.tdiv params.nSubsidyHalvingInterval
    if halvings ≥ 64 ∨ nHeight ≥ params.totalMoneySupplyHeight then 0
    else
      let nSubsidy := (50 * COIN) >>> halvings.toNat
      let blocksSinceFork := nHeight - params.lastScryptBlock
      if blocksSinceFork > 0 ∧ blocksSinceFork < params.slowStartBlocks then
        blocksSinceFork * nSubsidy.tdiv params.slowStartBlocks
      else nSubsidy

/-- `GetBeeCost(nHeight, consensusParams)`. -/
def GetBeeCost (nHeight : Int) (params : ConsensusParams) : Int :=
  if nHeight ≥ params.totalMoneySupplyHeight then params.minBeeCost
  else
    let beeCost := (GetBlockSubsidy nHeight params).tdiv params.beeCostFactor
    if beeCost ≤ params.minBeeCost then params.minBeeCost else beeCost

theorem minBeeCost_le_GetBeeCost (nHeight : Int) (params : ConsensusParams) :
    params.minBeeCost ≤ GetBeeCost nHeight params := by
  unfold GetBeeCost
  split
  · exact Int.le_refl _
  · simp only []
    split <;> omega

theorem GetBeeCost_pos (nHeight : Int) (params : ConsensusParams) : 0 < GetBeeCost nHeight params :=
  Int.lt_of_lt_of_le params.minBeeCost_pos (minBeeCost_le_GetBeeCost nHeight params)

/-! ## The main network's schedule -/

/-- On the main network every height from 2 on is past the fork block and has
no slow start: the subsidy is the plain halving schedule until the money supply
height. -/
theorem GetBlockSubsidy_main {nHeight : Int} (h : 2 ≤ nHeight) :
    GetBlockSubsidy nHeight mainParams =
      if nHeight ≥ 6215968 then 0 else (50 * COIN) >>> (nHeight / 840000).toNat := by
  have hdiv : nHeight.tdiv 840000 = nHeight / 840000 := Int.tdiv_eq_ediv_of_nonneg (by omega)
  have hfork : nHeight ≠ mainParams.lastScryptBlock + 1 := by simp only [mainParams]; omega
  rw [GetBlockSubsidy, if_neg (by omega), if_neg (by omega), if_neg hfork]
  simp only [mainParams, hdiv]
  by_cases hs : nHeight ≥ 6215968
  · rw [if_pos (Or.inr hs), if_pos hs]
  · rw [if_neg (by omega), if_neg hs, if_neg (by omega)]

theorem GetBlockSubsidy_main_nonneg {nHeight : Int} (h : 2 ≤ nHeight) :
    0 ≤ GetBlockSubsidy nHeight mainParams := by
  rw [GetBlockSubsidy_main h]
  split
  · exact Int.le_refl 0
  · exact Int.le_shiftRight_of_nonneg (by decide)

end Cascoin
