import Cascoin.Models.Primitives.Transaction

/-!
# Consensus parameters

The fields of `Consensus::Params` that the modelled code reads, with the values
`chainparams.cpp` gives them on the three networks. The divisors of the
subsidy, bee cost, donation and reward estimate formulas carry their
positivity as fields: every configured network satisfies them, and the code
divides by them unguarded.

`CRegTestParams` leaves most Cascoin fields unset. Its `Consensus::Params` is
default-initialised, so those fields hold whatever the allocation held; the
model takes them from an arbitrary parameter set and overwrites only what the
constructor sets. `powTypeLimits` is a `std::vector`, so it is set: empty.
-/

namespace Cascoin

/-- `POW_TYPE`, the proof-of-work algorithms of `primitives/block.h`. -/
inductive POW_TYPE where
  | POW_TYPE_SHA256
  | POW_TYPE_MINOTAURX
  | POW_TYPE_SCRYPT
  deriving DecidableEq, Repr

/-- The enumerator's value, used as an index into `powTypeLimits`. -/
def POW_TYPE.toNat : POW_TYPE → Nat
  | .POW_TYPE_SHA256 => 0
  | .POW_TYPE_MINOTAURX => 1
  | .POW_TYPE_SCRYPT => 2

/-- `NUM_BLOCK_TYPES`, the enumerator after the last algorithm. -/
def NUM_BLOCK_TYPES : Nat := 3

theorem POW_TYPE.toNat_lt (t : POW_TYPE) : t.toNat < NUM_BLOCK_TYPES := by
  cases t <;> decide

/-- `Consensus::Params`, the fields the modelled code reads. -/
structure ConsensusParams where
  nSubsidyHalvingInterval : Int
  nPowTargetSpacing : Int
  fPowAllowMinDifficultyBlocks : Bool
  /-- Time of the PoW hash method change. -/
  powForkTime : UInt32
  /-- Height of the last scrypt block. -/
  lastScryptBlock : Int
  slowStartBlocks : Int
  /-- Height at which the total money supply is reached. -/
  totalMoneySupplyHeight : Int
  premineAmount : Int
  minBeeCost : Int
  /-- Bee cost is `block_reward / beeCostFactor`. -/
  beeCostFactor : Int
  beeCreationAddress : String
  hiveCommunityAddress : String
  communityContribFactor : Int
  beeGestationBlocks : Int
  beeLifespanBlocks : Int
  /-- Observed hive block frequency: one block in this many is a hive block. -/
  hiveBlockSpacingTargetTypical : Int
  /-- The observed frequency under Hive 1.1. -/
  hiveBlockSpacingTargetTypical_1_1 : Int
  hiveNonceMarker : UInt32
  maxConsecutiveHiveBlocks : Int
  lwmaAveragingWindow : Int
  /-- Limits for each pow type, indexed by `POW_TYPE`. -/
  powTypeLimits : List Uint256
  nickCreationAddress : String
  nickCreationCost3Char : Int
  nickCreationCost4Char : Int
  nickCreationCostStandard : Int
  nickCreationAntiDust : Int
  nSubsidyHalvingInterval_pos : 0 < nSubsidyHalvingInterval
  beeCostFactor_pos : 0 < beeCostFactor
  communityContribFactor_pos : 0 < communityContribFactor
  minBeeCost_pos : 0 < minBeeCost
  hiveBlockSpacingTargetTypical_pos : 0 < hiveBlockSpacingTargetTypical
  hiveBlockSpacingTargetTypical_1_1_pos : 0 < hiveBlockSpacingTargetTypical_1_1

/-- `CMainParams`. -/
def mainParams : ConsensusParams where
  nSubsidyHalvingInterval := 840000
  nPowTargetSpacing := 150
  fPowAllowMinDifficultyBlocks := false
  powForkTime := 0
  lastScryptBlock := -1
  slowStartBlocks := 0
  totalMoneySupplyHeight := 6215968
  premineAmount := 0
  minBeeCost := 10000
  beeCostFactor := 2500
  beeCreationAddress := "HiveCascoinBurnAddressXXXXXXXXXXkTBcG"
  hiveCommunityAddress := "HF2sgFXX5NgDojHhTPCTFknc6bqh3xCd8u"
  communityContribFactor := 10
  beeGestationBlocks := 48 * 24
  beeLifespanBlocks := 48 * 24 * 14
  hiveBlockSpacingTargetTypical := 3
  hiveBlockSpacingTargetTypical_1_1 := 2
  hiveNonceMarker := 192
  maxConsecutiveHiveBlocks := 2
  lwmaAveragingWindow := 90
  -- uint256S("0x00000000ff..ff") and uint256S("0x000fff..ff")
  powTypeLimits := [⟨2 ^ 224 - 1, by decide⟩, ⟨2 ^ 244 - 1, by decide⟩]
  nickCreationAddress := "HF2sgFXX5NgDojHhTPCTFknc6bqh3xCd8u"
  nickCreationCost3Char := 1000000000000
  nickCreationCost4Char := 100000000000
  nickCreationCostStandard := 1000000000
  nickCreationAntiDust := 10000
  nSubsidyHalvingInterval_pos := by decide
  beeCostFactor_pos := by decide
  communityContribFactor_pos := by decide
  minBeeCost_pos := by decide
  hiveBlockSpacingTargetTypical_pos := by decide
  hiveBlockSpacingTargetTypical_1_1_pos := by decide

/-- `CTestNetParams`. -/
def testNetParams : ConsensusParams where
  nSubsidyHalvingInterval := 840000
  nPowTargetSpacing := 150
  fPowAllowMinDifficultyBlocks := true
  powForkTime := 0
  lastScryptBlock := 0
  slowStartBlocks := 0
  totalMoneySupplyHeight := 6215968
  premineAmount := 0
  minBeeCost := 10000
  beeCostFactor := 2500
  beeCreationAddress := "tEstNetCreateCASWorkerBeeXXXYq6T3r"
  hiveCommunityAddress := "tCY5JWV4LYe64ivrAE2rD6P3bYxYtcoTsz"
  communityContribFactor := 10
  beeGestationBlocks := 40
  beeLifespanBlocks := 48 * 24 * 14
  hiveBlockSpacingTargetTypical := 3
  hiveBlockSpacingTargetTypical_1_1 := 2
  hiveNonceMarker := 192
  maxConsecutiveHiveBlocks := 2
  lwmaAveragingWindow := 90
  -- uint256S("0x000000ff..ff") and uint256S("0x000fff..ff")
  powTypeLimits := [⟨2 ^ 232 - 1, by decide⟩, ⟨2 ^ 244 - 1, by decide⟩]
  nickCreationAddress := "tKJjaPcSS3nXYBN4QmmYnSanr9oUhSXAZB"
  nickCreationCost3Char := 100000000000
  nickCreationCost4Char := 5000000000
  nickCreationCostStandard := 100000000
  nickCreationAntiDust := 10000
  nSubsidyHalvingInterval_pos := by decide
  beeCostFactor_pos := by decide
  communityContribFactor_pos := by decide
  minBeeCost_pos := by decide
  hiveBlockSpacingTargetTypical_pos := by decide
  hiveBlockSpacingTargetTypical_1_1_pos := by decide

/-- `CRegTestParams`: the fields its constructor sets over the indeterminate
values `unset` of the others. -/
def regTestParams (unset : ConsensusParams) : ConsensusParams :=
  { unset with
    nSubsidyHalvingInterval := 150
    nPowTargetSpacing := 150
    fPowAllowMinDifficultyBlocks := true
    powForkTime := 1543765622
    lastScryptBlock := 200
    slowStartBlocks := 0
    totalMoneySupplyHeight := 6215968
    premineAmount := 0
    hiveNonceMarker := 192
    -- no limit is pushed
    powTypeLimits := []
    -- `std::string` members are constructed empty
    beeCreationAddress := ""
    hiveCommunityAddress := ""
    nickCreationAddress := ""
    nSubsidyHalvingInterval_pos := by decide }

end Cascoin
