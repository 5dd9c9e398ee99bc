import Cascoin.Models.Hive.Proof

/-!
# The coin supply

`ConnectBlock` lets a block's coinbase pay the subsidy `GetBlockSubsidy(h)` plus
fees; once MinotaurX is enabled at the block's parent, a hive block may pay half
as much again (`blockReward += blockReward >> 1`) and a PoW block half of it.
`CheckHiveProof` limits the hive blocks in a row: with Hive 1.1 enabled fewer
than `maxConsecutiveHiveBlocks` may stand below a new hive block, before it none.

On the main network MinotaurX and Hive 1.1 are deployed `ALWAYS_ACTIVE` and two
hive blocks may follow each other. Two hive blocks after every PoW block then pay
seven sixths of the subsidy schedule, whose own total falls 525,062.5 coins short of
`MAX_MONEY`: over the first three halving eras alone the coinbases may claim
more than `MAX_MONEY` (`totalSubsidy_exceeds_MAX_MONEY`).

Sums run over heights as natural numbers; a block's height as the code has it is
the same number as an `Int`.
-/

namespace Cascoin

open Finset

/-- The subsidy part of `ConnectBlock`'s `blockReward` for a block at `nHeight`, with
`minotaurX` for `IsMinotaurXEnabled(pindex->pprev)` and `hiveMined` for
`block.IsHiveMined()`. -/
def blockRewardSubsidy (params : ConsensusParams) (nHeight : Int) (minotaurX hiveMined : Bool) :
    Int :=
  let blockReward := GetBlockSubsidy nHeight params
  if minotaurX then
    if hiveMined then blockReward + (blockReward >>> (1 : Nat)) else blockReward >>> (1 : Nat)
  else blockReward

/-- The hive blocks in a row right below height `nHeight`, on a chain whose block at
each height is hive mined where `hiveMined` says. -/
def hiveBlocksBelow (hiveMined : Nat → Bool) : Nat → Nat
  | 0 => 0
  | nHeight + 1 => if hiveMined nHeight then hiveBlocksBelow hiveMined nHeight + 1 else 0

/-- On such a chain `CheckHiveProof`'s loop from a parent at height `nHeight - 1` counts
`hiveBlocksBelow hiveMined nHeight`; its `assert(pindexTemp->pprev)` holds because the
genesis block is not hive mined. -/
theorem hiveBlocksAtTip_eq_hiveBlocksBelow {ε : Type} (hiveNonceMarker : UInt32)
    (hiveMined : Nat → Bool) (hgenesis : hiveMined 0 = false) :
    ∀ path : List BlockIndexEntry, HeightsDescend path →
      (∀ e ∈ path, e.header.IsHiveMined hiveNonceMarker = hiveMined e.nHeight.toNat) →
      (hiveBlocksAtTip hiveNonceMarker path : Checked ε Nat) = .ok (hiveBlocksBelow hiveMined path.length)
  | [], _, _ => rfl
  | e :: rest, ⟨hheight, hdescend⟩, hpattern => by
    have he : e.header.IsHiveMined hiveNonceMarker = hiveMined rest.length := by
      rw [hpattern e (by simp), hheight, Int.toNat_natCast]
    have ih := @hiveBlocksAtTip_eq_hiveBlocksBelow ε hiveNonceMarker hiveMined hgenesis rest hdescend
      (fun f hf => hpattern f (by simp [hf]))
    rw [List.length_cons, hiveBlocksBelow, hiveBlocksAtTip, he]
    cases hhive : hiveMined rest.length
    · rfl
    · -- a hive block is not the genesis block, so a parent stands behind it
      have hrest : rest.isEmpty = false := by
        cases rest with
        | nil => simp [hgenesis] at hhive
        | cons _ _ => rfl
      simp [hrest, Checked.assert, ih]

/-- `CheckHiveProof`'s rule on hive blocks in a row, for a chain whose blocks are hive
mined where `hiveMined` says, with Hive 1.1 enabled at the parent of a height where
`hive11` says. The genesis block is not hive mined. -/
def HiveBlocksLimited (params : ConsensusParams) (hive11 hiveMined : Nat → Bool) : Prop :=
  hiveMined 0 = false ∧ ∀ nHeight, hiveMined nHeight = true →
    if hive11 nHeight then (hiveBlocksBelow hiveMined nHeight : Int) < params.maxConsecutiveHiveBlocks
    else hiveBlocksBelow hiveMined nHeight = 0

/-- The subsidy the coinbases of the blocks below height `n` may claim. -/
def totalSubsidy (params : ConsensusParams) (minotaurX hiveMined : Nat → Bool) (n : Nat) : Int :=
  ∑ nHeight ∈ range n, blockRewardSubsidy params nHeight (minotaurX nHeight) (hiveMined nHeight)

/-! ## Sums over triples of heights -/

/-- A sum over `3m` heights from a multiple of three, three heights at a time. -/
theorem sum_Ico_triples (f : Nat → Int) (b m : Nat) :
    ∑ h ∈ Ico (3 * b) (3 * b + 3 * m), f h =
      ∑ j ∈ range m, (f (3 * (b + j)) + f (3 * (b + j) + 1) + f (3 * (b + j) + 2)) := by
  induction m with
  | zero => simp
  | succ m ih =>
    rw [sum_range_succ, ← ih, show 3 * b + 3 * (m + 1) = 3 * b + 3 * m + 1 + 1 + 1 by ring,
      sum_Ico_succ_top (by omega), sum_Ico_succ_top (by omega), sum_Ico_succ_top (by omega)]
    rw [show 3 * (b + m) = 3 * b + 3 * m by ring]
    ring

/-- Triples that all sum to `T` sum to `m * T`. -/
theorem sum_Ico_triples_const (f : Nat → Int) (b m : Nat) (T : Int)
    (hT : ∀ j < m, f (3 * (b + j)) + f (3 * (b + j) + 1) + f (3 * (b + j) + 2) = T) :
    ∑ h ∈ Ico (3 * b) (3 * b + 3 * m), f h = m * T := by
  rw [sum_Ico_triples, sum_congr rfl fun j hj => hT j (mem_range.1 hj), sum_const, card_range,
    nsmul_eq_mul]

/-! ## The main network's subsidy -/

/-- The subsidy of the `k`-th halving era of the main network. -/
def eraSubsidy (k : Nat) : Int := (50 * COIN) >>> k

/-- What a PoW block and two hive blocks of era `k` pay once MinotaurX is enabled. -/
def eraTriple (k : Nat) : Int :=
  (eraSubsidy k >>> (1 : Nat)) + 2 * (eraSubsidy k + (eraSubsidy k >>> (1 : Nat)))

/-- From height 2 to the money supply height, the main network pays the era's subsidy. -/
theorem GetBlockSubsidy_main_era {nHeight : Nat} (h2 : 2 ≤ nHeight) (hs : nHeight < 6215968) :
    GetBlockSubsidy nHeight mainParams = eraSubsidy (nHeight / 840000) := by
  have hera : ((nHeight : Int) / 840000).toNat = nHeight / 840000 := by omega
  rw [GetBlockSubsidy_main (by omega), if_neg (by omega), hera, eraSubsidy]

theorem blockRewardSubsidy_nonneg_main (nHeight : Nat) (minotaurX hiveMined : Bool) :
    0 ≤ blockRewardSubsidy mainParams nHeight minotaurX hiveMined := by
  have hs : 0 ≤ GetBlockSubsidy nHeight mainParams := by
    rcases Nat.lt_or_ge nHeight 2 with h | h
    · interval_cases nHeight <;> decide
    · exact GetBlockSubsidy_main_nonneg (by omega)
  have hhalf : 0 ≤ GetBlockSubsidy nHeight mainParams >>> (1 : Nat) :=
    Int.le_shiftRight_of_nonneg hs
  simp only [blockRewardSubsidy]
  split
  · split <;> omega
  · exact hs

/-! ## Two hive blocks after every PoW block -/

/-- The chain whose blocks at heights not divisible by three are hive mined. -/
def twoHivesPerPow (nHeight : Nat) : Bool := nHeight % 3 != 0

theorem hiveBlocksBelow_twoHivesPerPow (n : Nat) :
    hiveBlocksBelow twoHivesPerPow (n + 1) = n % 3 := by
  induction n with
  | zero => rfl
  | succ n ih =>
    rw [hiveBlocksBelow, ih]
    by_cases h : n % 3 = 2
    · -- the block at `n + 1` is the PoW block
      rw [if_neg (by simp [twoHivesPerPow]; omega)]
      omega
    · rw [if_pos (by simp [twoHivesPerPow]; omega)]
      omega

/-- The chain keeps `CheckHiveProof`'s rule wherever two hive blocks may follow each other. -/
theorem twoHivesPerPow_limited (params : ConsensusParams)
    (hmax : 2 ≤ params.maxConsecutiveHiveBlocks) :
    HiveBlocksLimited params (fun _ => true) twoHivesPerPow := by
  refine ⟨rfl, fun nHeight hhive => ?_⟩
  have hpos : nHeight ≠ 0 := by
    rintro rfl
    cases hhive
  obtain ⟨n, rfl⟩ := Nat.exists_eq_succ_of_ne_zero hpos
  -- a hive block at `n + 1` has at most one hive block below it
  have hmod : (n + 1) % 3 ≠ 0 := by simpa [twoHivesPerPow] using hhive
  simp only [if_true, hiveBlocksBelow_twoHivesPerPow]
  omega

/-- With MinotaurX enabled, a PoW block and two hive blocks of one era pay three and a
half times the era's subsidy. -/
theorem triple_twoHivesPerPow {j : Nat} (h2 : 2 ≤ 3 * j)
    (hera : (3 * j) / 840000 = (3 * j + 2) / 840000) (hs : 3 * j + 2 < 6215968) :
    blockRewardSubsidy mainParams (3 * j : Nat) true (twoHivesPerPow (3 * j)) +
      blockRewardSubsidy mainParams (3 * j + 1 : Nat) true (twoHivesPerPow (3 * j + 1)) +
      blockRewardSubsidy mainParams (3 * j + 2 : Nat) true (twoHivesPerPow (3 * j + 2)) =
      eraTriple ((3 * j) / 840000) := by
  have hpow : twoHivesPerPow (3 * j) = false := by simp [twoHivesPerPow]
  have hhive1 : twoHivesPerPow (3 * j + 1) = true := by simp [twoHivesPerPow]
  have hhive2 : twoHivesPerPow (3 * j + 2) = true := by simp [twoHivesPerPow]
  have hera1 : (3 * j + 1) / 840000 = (3 * j) / 840000 := by omega
  simp only [blockRewardSubsidy, hpow, hhive1, hhive2, if_true, Bool.false_eq_true, if_false]
  rw [GetBlockSubsidy_main_era h2 (by omega), GetBlockSubsidy_main_era (by omega) (by omega),
    GetBlockSubsidy_main_era (by omega) hs, hera1, ← hera, eraTriple]
  ring

/-- The sum over the triples of one era, past height 2. -/
theorem sum_era_twoHivesPerPow {b m k : Nat} (hb : 1 ≤ b) (hlo : 840000 * k ≤ 3 * b)
    (hhi : 3 * b + 3 * m ≤ 840000 * (k + 1)) (hs : 3 * b + 3 * m ≤ 6215968) :
    ∑ h ∈ Ico (3 * b) (3 * b + 3 * m),
        blockRewardSubsidy mainParams h true (twoHivesPerPow h) = m * eraTriple k := by
  apply sum_Ico_triples_const
  intro j hj
  have hk : (3 * (b + j)) / 840000 = k := by omega
  rw [triple_twoHivesPerPow (by omega) (by omega) (by omega), hk]

/-- On the main network, where MinotaurX is always enabled and two hive blocks may follow
each other, a chain of two hive blocks after every PoW block keeps `CheckHiveProof`'s
rule, yet from height 2,520,000 on its coinbases may claim more than `MAX_MONEY`. -/
theorem totalSubsidy_exceeds_MAX_MONEY {n : Nat} (hn : 2520000 ≤ n) :
    HiveBlocksLimited mainParams (fun _ => true) twoHivesPerPow ∧
      MAX_MONEY < totalSubsidy mainParams (fun _ => true) twoHivesPerPow n := by
  refine ⟨twoHivesPerPow_limited mainParams (by decide), ?_⟩
  let f : Nat → Int := fun h => blockRewardSubsidy mainParams h true (twoHivesPerPow h)
  -- the heights 3 to 2,520,000, in the first three eras, bound the sum from below
  have hsub : ∑ h ∈ Ico 3 2520000, f h ≤ totalSubsidy mainParams (fun _ => true) twoHivesPerPow n := by
    apply sum_le_sum_of_subset_of_nonneg
    · intro h hh
      simp only [mem_Ico] at hh
      simp only [mem_range]
      omega
    · intro h _ _
      exact blockRewardSubsidy_nonneg_main h true _
  have hera0 : ∑ h ∈ Ico 3 840000, f h = 279999 * eraTriple 0 :=
    @sum_era_twoHivesPerPow 1 279999 0 le_rfl (by omega) (by omega) (by omega)
  have hera1 : ∑ h ∈ Ico 840000 1680000, f h = 280000 * eraTriple 1 :=
    @sum_era_twoHivesPerPow 280000 280000 1 (by omega) (by omega) (by omega) (by omega)
  have hera2 : ∑ h ∈ Ico 1680000 2520000, f h = 280000 * eraTriple 2 :=
    @sum_era_twoHivesPerPow 560000 280000 2 (by omega) (by omega) (by omega) (by omega)
  have hsplit : ∑ h ∈ Ico 3 2520000, f h =
      ∑ h ∈ Ico 3 840000, f h + ∑ h ∈ Ico 840000 1680000, f h +
        ∑ h ∈ Ico 1680000 2520000, f h := by
    rw [sum_Ico_consecutive _ (by omega : 3 ≤ 840000) (by omega : 840000 ≤ 1680000),
      sum_Ico_consecutive _ (by omega : 3 ≤ 1680000) (by omega : 1680000 ≤ 2520000)]
  have htotal : ∑ h ∈ Ico 3 2520000, f h = 857498250000000 := by
    rw [hsplit, hera0, hera1, hera2]
    decide
  have hmax : MAX_MONEY = 840000000000000 := by decide
  omega

/-- The failing input: all heights with a subsidy, up to the money supply height. -/
theorem totalSubsidy_exceeds_MAX_MONEY_at_supply_height :
    2520000 ≤ 6215968 ∧ HiveBlocksLimited mainParams (fun _ => true) twoHivesPerPow ∧
      MAX_MONEY < totalSubsidy mainParams (fun _ => true) twoHivesPerPow 6215968 :=
  ⟨by norm_num, totalSubsidy_exceeds_MAX_MONEY (by norm_num)⟩

end Cascoin
