import Cascoin.Models.Arith.Compact
import Cascoin.Models.Consensus.Params
import Cascoin.Models.Chain.Block

/-!
# Proof-of-work targets

`CheckProofOfWork` compares a hash with a compact target after a range check
against the largest of the per-algorithm limits, and `GetNextWorkRequiredLWMA`
retargets one algorithm from the last `lwmaAveragingWindow` blocks of its type.
Both read `powTypeLimits` by algorithm index: the first over every index below
`NUM_BLOCK_TYPES`, the second at the requested type. The reads are checked, so
a network that lists fewer limits than there are algorithms faults here.

`GetEffectivePoWTypeForHashing` is the type the header's hash is computed
with: scrypt up to `powForkTime`, then MinotaurX when the version's type byte
says so and SHA-256 otherwise.

Every return of the LWMA retarget encodes the limit or a target in `(0, limit]`,
so the target of its `nBits` is positive and at most the limit
(`GetNextWorkRequiredLWMA_target`). The weighting loop starts from the oldest
wanted block's own timestamp, so a window exactly on schedule is not a fixed
point: its weighted solvetimes sum to `k - T - 1`, not `k`
(`GetNextWorkRequiredLWMA_on_schedule`).
-/

namespace Cascoin

/-- `CBlockHeader::GetPoWType`: the raw type byte `(nVersion >> 16) & 0xFF`. -/
def CBlockHeader.GetPoWType (header : CBlockHeader) : Nat :=
  ((header.nVersion >>> (16 : Nat)) % 256).toNat

/-- `CBlockHeader::GetEffectivePoWTypeForHashing`. -/
def CBlockHeader.GetEffectivePoWTypeForHashing (header : CBlockHeader)
    (params : ConsensusParams) : POW_TYPE :=
  if header.nTime > params.powForkTime then
    if header.GetPoWType = POW_TYPE.POW_TYPE_MINOTAURX.toNat then .POW_TYPE_MINOTAURX
    else .POW_TYPE_SHA256
  else .POW_TYPE_SCRYPT

/-- The loop of `CheckProofOfWork`: the largest of the limits at indices
`0, …, NUM_BLOCK_TYPES - 1`. -/
def overallPowLimit {ε : Type} (params : ConsensusParams) : Checked ε Nat :=
  (List.range NUM_BLOCK_TYPES).foldlM
    (fun acc i => do
      let currentAlgoLimit ← Checked.get params.powTypeLimits i
      return max acc currentAlgoLimit.toNat)
    0

/-- `CheckProofOfWork(hash, nBits, params)`. -/
def CheckProofOfWork {ε : Type} (params : ConsensusParams) (hash : Uint256) (nBits : UInt32) :
    Checked ε Bool := do
  let (bnTarget, fNegative, fOverflow) := SetCompact nBits
  let overallPowLimit ← overallPowLimit params
  if fNegative || bnTarget == 0 || fOverflow || bnTarget > overallPowLimit then
    return false
  if hash.toNat > bnTarget then
    return false
  return true

/-! ## LWMA -/

/-- A block the LWMA collection loop steps over: hive-mined or of another type. -/
def lwmaSkips (params : ConsensusParams) (powType : POW_TYPE) (e : BlockIndexEntry) : Bool :=
  e.header.IsHiveMined params.hiveNonceMarker ||
    e.header.GetEffectivePoWTypeForHashing params != powType

/-- The collection loop of `GetNextWorkRequiredLWMA` over the entries from
`pindexLast` back, with `n` blocks still to find: the wanted blocks, newest
first, or `none` when `pprev` runs out first (the `powLimit` returns). -/
def lwmaWanted (params : ConsensusParams) (powType : POW_TYPE) :
    Nat → List BlockIndexEntry → Option (List BlockIndexEntry)
  | 0, _ => some []
  | _ + 1, [] => none
  | n + 1, e :: rest =>
    if lwmaSkips params powType e then lwmaWanted params powType (n + 1) rest
    else (lwmaWanted params powType n rest).map (e :: ·)

/-- `arith_uint256` division, which throws on a zero divisor. -/
def arithDiv {ε : Type} (a b : Nat) : Checked ε Nat :=
  if b = 0 then Checked.raise "Division by zero" else return a / b

/-- The state of the weighting loop: `previousTimestamp`, `j`,
`sumWeightedSolvetimes` and `avgTarget`. -/
structure LwmaAcc where
  previousTimestamp : Int
  j : Int
  sumWeightedSolvetimes : Int
  avgTarget : Nat

/-- One pass of the weighting loop over a wanted block, oldest first. -/
def lwmaStep {ε : Type} (T N k : Int) (acc : LwmaAcc) (block : BlockIndexEntry) :
    Checked ε LwmaAcc := do
  let blockTime : Int := block.header.nTime.toNat
  let thisTimestamp :=
    if blockTime > acc.previousTimestamp then blockTime else acc.previousTimestamp + 1
  let solvetime := min (6 * T) (thisTimestamp - acc.previousTimestamp)
  let j := acc.j + 1
  -- `target / N / k`, each divisor converted to `uint64_t`
  let t ← arithDiv (SetCompact block.header.nBits).1 (N % 2 ^ 64).toNat
  let t ← arithDiv t (k % 2 ^ 64).toNat
  return { previousTimestamp := thisTimestamp, j := j,
           sumWeightedSolvetimes := acc.sumWeightedSolvetimes + solvetime * j,
           avgTarget := (acc.avgTarget + t) % 2 ^ 256 }

/-- `GetNextWorkRequiredLWMA(pindexLast, pblock, params, powType)`. -/
def GetNextWorkRequiredLWMA {ε : Type} (pindexLast : CBlockIndex) (pblock : CBlockHeader)
    (params : ConsensusParams) (powType : POW_TYPE) : Checked ε UInt32 := do
  let powLimit := (← Checked.get params.powTypeLimits powType.toNat).toNat
  let T := params.nPowTargetSpacing * 2
  let N := params.lwmaAveragingWindow
  let k := (N * (N + 1) * T).tdiv 2
  let height := pindexLast.nHeight
  if params.fPowAllowMinDifficultyBlocks &&
      decide ((pblock.nTime.toNat : Int) > pindexLast.header.nTime.toNat + T * 10) then
    return ← GetCompact powLimit false
  if height < N then
    return ← GetCompact powLimit false
  match lwmaWanted params powType N.toNat pindexLast.path with
  | none => GetCompact powLimit false
  | some [] => GetCompact powLimit false
  | some (newest :: older) =>
    let wantedBlocks := newest :: older
    -- `blockPreviousTimestamp` is the oldest wanted block
    let oldest := wantedBlocks.getLast (List.cons_ne_nil _ _)
    let acc ← wantedBlocks.reverse.foldlM (lwmaStep T N k)
      { previousTimestamp := oldest.header.nTime.toNat, j := 0,
        sumWeightedSolvetimes := 0, avgTarget := 0 }
    -- `avgTarget * sumWeightedSolvetimes` takes the `uint32_t` overload
    let nextTarget := (acc.avgTarget * (acc.sumWeightedSolvetimes % 2 ^ 32).toNat) % 2 ^ 256
    if nextTarget > powLimit || nextTarget == 0 then
      return ← GetCompact powLimit false
    GetCompact nextTarget false

/-! ## Index bounds -/

section Bounds

variable {ε : Type} (params : ConsensusParams)

/-- The limit loop reads every index below `NUM_BLOCK_TYPES`, so it faults on a
network with fewer limits. -/
theorem overallPowLimit_of_length_lt (h : params.powTypeLimits.length < NUM_BLOCK_TYPES) :
    (overallPowLimit params : Checked ε Nat) = .error (.fault .outOfRange) := by
  obtain ⟨limits, hl⟩ : ∃ l, params.powTypeLimits = l := ⟨_, rfl⟩
  rw [hl] at h
  simp only [overallPowLimit, NUM_BLOCK_TYPES, hl] at *
  match limits, h with
  | [], _ => rfl
  | [_], _ => rfl
  | [a, b], _ => simp [List.range, List.range.loop, List.foldlM, Checked.get]

/-- With a limit for each type, the loop returns the largest. -/
theorem overallPowLimit_of_length (h : params.powTypeLimits = [a, b, c]) :
    (overallPowLimit params : Checked ε Nat) = .ok (max (max a.toNat b.toNat) c.toNat) := by
  simp [overallPowLimit, h, NUM_BLOCK_TYPES, List.range, List.range.loop, List.foldlM,
    Checked.get]

theorem CheckProofOfWork_of_length_lt (h : params.powTypeLimits.length < NUM_BLOCK_TYPES)
    (hash : Uint256) (nBits : UInt32) :
    (CheckProofOfWork params hash nBits : Checked ε Bool) = .error (.fault .outOfRange) := by
  simp [CheckProofOfWork, overallPowLimit_of_length_lt params h]

/-- On each network's parameters `CheckProofOfWork` reads past the end of
`powTypeLimits`, whatever the hash and the bits: the loop reads three limits,
the main and test networks list two, regtest none. -/
theorem CheckProofOfWork_reads_past_powTypeLimits (hash : Uint256) (nBits : UInt32)
    (unset : ConsensusParams) :
    (CheckProofOfWork mainParams hash nBits : Checked ε Bool) = .error (.fault .outOfRange) ∧
      (CheckProofOfWork testNetParams hash nBits : Checked ε Bool) = .error (.fault .outOfRange) ∧
      (CheckProofOfWork (regTestParams unset) hash nBits : Checked ε Bool) =
        .error (.fault .outOfRange) :=
  ⟨CheckProofOfWork_of_length_lt _ (by decide) hash nBits,
    CheckProofOfWork_of_length_lt _ (by decide) hash nBits,
    CheckProofOfWork_of_length_lt _ (by simp [regTestParams, NUM_BLOCK_TYPES]) hash nBits⟩

/-- The retarget reads the requested type's limit first: past the end of the
list it faults, whatever the chain. -/
theorem GetNextWorkRequiredLWMA_of_length_le (pindexLast : CBlockIndex) (pblock : CBlockHeader)
    {powType : POW_TYPE} (h : params.powTypeLimits.length ≤ powType.toNat) :
    (GetNextWorkRequiredLWMA pindexLast pblock params powType : Checked ε UInt32) =
      .error (.fault .outOfRange) := by
  simp [GetNextWorkRequiredLWMA, Checked.get_of_le h]

/-- Up to `powForkTime` a header is classified as scrypt, the third type. -/
theorem GetEffectivePoWTypeForHashing_of_le {header : CBlockHeader}
    (h : header.nTime ≤ params.powForkTime) :
    header.GetEffectivePoWTypeForHashing params = .POW_TYPE_SCRYPT := by
  rw [CBlockHeader.GetEffectivePoWTypeForHashing, if_neg (UInt32.not_lt.mpr h)]

/-- A header timed at or before `powForkTime` is retargeted as scrypt, the third
type, whose limit a network with two limits does not have. -/
theorem GetNextWorkRequiredLWMA_scrypt_of_le (pindexLast : CBlockIndex) {header : CBlockHeader}
    (h : header.nTime ≤ params.powForkTime) (hl : params.powTypeLimits.length ≤ 2) :
    (GetNextWorkRequiredLWMA pindexLast header params (header.GetEffectivePoWTypeForHashing params) :
      Checked ε UInt32) = .error (.fault .outOfRange) := by
  rw [GetEffectivePoWTypeForHashing_of_le params h]
  exact GetNextWorkRequiredLWMA_of_length_le params pindexLast header hl

end Bounds

/-! ## Retarget results -/

section Targets

variable {ε : Type} {pindexLast : CBlockIndex} {pblock : CBlockHeader} {params : ConsensusParams}
  {powType : POW_TYPE} {nBits : UInt32} {limit : Uint256}

/-- Every return of the LWMA retarget encodes the type's limit or a target in
`(0, limit]`. -/
theorem GetNextWorkRequiredLWMA_encodes
    (hlimit : (Checked.get params.powTypeLimits powType.toNat : Checked ε Uint256) = .ok limit)
    (h : (GetNextWorkRequiredLWMA pindexLast pblock params powType : Checked ε UInt32) =
      .ok nBits) :
    ∃ t, (t = limit.toNat ∨ 0 < t ∧ t ≤ limit.toNat) ∧
      (GetCompact t false : Checked ε UInt32) = .ok nBits := by
  unfold GetNextWorkRequiredLWMA at h
  rw [hlimit] at h
  simp only [Checked.ok_bind] at h
  split at h
  · exact ⟨_, .inl rfl, h⟩
  split at h
  · exact ⟨_, .inl rfl, h⟩
  split at h
  · exact ⟨_, .inl rfl, h⟩
  · exact ⟨_, .inl rfl, h⟩
  obtain ⟨acc, -, h⟩ := Checked.bind_eq_ok h
  split at h
  · exact ⟨_, .inl rfl, h⟩
  · -- the weighted target passed the clamp: it is neither above the limit nor zero
    rename_i hclamp
    simp only [Bool.or_eq_true, decide_eq_true_eq, beq_iff_eq, not_or, not_lt] at hclamp
    exact ⟨_, .inr ⟨Nat.pos_of_ne_zero hclamp.2, hclamp.1⟩, h⟩

/-- With a positive limit, the target of the `nBits` the LWMA retarget returns is
positive and at most the limit. -/
theorem GetNextWorkRequiredLWMA_target
    (hlimit : (Checked.get params.powTypeLimits powType.toNat : Checked ε Uint256) = .ok limit)
    (hpos : 0 < limit.toNat)
    (h : (GetNextWorkRequiredLWMA pindexLast pblock params powType : Checked ε UInt32) =
      .ok nBits) :
    0 < (SetCompact nBits).1 ∧ (SetCompact nBits).1 ≤ limit.toNat := by
  obtain ⟨t, ht, hc⟩ := GetNextWorkRequiredLWMA_encodes hlimit h
  have hbounds : 0 < t ∧ t ≤ limit.toNat := by
    rcases ht with rfl | ht
    · exact ⟨hpos, le_rfl⟩
    · exact ht
  exact target_of_GetCompact hbounds.1 hbounds.2 limit.toNat_lt hc

end Targets

/-! ## A window on schedule

On a window whose blocks carry one target `X` and come exactly `T` apart, the
weighted solvetimes would sum to `k = N (N + 1) T / 2` and the retarget would
give `X` back up to its truncations. The loop starts `previousTimestamp` at the
oldest wanted block itself, so that block's solvetime is the clamp's 1 and the
next one's `T - 1`: the sum is `k - T - 1`, and on the networks' window the
result falls short of `X` by more than `2^-13` of it. -/

section Schedule

variable {ε : Type} {T N k : Int} {X : Nat}

/-- `CBlockIndex::GetBlockTime()` of an entry. -/
def BlockIndexEntry.GetBlockTime (e : BlockIndexEntry) : Int := e.header.nTime.toNat

/-- The share `target / N / k` a block of target `X` adds to `avgTarget`. -/
def lwmaShare (N k : Int) (X : Nat) : Nat := X / (N % 2 ^ 64).toNat / (k % 2 ^ 64).toNat

/-- One pass of the weighting loop over a block of target `X`: the timestamp is
pushed past the previous one, the solvetime capped at `6 T`. -/
theorem lwmaStep_eq_ok (acc : LwmaAcc) {block : BlockIndexEntry}
    (hN : (N % 2 ^ 64).toNat ≠ 0) (hk : (k % 2 ^ 64).toNat ≠ 0)
    (hX : (SetCompact block.header.nBits).1 = X) :
    (lwmaStep T N k acc block : Checked ε LwmaAcc) = .ok
      { previousTimestamp := max block.GetBlockTime (acc.previousTimestamp + 1),
        j := acc.j + 1,
        sumWeightedSolvetimes := acc.sumWeightedSolvetimes +
          min (6 * T) (max block.GetBlockTime (acc.previousTimestamp + 1) - acc.previousTimestamp) *
            (acc.j + 1),
        avgTarget := (acc.avgTarget + lwmaShare N k X) % 2 ^ 256 } := by
  have hmax : (if block.GetBlockTime > acc.previousTimestamp then block.GetBlockTime
      else acc.previousTimestamp + 1) = max block.GetBlockTime (acc.previousTimestamp + 1) := by
    split <;> omega
  simp only [lwmaStep, arithDiv, hN, hk, if_false, hX, lwmaShare]
  rw [← hmax]
  rfl

/-- The block at the previous timestamp: the clamp moves the time one second
on, and the solvetime is 1. -/
theorem lwmaStep_of_eq (acc : LwmaAcc) {block : BlockIndexEntry} (hT : 0 < T)
    (hN : (N % 2 ^ 64).toNat ≠ 0) (hk : (k % 2 ^ 64).toNat ≠ 0)
    (hX : (SetCompact block.header.nBits).1 = X) (h : block.GetBlockTime = acc.previousTimestamp) :
    (lwmaStep T N k acc block : Checked ε LwmaAcc) = .ok
      { previousTimestamp := acc.previousTimestamp + 1, j := acc.j + 1,
        sumWeightedSolvetimes := acc.sumWeightedSolvetimes + (acc.j + 1),
        avgTarget := (acc.avgTarget + lwmaShare N k X) % 2 ^ 256 } := by
  rw [lwmaStep_eq_ok acc hN hk hX]
  have hmax : max block.GetBlockTime (acc.previousTimestamp + 1) = acc.previousTimestamp + 1 := by
    omega
  have hmin : min (6 * T) (acc.previousTimestamp + 1 - acc.previousTimestamp) = 1 := by omega
  rw [hmax, hmin, Int.one_mul]

/-- A block a gap of at most `6 T` after the previous timestamp adds the gap,
weighted. -/
theorem lwmaStep_of_lt (acc : LwmaAcc) {block : BlockIndexEntry}
    (hN : (N % 2 ^ 64).toNat ≠ 0) (hk : (k % 2 ^ 64).toNat ≠ 0)
    (hX : (SetCompact block.header.nBits).1 = X)
    (hlt : acc.previousTimestamp < block.GetBlockTime)
    (hgap : block.GetBlockTime - acc.previousTimestamp ≤ 6 * T) :
    (lwmaStep T N k acc block : Checked ε LwmaAcc) = .ok
      { previousTimestamp := block.GetBlockTime, j := acc.j + 1,
        sumWeightedSolvetimes := acc.sumWeightedSolvetimes +
          (block.GetBlockTime - acc.previousTimestamp) * (acc.j + 1),
        avgTarget := (acc.avgTarget + lwmaShare N k X) % 2 ^ 256 } := by
  rw [lwmaStep_eq_ok acc hN hk hX]
  have hmax : max block.GetBlockTime (acc.previousTimestamp + 1) = block.GetBlockTime := by omega
  rw [hmax, min_eq_right hgap]

/-- Blocks `T` apart after one at the previous timestamp: each adds `T` times its
weight, so twice the sum grows by `T` times the growth of `j (j + 1)`. -/
theorem foldlM_lwmaStep_spaced (hT : 0 < T)
    (hN : (N % 2 ^ 64).toNat ≠ 0) (hk : (k % 2 ^ 64).toNat ≠ 0) :
    ∀ (cs : List BlockIndexEntry) (b : BlockIndexEntry) (acc : LwmaAcc),
      (b :: cs).IsChain (fun a c => c.GetBlockTime = a.GetBlockTime + T) →
      b.GetBlockTime = acc.previousTimestamp →
      (∀ c ∈ cs, (SetCompact c.header.nBits).1 = X) → acc.avgTarget < 2 ^ 256 →
      ∃ acc', (cs.foldlM (lwmaStep T N k) acc : Checked ε LwmaAcc) = .ok acc' ∧
        acc'.j = acc.j + cs.length ∧
        2 * acc'.sumWeightedSolvetimes + T * acc.j * (acc.j + 1) =
          2 * acc.sumWeightedSolvetimes + T * acc'.j * (acc'.j + 1) ∧
        acc'.avgTarget = (acc.avgTarget + cs.length * lwmaShare N k X) % 2 ^ 256
  | [], _, acc, _, _, _, hlt => ⟨acc, rfl, by simp, by simpa using (Nat.mod_eq_of_lt hlt).symm⟩
  | c :: cs, b, acc, hchain, hprev, hX, _ => by
    -- the induction is on the blocks after `b`; the state after `c` is the next `acc`
    obtain ⟨hc, hchain⟩ := List.isChain_cons_cons.mp hchain
    have hstep := lwmaStep_of_lt (T := T) (ε := ε) acc hN hk (hX c (by simp))
      (by omega) (by omega)
    obtain ⟨acc', hrun, hj, hsum, havg⟩ :=
      foldlM_lwmaStep_spaced hT hN hk cs c
        { previousTimestamp := c.GetBlockTime, j := acc.j + 1,
          sumWeightedSolvetimes := acc.sumWeightedSolvetimes +
            (c.GetBlockTime - acc.previousTimestamp) * (acc.j + 1),
          avgTarget := (acc.avgTarget + lwmaShare N k X) % 2 ^ 256 }
        hchain rfl (fun c hc => hX c (by simp [hc])) (Nat.mod_lt _ (by positivity))
    dsimp only at hj hsum havg
    refine ⟨acc', ?_, ?_, ?_, ?_⟩
    · rw [List.foldlM_cons, hstep, Checked.ok_bind, hrun]
    · simp only [hj, List.length_cons]
      omega
    · simp only [hc, hprev] at hsum
      linear_combination hsum
    · rw [havg, Nat.mod_add_mod, List.length_cons]
      congr 1
      ring

/-- The whole window, oldest first, from `previousTimestamp` at its first block:
that block adds 1, the second `T - 1` twice, and each after `T` times its weight. -/
theorem foldlM_lwmaStep_window (hT : 1 < T)
    (hN : (N % 2 ^ 64).toNat ≠ 0) (hk : (k % 2 ^ 64).toNat ≠ 0)
    {b₁ b₂ : BlockIndexEntry} {cs : List BlockIndexEntry}
    (hchain : (b₁ :: b₂ :: cs).IsChain (fun a c => c.GetBlockTime = a.GetBlockTime + T))
    (hX : ∀ c ∈ b₁ :: b₂ :: cs, (SetCompact c.header.nBits).1 = X) :
    ∃ acc, ((b₁ :: b₂ :: cs).foldlM (lwmaStep T N k)
        { previousTimestamp := b₁.GetBlockTime, j := 0, sumWeightedSolvetimes := 0,
          avgTarget := 0 } : Checked ε LwmaAcc) = .ok acc ∧
      acc.j = cs.length + 2 ∧
      2 * acc.sumWeightedSolvetimes + 2 * (T + 1) = T * acc.j * (acc.j + 1) ∧
      acc.avgTarget = (cs.length + 2) * lwmaShare N k X % 2 ^ 256 := by
  obtain ⟨h₂, hchain⟩ := List.isChain_cons_cons.mp hchain
  have hstep₁ := lwmaStep_of_eq (ε := ε) (T := T)
    { previousTimestamp := b₁.GetBlockTime, j := 0, sumWeightedSolvetimes := 0, avgTarget := 0 }
    (by omega) hN hk (hX b₁ (by simp)) rfl
  have hstep₂ := lwmaStep_of_lt (ε := ε) (T := T)
    { previousTimestamp := b₁.GetBlockTime + 1, j := 0 + 1, sumWeightedSolvetimes := 0 + (0 + 1),
      avgTarget := (0 + lwmaShare N k X) % 2 ^ 256 }
    hN hk (hX b₂ (by simp)) (by dsimp only; omega) (by dsimp only; omega)
  obtain ⟨acc, hrun, hj, hsum, havg⟩ := foldlM_lwmaStep_spaced (ε := ε) (by omega) hN hk cs b₂
    { previousTimestamp := b₂.GetBlockTime, j := 0 + 1 + 1,
      sumWeightedSolvetimes := 0 + (0 + 1) + (b₂.GetBlockTime - (b₁.GetBlockTime + 1)) * (0 + 1 + 1),
      avgTarget := ((0 + lwmaShare N k X) % 2 ^ 256 + lwmaShare N k X) % 2 ^ 256 }
    hchain rfl (fun c hc => hX c (by simp [hc])) (Nat.mod_lt _ (Nat.two_pow_pos 256))
  dsimp only at hj hsum havg
  refine ⟨acc, ?_, ?_, ?_, ?_⟩
  · rw [List.foldlM_cons, hstep₁, Checked.ok_bind, List.foldlM_cons, hstep₂, Checked.ok_bind, hrun]
  · omega
  · rw [h₂] at hsum
    linear_combination hsum
  · rw [havg, Nat.mod_add_mod, Nat.zero_add, Nat.add_assoc, Nat.mod_add_mod]
    congr 1
    ring

/-- The collection loop returns as many blocks as it looks for. -/
theorem length_lwmaWanted {params : ConsensusParams} {powType : POW_TYPE} :
    ∀ {n : Nat} {es ws : List BlockIndexEntry},
      lwmaWanted params powType n es = some ws → ws.length = n
  | 0, _, _, h => by
    simp only [lwmaWanted, Option.some.injEq] at h
    rw [← h, List.length_nil]
  | _ + 1, [], _, h => by simp [lwmaWanted] at h
  | n + 1, e :: rest, ws, h => by
    simp only [lwmaWanted] at h
    split at h
    · exact length_lwmaWanted h
    · obtain ⟨ws', hws', rfl⟩ := Option.map_eq_some_iff.mp h
      rw [List.length_cons, length_lwmaWanted hws']

/-- On the networks' window of 90 blocks and spacing 150, a window of one target
`X` on schedule is retargeted below `X (1 - 2^-13)`: the retarget returns, at
most `X`, but short of it by `(T + 1) / k` less the truncations. -/
theorem GetNextWorkRequiredLWMA_on_schedule {pindexLast : CBlockIndex} {pblock : CBlockHeader}
    {params : ConsensusParams} {powType : POW_TYPE} {limit : Uint256}
    {ws : List BlockIndexEntry} {nBits : UInt32}
    (hN : params.lwmaAveragingWindow = 90) (hT : params.nPowTargetSpacing = 150)
    (hlimit : (Checked.get params.powTypeLimits powType.toNat : Checked ε Uint256) = .ok limit)
    (hmin : params.fPowAllowMinDifficultyBlocks = true →
      (pblock.nTime.toNat : Int) ≤ pindexLast.header.nTime.toNat + params.nPowTargetSpacing * 2 * 10)
    (hheight : 90 ≤ pindexLast.nHeight)
    (hwant : lwmaWanted params powType 90 pindexLast.path = some ws)
    (hbits : ∀ w ∈ ws, w.header.nBits = nBits) (hX : (SetCompact nBits).1 = X)
    (hlo : 2 ^ 64 ≤ X) (hhi : X ≤ limit.toNat)
    (hsched : ws.reverse.IsChain
      (fun a b => b.GetBlockTime = a.GetBlockTime + 2 * params.nPowTargetSpacing)) :
    ∃ c, (GetNextWorkRequiredLWMA pindexLast pblock params powType : Checked ε UInt32) = .ok c ∧
      (SetCompact c).1 ≤ X ∧ (SetCompact c).1 * 8192 < X * 8191 := by
  -- the window is 90 blocks, two of them before the 88 the spaced run covers
  obtain ⟨b₁, b₂, cs, hrev⟩ : ∃ b₁ b₂ cs, ws.reverse = b₁ :: b₂ :: cs := by
    have hlen : ws.reverse.length = 90 := by rw [List.length_reverse, length_lwmaWanted hwant]
    match h : ws.reverse, hlen with
    | b₁ :: b₂ :: cs, _ => exact ⟨b₁, b₂, cs, rfl⟩
  have hcs : cs.length = 88 := by
    have h := congrArg List.length hrev
    rw [List.length_reverse, length_lwmaWanted hwant] at h
    simp only [List.length_cons] at h
    omega
  have hchain : (b₁ :: b₂ :: cs).IsChain (fun a c => c.GetBlockTime = a.GetBlockTime + 300) := by
    rw [← hrev]
    simpa [hT] using hsched
  have hXs : ∀ c ∈ b₁ :: b₂ :: cs, (SetCompact c.header.nBits).1 = X := by
    intro c hc
    rw [← hrev, List.mem_reverse] at hc
    rw [hbits c hc, hX]
  obtain ⟨acc, hrun, hj, hsum, havg⟩ := foldlM_lwmaStep_window (ε := ε) (T := 300) (N := 90)
    (k := 1228500) (by norm_num) (by decide) (by decide) hchain hXs
  obtain ⟨newest, older, rfl⟩ : ∃ newest older, ws = newest :: older := by
    match ws, hrev with
    | newest :: older, _ => exact ⟨newest, older, rfl⟩
  have holdest : (newest :: older).getLast (List.cons_ne_nil _ _) = b₁ := by
    rw [← List.head_reverse (by simp)]
    simp only [hrev, List.head_cons]
  have hfire : (params.fPowAllowMinDifficultyBlocks &&
      decide ((pblock.nTime.toNat : Int) > pindexLast.header.nTime.toNat +
        params.nPowTargetSpacing * 2 * 10)) = false := by
    cases hf : params.fPowAllowMinDifficultyBlocks
    · rfl
    · simpa using hmin hf
  have hk : ((90 : Int) * (90 + 1) * 300).tdiv 2 = 1228500 := by decide
  unfold GetNextWorkRequiredLWMA
  have h90 : (90 : Int).toNat = 90 := rfl
  simp only [hlimit, Checked.ok_bind, hfire, Bool.false_eq_true, ↓reduceIte]
  simp only [hN, hT, show ¬pindexLast.nHeight < 90 by omega, h90, hwant, ↓reduceIte]
  simp only [holdest, hrev, show (150 : Int) * 2 = 300 from rfl]
  simp only [hk]
  simp only [BlockIndexEntry.GetBlockTime] at hrun
  rw [hrun, Checked.ok_bind]
  -- the share is `X / (N k)`, at least 1 as `X ≥ 2^64`, and `N` shares fit below `X`
  have hq : lwmaShare 90 1228500 X = X / 110565000 := by
    have hdiv : ((90 : Int) % 2 ^ 64).toNat * ((1228500 : Int) % 2 ^ 64).toNat = 110565000 := by
      decide
    rw [lwmaShare, Nat.div_div_eq_div_mul, hdiv]
  have hqX : X / 110565000 * 110565000 ≤ X := Nat.div_mul_le_self X 110565000
  have hqpos : 1 ≤ X / 110565000 :=
    (Nat.le_div_iff_mul_le (by decide)).mpr (le_trans (by norm_num) hlo)
  have hXlt : X < 2 ^ 256 := lt_of_le_of_lt hhi limit.toNat_lt
  -- the weighted sum is `k - T - 1`, and the target `N` shares times it
  have hsumv : acc.sumWeightedSolvetimes = 1228199 := by
    rw [hj, hcs] at hsum
    norm_num at hsum
    omega
  have havgv : acc.avgTarget = 90 * (X / 110565000) := by
    rw [havg, hcs, hq]
    exact Nat.mod_eq_of_lt (by omega)
  have ht : acc.avgTarget * (acc.sumWeightedSolvetimes % 2 ^ 32).toNat % 2 ^ 256 =
      90 * (X / 110565000) * 1228199 := by
    have hw : ((1228199 : Int) % 2 ^ 32).toNat = 1228199 := by decide
    rw [havgv, hsumv, hw]
    exact Nat.mod_eq_of_lt (by omega)
  have hclamp : (decide (90 * (X / 110565000) * 1228199 > limit.toNat) ||
      90 * (X / 110565000) * 1228199 == 0) = false := by
    simp only [Bool.or_eq_false_iff, decide_eq_false_iff_not, not_lt, beq_eq_false_iff_ne]
    omega
  simp only [ht, hclamp, Bool.false_eq_true, ↓reduceIte]
  have hok := @GetCompact_eq_ok ε _ (show 90 * (X / 110565000) * 1228199 < 2 ^ 256 by omega)
  have hR := target_le_of_GetCompact le_rfl (by omega) hok
  exact ⟨_, hok, by omega, by omega⟩

/-- A chain of `n` SHA-256 blocks of bits `nBits` on a scrypt genesis block, the
block at height `h` timed `T h`. -/
def scheduledChain (nBits : UInt32) (T : Nat) : Nat → CBlockIndex
  | 0 => CBlockIndex.genesis Uint256.zero ⟨0, Uint256.zero, Uint256.zero, 0, nBits, 0⟩ true 1
  | n + 1 =>
    let p := scheduledChain nBits T n
    p.extend Uint256.zero ⟨0, p.hash, Uint256.zero, UInt32.ofNat (T * (n + 1)), nBits, 0⟩ true 1 rfl

/-- Ninety-one blocks of bits `0x1d00ffff` five minutes apart on the main network,
the window and the block before it: the next target is below `X (1 - 2^-13)` for
`X = 0xffff * 2^208`. -/
theorem GetNextWorkRequiredLWMA_on_schedule_main :
    ∃ c, (GetNextWorkRequiredLWMA (scheduledChain 0x1d00ffff 300 91)
        ⟨0, Uint256.zero, Uint256.zero, 27600, 0x1d00ffff, 0⟩ mainParams .POW_TYPE_SHA256 :
          Checked Unit UInt32) = .ok c ∧
      (SetCompact c).1 ≤ 0xffff * 2 ^ 208 ∧ (SetCompact c).1 * 8192 < 0xffff * 2 ^ 208 * 8191 :=
  GetNextWorkRequiredLWMA_on_schedule rfl rfl rfl (by decide) (by decide +kernel)
    (show lwmaWanted mainParams .POW_TYPE_SHA256 90 (scheduledChain 0x1d00ffff 300 91).path =
      some ((scheduledChain 0x1d00ffff 300 91).path.take 90) by decide +kernel)
    (by decide +kernel) (show (SetCompact 0x1d00ffff).1 = 0xffff * 2 ^ 208 by decide) (by norm_num)
    (by decide) (by decide +kernel)

end Schedule

end Cascoin
