import Cascoin.Core.Binary32
import Cascoin.Models.Wallet.Bees

/-!
# Bee binning

`BusyBees` takes the wallet's mature BCTs, sizes bins of
`beesPerBin = ceil(totalBees / (float)threadCount)` bees and walks the BCTs,
filling one bin after another with `CBeeRange`s: a BCT that fits goes in whole,
one that does not is split and the rest carried into the next bin by
`beeOffset`. Each bin gets a thread.

The walk cuts the list of bees `(txid, i)`, BCT after BCT, into pieces of
`beesPerBin` (`IsChunking`): every bin but the last holds exactly `beesPerBin`
bees and none is empty (`binBees_chunks`). So every bee is in exactly one range,
and since `beesPerBin` is the exact ceiling of `totalBees / threadCount` up to
`2^24` bees (`Binary32.ceil_round_div`), there are at most `threadCount` bins.
-/

namespace Cascoin

/-! ## Cutting a list into pieces -/

section Chunking

variable {α : Type} {n : Nat}

/-- `cs` cuts `l` into consecutive non-empty pieces of at most `n` elements, each
but the last of exactly `n`. -/
def IsChunking (n : Nat) : List (List α) → List α → Prop
  | [], l => l = []
  | c :: cs, l => c ≠ [] ∧ c.length ≤ n ∧ (cs ≠ [] → c.length = n) ∧
      ∃ rest, l = c ++ rest ∧ IsChunking n cs rest

theorem IsChunking.flatten_eq : ∀ {cs : List (List α)} {l : List α},
    IsChunking n cs l → cs.flatten = l
  | [], _, h => h.symm
  | _ :: _, _, ⟨_, _, _, rest, hl, hcs⟩ => by
    rw [List.flatten_cons, hcs.flatten_eq, hl]

theorem IsChunking.length_le : ∀ {cs : List (List α)} {l : List α},
    IsChunking n cs l → ∀ c ∈ cs, c.length ≤ n
  | [], _, _, _, hc => absurd hc List.not_mem_nil
  | _ :: _, _, ⟨_, hle, _, _, _, hcs⟩, c, hc => by
    rcases List.mem_cons.mp hc with rfl | hc
    · exact hle
    · exact hcs.length_le c hc

/-- All pieces but the last are full and the last is not empty, so the pieces
before it hold fewer than `l.length` elements. -/
theorem IsChunking.length_mul_lt : ∀ {cs : List (List α)} {l : List α},
    IsChunking n cs l → cs ≠ [] → (cs.length - 1) * n < l.length
  | [], _, _, hne => absurd rfl hne
  | c :: cs, l, ⟨hc, _, hfull, rest, hl, hcs⟩, _ => by
    have hpos : 0 < c.length := List.length_pos_iff.mpr hc
    rw [hl, List.length_append, List.length_cons, Nat.add_sub_cancel]
    by_cases hnil : cs = []
    · simp only [hnil, List.length_nil, Nat.zero_mul]
      omega
    · have ih := hcs.length_mul_lt hnil
      have hlen : cs.length = cs.length - 1 + 1 := (Nat.sub_add_cancel
        (List.length_pos_iff.mpr hnil)).symm
      rw [hlen, Nat.add_mul, Nat.one_mul, hfull hnil]
      omega

end Chunking

/-! ## The binning loops -/

/-- The bees of a range: `(txid, i)` for `i` from `offset` to `offset + count - 1`,
as `CheckBin` walks them. -/
def CBeeRange.bees (r : CBeeRange) : List (List UInt8 × Int) :=
  (List.range r.count.toNat).map fun (i : Nat) => (r.txid, r.offset + i)

/-- The bees of a BCT from `beeOffset` on. -/
def beesFrom (bct : CBeeCreationTransactionInfo) (beeOffset : Int) : List (List UInt8 × Int) :=
  (List.range (bct.beeCount - beeOffset).toNat).map fun (i : Nat) => (bct.txid, beeOffset + i)

/-- The bees still to bin with the iterator on `bcts`, `beeOffset` of its BCT
binned. -/
def pendingBees : List CBeeCreationTransactionInfo → Int → List (List UInt8 × Int)
  | [], _ => []
  | bct :: rest, beeOffset => beesFrom bct beeOffset ++ rest.flatMap (beesFrom · 0)

/-- `{bct.txid, bct.honeyAddress, bct.communityContrib, offset, count}`. -/
def beeRange (bct : CBeeCreationTransactionInfo) (offset count : Int) : CBeeRange :=
  ⟨bct.txid, bct.communityContrib, offset, count⟩

/-- The `do … while (bct.beeStatus != "mature")` after a BCT went into a bin
whole: the iterator moves past it to the next mature BCT, or to the end. -/
def nextMature : List CBeeCreationTransactionInfo → List CBeeCreationTransactionInfo
  | [] => []
  | _ :: rest => rest.dropWhile (·.beeStatus != "mature")

theorem length_nextMature_lt (bct : CBeeCreationTransactionInfo)
    (rest : List CBeeCreationTransactionInfo) :
    (nextMature (bct :: rest)).length < (bct :: rest).length :=
  Nat.lt_succ_of_le (List.length_dropWhile_le _ rest)

/-- The inner loop: fill one bin from the BCT at the iterator on, `beeOffset` of
it binned and `beesInBin` bees in the bin. The bin's ranges, the iterator and
`beeOffset` after. -/
def fillBin (beesPerBin : Int) (bcts : List CBeeCreationTransactionInfo)
    (beeOffset beesInBin : Int) : List CBeeRange × List CBeeCreationTransactionInfo × Int :=
  match bcts with
  | [] => ([], [], beeOffset)
  | bct :: rest =>
    let spaceLeft := beesPerBin - beesInBin
    if bct.beeCount - beeOffset ≤ spaceLeft then
      -- all the bees from this BCT, and on to the next
      let (bin, it, off) := fillBin beesPerBin (nextMature (bct :: rest)) 0
        (beesInBin + (bct.beeCount - beeOffset))
      (beeRange bct beeOffset (bct.beeCount - beeOffset) :: bin, it, off)
    else
      -- what fits, the rest for the next bin
      ([beeRange bct beeOffset spaceLeft], bct :: rest, beeOffset + spaceLeft)
termination_by bcts.length
decreasing_by exact length_nextMature_lt bct rest

/-- The outer loop with `fuel` passes left: the bins, or `none` when the fuel runs
out before the BCTs do. -/
def binBees (beesPerBin : Int) :
    Nat → List CBeeCreationTransactionInfo → Int → Option (List (List CBeeRange))
  | _, [], _ => some []
  | 0, _ :: _, _ => none
  | fuel + 1, bct :: rest, beeOffset =>
    let (bin, it, off) := fillBin beesPerBin (bct :: rest) beeOffset 0
    (binBees beesPerBin fuel it off).map (bin :: ·)

/-- `ceil(totalBees / (float)threadCount)`: both converted to `float` and divided
in single precision. -/
def beesPerBin (totalBees threadCount : Int) : Int :=
  ⌈Binary32.round (Binary32.round totalBees / Binary32.round threadCount)⌉

/-- The thread count `BusyBees` takes from `-hivecheckthreads` and the number of
virtual cores. -/
def hiveCheckThreads (arg coreCount : Int) : Int :=
  if arg = -2 then max 1 (coreCount - 1)
  else if arg < 0 ∨ arg > coreCount then coreCount
  else if arg = 0 then 1
  else arg

/-- The bins `BusyBees` makes from the wallet's BCTs with `fuel` passes of the outer
loop: none for its early `return false` when there are no mature bees, `none`
when the fuel runs out. -/
def BusyBeesBins (fuel : Nat) (potentialBctsWallet : List CBeeCreationTransactionInfo)
    (threadCount : Int) : Option (List (List CBeeRange)) :=
  let potentialBcts := potentialBctsWallet.filter (·.beeStatus == "mature")
  let totalBees := (potentialBcts.map (·.beeCount)).sum
  if potentialBcts.isEmpty ∨ totalBees = 0 then some []
  else binBees (beesPerBin totalBees threadCount) fuel potentialBcts 0

/-! ## One bin -/

section Bin

variable (beesPerBin : Int)

/-- The iterator's invariant: mature BCTs with non-negative counts, and the offset
inside the BCT it is on. -/
def BinIter (it : List CBeeCreationTransactionInfo) (beeOffset : Int) : Prop :=
  (∀ b ∈ it, b.beeStatus = "mature" ∧ 0 ≤ b.beeCount) ∧
    ∀ b rest, it = b :: rest → 0 ≤ beeOffset ∧ beeOffset ≤ b.beeCount

/-- What one pass of the inner loop leaves from the `pending` bees with `space`
left in the bin: the bin holds the first `space` of them and the iterator the
rest, the iterator stops short of the end only with bees left, the ranges are not
negative and the iterator's invariant holds again. -/
structure FillsBin (space : Nat) (pending : List (List UInt8 × Int))
    (result : List CBeeRange × List CBeeCreationTransactionInfo × Int) : Prop where
  bin_bees : result.1.flatMap CBeeRange.bees = pending.take space
  rest_bees : pendingBees result.2.1 result.2.2 = pending.drop space
  stops : result.2.1 = [] ∨ pendingBees result.2.1 result.2.2 ≠ []
  ranges : ∀ r ∈ result.1, 0 ≤ r.offset ∧ 0 ≤ r.count
  iter : BinIter result.2.1 result.2.2

@[simp] theorem pendingBees_nil (beeOffset : Int) : pendingBees [] beeOffset = [] := rfl

theorem pendingBees_cons (bct : CBeeCreationTransactionInfo)
    (rest : List CBeeCreationTransactionInfo) (beeOffset : Int) :
    pendingBees (bct :: rest) beeOffset = beesFrom bct beeOffset ++ rest.flatMap (beesFrom · 0) :=
  rfl

theorem pendingBees_zero (bcts : List CBeeCreationTransactionInfo) :
    pendingBees bcts 0 = bcts.flatMap (beesFrom · 0) := by
  cases bcts with
  | nil => rfl
  | cons bct rest => rfl

theorem length_beesFrom (bct : CBeeCreationTransactionInfo) (beeOffset : Int) :
    (beesFrom bct beeOffset).length = (bct.beeCount - beeOffset).toNat := by
  simp [beesFrom]

theorem length_bees (r : CBeeRange) : r.bees.length = r.count.toNat := by
  simp [CBeeRange.bees]

/-- A BCT's bees from `beeOffset` are a range of `s` of them and the bees from
`beeOffset + s`. -/
theorem beesFrom_split (bct : CBeeCreationTransactionInfo) (beeOffset s : Int) (hs : 0 ≤ s)
    (hle : s ≤ bct.beeCount - beeOffset) :
    beesFrom bct beeOffset = (beeRange bct beeOffset s).bees ++ beesFrom bct (beeOffset + s) := by
  have hlen : (bct.beeCount - beeOffset).toNat = s.toNat + (bct.beeCount - (beeOffset + s)).toNat := by
    omega
  simp only [beesFrom, CBeeRange.bees, beeRange, hlen, List.range_add, List.map_append,
    List.map_map]
  congr 2
  funext i
  simp only [Function.comp_apply, Prod.mk.injEq, true_and]
  push_cast
  rw [Int.toNat_of_nonneg hs]
  ring

/-- Past a BCT of mature ones, the iterator lands on the next. -/
theorem nextMature_of_mature {bct : CBeeCreationTransactionInfo}
    {rest : List CBeeCreationTransactionInfo} (h : ∀ b ∈ rest, b.beeStatus = "mature") :
    nextMature (bct :: rest) = rest := by
  rw [nextMature, List.dropWhile_eq_self_iff]
  intro hl
  simp [h _ (List.getElem_mem hl)]

/-- The inner loop over mature BCTs, by induction on the BCTs left: a BCT that fits
adds its pending bees and the loop goes on from the next, one that does not adds
the space left and stops on it. -/
theorem fillBin_spec : ∀ (bcts : List CBeeCreationTransactionInfo) (beeOffset beesInBin : Int),
    BinIter bcts beeOffset → beesInBin ≤ beesPerBin →
    FillsBin (beesPerBin - beesInBin).toNat (pendingBees bcts beeOffset)
      (fillBin beesPerBin bcts beeOffset beesInBin)
  | [], beeOffset, beesInBin, _, _ => by
    rw [fillBin]
    exact ⟨by simp, by simp, .inl rfl, by simp, ⟨by simp, by simp⟩⟩
  | bct :: rest, beeOffset, beesInBin, ⟨hit, hoff⟩, hin => by
    obtain ⟨hoff₀, hoff₁⟩ := hoff bct rest rfl
    have hrest : ∀ b ∈ rest, b.beeStatus = "mature" ∧ 0 ≤ b.beeCount :=
      fun b hb => hit b (List.mem_cons_of_mem _ hb)
    rw [fillBin]
    dsimp only
    by_cases hfit : bct.beeCount - beeOffset ≤ beesPerBin - beesInBin
    · -- the whole BCT goes in; the loop goes on from the next BCT with offset 0
      rw [if_pos hfit, nextMature_of_mature (fun b hb => (hrest b hb).1)]
      have ih := fillBin_spec rest 0 (beesInBin + (bct.beeCount - beeOffset))
        ⟨hrest, fun b r h => ⟨le_rfl, (hrest b (h ▸ List.mem_cons_self)).2⟩⟩ (by omega)
      rcases hres : fillBin beesPerBin rest 0 (beesInBin + (bct.beeCount - beeOffset)) with
        ⟨bin, it, off⟩
      rw [hres] at ih
      have hA : (beesFrom bct beeOffset).length ≤ (beesPerBin - beesInBin).toNat := by
        rw [length_beesFrom]
        omega
      have hs : (beesPerBin - beesInBin).toNat - (beesFrom bct beeOffset).length =
          (beesPerBin - (beesInBin + (bct.beeCount - beeOffset))).toNat := by
        rw [length_beesFrom]
        omega
      have hbees : (beeRange bct beeOffset (bct.beeCount - beeOffset)).bees =
          beesFrom bct beeOffset := rfl
      refine ⟨?_, ?_, ih.stops, ?_, ih.iter⟩
      · simp only [List.flatMap_cons, hbees, ih.bin_bees, pendingBees_cons, List.take_append,
          List.take_of_length_le hA, hs, pendingBees_zero]
      · simp only [ih.rest_bees, pendingBees_cons, List.drop_append, List.drop_of_length_le hA,
          List.nil_append, hs, pendingBees_zero]
      · intro r hr
        rcases List.mem_cons.mp hr with rfl | hr
        · exact ⟨hoff₀, by simp only [beeRange]; omega⟩
        · exact ih.ranges r hr
    · -- what fits goes in, and the loop stops on this BCT
      rw [if_neg hfit]
      have hsplit := beesFrom_split bct beeOffset (beesPerBin - beesInBin) (by omega) (by omega)
      have hlen : (beeRange bct beeOffset (beesPerBin - beesInBin)).bees.length =
          (beesPerBin - beesInBin).toNat := length_bees _
      refine ⟨?_, ?_, .inr ?_, ?_, ⟨hit, fun b r h => ?_⟩⟩
      · simp only [List.flatMap_cons, List.flatMap_nil, List.append_nil, pendingBees_cons, hsplit,
          List.append_assoc, List.take_left' hlen]
      · simp only [pendingBees_cons, hsplit, List.append_assoc, List.drop_left' hlen]
      · have hpos : 0 < (beesFrom bct (beeOffset + (beesPerBin - beesInBin))).length := by
          rw [length_beesFrom]
          omega
        rw [pendingBees_cons]
        exact List.ne_nil_of_length_pos (by simp only [List.length_append]; omega)
      · intro r hr
        rcases List.mem_singleton.mp hr with rfl
        exact ⟨hoff₀, by simp only [beeRange]; omega⟩
      · dsimp only at h ⊢
        cases h
        exact ⟨by omega, by omega⟩

end Bin

/-! ## The bins -/

section Bins

variable {beesPerBin : Int}

/-- The outer loop, by induction on the fuel: each pass takes the next
`beesPerBin` pending bees into a bin, at least one, so a pass per pending bee is
enough fuel. -/
theorem binBees_chunks (hP : 1 ≤ beesPerBin) : ∀ (fuel : Nat)
    (it : List CBeeCreationTransactionInfo) (beeOffset : Int), BinIter it beeOffset →
    (it = [] ∨ pendingBees it beeOffset ≠ []) → (pendingBees it beeOffset).length ≤ fuel →
    ∃ bins, binBees beesPerBin fuel it beeOffset = some bins ∧
      IsChunking beesPerBin.toNat (bins.map (·.flatMap CBeeRange.bees))
        (pendingBees it beeOffset) ∧
      ∀ bin ∈ bins, ∀ r ∈ bin, 0 ≤ r.offset ∧ 0 ≤ r.count
  | _, [], _, _, _, _ => ⟨[], by rw [binBees], rfl, by simp⟩
  | 0, _ :: _, _, _, hstops, hlen => by
    have hne := hstops.resolve_left (List.cons_ne_nil _ _)
    exact absurd (List.length_pos_iff.mpr hne) (by omega)
  | fuel + 1, bct :: rest, beeOffset, hit, hstops, hlen => by
    have hne := hstops.resolve_left (List.cons_ne_nil _ _)
    have hpend := List.length_pos_iff.mpr hne
    have hfill := fillBin_spec beesPerBin (bct :: rest) beeOffset 0 hit (by omega)
    rw [Int.sub_zero] at hfill
    rcases hres : fillBin beesPerBin (bct :: rest) beeOffset 0 with ⟨bin, it, off⟩
    rw [hres] at hfill
    obtain ⟨bins, hrun, hchunks, hranges⟩ := binBees_chunks hP fuel it off hfill.iter
      hfill.stops (by rw [hfill.rest_bees, List.length_drop]; omega)
    refine ⟨bin :: bins, by rw [binBees, hres]; simp [hrun], ?_, ?_⟩
    · -- the bin is the first `beesPerBin` pending bees, full unless it is the last
      have htake : (bin.flatMap CBeeRange.bees) = (pendingBees (bct :: rest) beeOffset).take
          beesPerBin.toNat := hfill.bin_bees
      simp only [List.map_cons]
      refine ⟨?_, ?_, fun hmore => ?_, (pendingBees (bct :: rest) beeOffset).drop beesPerBin.toNat,
        ?_, ?_⟩
      · rw [htake]
        exact List.ne_nil_of_length_pos (by rw [List.length_take]; omega)
      · rw [htake, List.length_take]
        omega
      · -- more bins follow only when the iterator stopped with bees left
        have hit' : it ≠ [] := by
          rintro rfl
          simp [binBees] at hrun
          simp [← hrun] at hmore
        have hrest := hfill.stops.resolve_left hit'
        rw [hfill.rest_bees] at hrest
        have hlt : beesPerBin.toNat < (pendingBees (bct :: rest) beeOffset).length := by
          by_contra hge
          exact hrest (List.drop_eq_nil_of_le (by omega))
        rw [htake, List.length_take]
        omega
      · rw [htake, List.take_append_drop]
      · rw [← hfill.rest_bees]
        exact hchunks
    · intro b hb
      rcases List.mem_cons.mp hb with rfl | hb
      · exact hfill.ranges
      · exact hranges b hb

end Bins

/-! ## `BusyBees` -/

section BusyBees

/-- The bees of a BCT from the start: its txid with each index below its count. -/
theorem mem_beesFrom_zero {bct : CBeeCreationTransactionInfo} {p : List UInt8 × Int} :
    p ∈ beesFrom bct 0 ↔ p.1 = bct.txid ∧ 0 ≤ p.2 ∧ p.2 < bct.beeCount := by
  obtain ⟨t, i⟩ := p
  simp only [beesFrom, Int.sub_zero, List.mem_map, List.mem_range, Int.zero_add, Prod.mk.injEq]
  constructor
  · rintro ⟨j, hj, rfl, rfl⟩
    exact ⟨rfl, by omega, by omega⟩
  · rintro ⟨rfl, h₀, h₁⟩
    exact ⟨i.toNat, by omega, rfl, by omega⟩

theorem length_flatMap_beesFrom : ∀ {bcts : List CBeeCreationTransactionInfo},
    (∀ b ∈ bcts, 0 ≤ b.beeCount) →
    ((bcts.flatMap (beesFrom · 0)).length : Int) = (bcts.map (·.beeCount)).sum
  | [], _ => rfl
  | bct :: rest, h => by
    have ih := length_flatMap_beesFrom (fun b hb => h b (List.mem_cons_of_mem _ hb))
    have hb := h bct List.mem_cons_self
    simp only [List.flatMap_cons, List.length_append, length_beesFrom, List.map_cons,
      List.sum_cons, Nat.cast_add, ih]
    omega

/-- With distinct txids no bee is listed twice. -/
theorem nodup_flatMap_beesFrom {bcts : List CBeeCreationTransactionInfo}
    (htxid : (bcts.map (·.txid)).Nodup) : (bcts.flatMap (beesFrom · 0)).Nodup := by
  rw [List.nodup_flatMap]
  refine ⟨fun b _ => ?_, ?_⟩
  · exact List.nodup_range.map fun i j h => by simpa using h
  · have hne := List.pairwise_map.mp htxid
    refine hne.imp fun {a b} hab p hpa hpb => hab ?_
    rw [← (mem_beesFrom_zero.mp hpa).1, (mem_beesFrom_zero.mp hpb).1]

/-- Over ranges with non-negative counts, the counts add up to the bees. -/
theorem sum_count_eq_length_bees : ∀ {bin : List CBeeRange}, (∀ r ∈ bin, 0 ≤ r.count) →
    (bin.map (·.count)).sum = ((bin.flatMap CBeeRange.bees).length : Int)
  | [], _ => rfl
  | r :: rest, h => by
    have ih := sum_count_eq_length_bees (fun r hr => h r (List.mem_cons_of_mem _ hr))
    have hr := h r List.mem_cons_self
    simp only [List.map_cons, List.sum_cons, List.flatMap_cons, List.length_append, length_bees,
      Nat.cast_add, ih]
    omega

/-- For `1 ≤ totalBees ≤ 2^24` bees the single-precision ceiling is the exact one. -/
theorem beesPerBin_eq_ceil {totalBees threadCount : Int} (hB : 1 ≤ totalBees)
    (hB24 : totalBees ≤ 2 ^ 24) (ht : 1 ≤ threadCount) :
    beesPerBin totalBees threadCount = ⌈(totalBees : ℚ) / threadCount⌉ := by
  obtain ⟨B, rfl⟩ := Int.eq_ofNat_of_zero_le (show 0 ≤ totalBees by omega)
  obtain ⟨t, rfl⟩ := Int.eq_ofNat_of_zero_le (show 0 ≤ threadCount by omega)
  simp only [beesPerBin, Int.cast_natCast]
  exact Binary32.ceil_round_div (by omega) (by omega) (by omega)

/-- With at least one core the thread count is at least one. -/
theorem one_le_hiveCheckThreads (arg : Int) {coreCount : Int} (hc : 1 ≤ coreCount) :
    1 ≤ hiveCheckThreads arg coreCount := by
  unfold hiveCheckThreads
  split_ifs <;> omega

/-- The binning of `BusyBees` over a non-empty list of mature BCTs with distinct
txids, `B` bees in all with `1 ≤ B ≤ 2^24`, and at least one thread: within `B`
passes the loop ends, its ranges list every bee `(txid, i)`, `0 ≤ i < beeCount`,
exactly once and nothing else, no range is negative, `beesPerBin` is
`⌈B / threadCount⌉` and no bin holds more, and there are at most `threadCount`
bins. -/
theorem BusyBees_bins_partition {L : List CBeeCreationTransactionInfo} {B threadCount : Int}
    (hne : L ≠ []) (hmature : ∀ b ∈ L, b.beeStatus = "mature")
    (htxid : (L.map (·.txid)).Nodup) (hcount : ∀ b ∈ L, 0 ≤ b.beeCount)
    (hsum : (L.map (·.beeCount)).sum = B) (hB : 1 ≤ B) (hB24 : B ≤ 2 ^ 24)
    (ht : 1 ≤ threadCount) (fuel : Nat) (hfuel : B.toNat ≤ fuel) :
    ∃ bins, BusyBeesBins fuel L threadCount = some bins ∧
      (bins.flatMap (·.flatMap CBeeRange.bees)).Nodup ∧
      (∀ p, p ∈ bins.flatMap (·.flatMap CBeeRange.bees) ↔
        ∃ b ∈ L, p.1 = b.txid ∧ 0 ≤ p.2 ∧ p.2 < b.beeCount) ∧
      (∀ bin ∈ bins, ∀ r ∈ bin, 0 ≤ r.offset ∧ 0 ≤ r.count) ∧
      beesPerBin B threadCount = ⌈(B : ℚ) / threadCount⌉ ∧
      (∀ bin ∈ bins, (bin.map (·.count)).sum ≤ beesPerBin B threadCount) ∧
      bins.length ≤ threadCount := by
  -- `beesPerBin` is the exact ceiling: at least 1, and `threadCount` bins hold `B`
  have hP := beesPerBin_eq_ceil hB hB24 ht
  have hP1 : 1 ≤ beesPerBin B threadCount := by
    rw [hP, Int.one_le_ceil_iff]
    exact div_pos (by exact_mod_cast hB) (by exact_mod_cast ht)
  have hPt : B ≤ beesPerBin B threadCount * threadCount := by
    have hle := Int.le_ceil ((B : ℚ) / threadCount)
    rw [← hP, div_le_iff₀ (by exact_mod_cast ht)] at hle
    exact_mod_cast hle
  -- the loop runs on all of `L` from offset 0, over its `B` bees
  have hlen : ((pendingBees L 0).length : Int) = B := by
    rw [pendingBees_zero, length_flatMap_beesFrom hcount, hsum]
  have hrun : BusyBeesBins fuel L threadCount = binBees (beesPerBin B threadCount) fuel L 0 := by
    have hfilter : L.filter (·.beeStatus == "mature") = L :=
      List.filter_eq_self.mpr fun b hb => by simp [hmature b hb]
    simp only [BusyBeesBins, hfilter, hsum, List.isEmpty_iff, hne, false_or,
      show B ≠ 0 by omega, if_false]
  obtain ⟨bins, hbins, hchunks, hranges⟩ := binBees_chunks hP1 fuel L 0
    ⟨fun b hb => ⟨hmature b hb, hcount b hb⟩, fun b _ h => ⟨le_rfl, hcount b (h ▸ List.mem_cons_self)⟩⟩
    (.inr (List.ne_nil_of_length_pos (by omega))) (by omega)
  have hcover : bins.flatMap (·.flatMap CBeeRange.bees) = L.flatMap (beesFrom · 0) := by
    rw [List.flatMap_def, hchunks.flatten_eq, pendingBees_zero]
  refine ⟨bins, hrun.trans hbins, ?_, ?_, hranges, hP, ?_, ?_⟩
  · rw [hcover]
    exact nodup_flatMap_beesFrom htxid
  · intro p
    rw [hcover, List.mem_flatMap]
    simp only [mem_beesFrom_zero]
  · -- a bin's count is its bees, at most `beesPerBin`
    intro bin hbin
    rw [sum_count_eq_length_bees fun r hr => (hranges bin hbin r hr).2]
    have hle := hchunks.length_le _ (List.mem_map_of_mem hbin)
    omega
  · -- all bins but the last are full and the last is not empty
    by_cases hnil : bins = []
    · rw [hnil, List.length_nil]
      omega
    have hlt := hchunks.length_mul_lt (by simpa using hnil)
    rw [List.length_map] at hlt
    have hmul : (bins.length - 1) * (beesPerBin B threadCount).toNat <
        threadCount.toNat * (beesPerBin B threadCount).toNat := by
      have : B.toNat ≤ threadCount.toNat * (beesPerBin B threadCount).toNat := by
        have h := Int.toNat_le_toNat hPt
        rwa [Int.toNat_mul (by omega) (by omega), Nat.mul_comm] at h
      omega
    have := Nat.lt_of_mul_lt_mul_right hmul
    omega

/-- A mature BCT of `beeCount` bees, its other fields zero. -/
def matureBct (txid : List UInt8) (beeCount : Int) : CBeeCreationTransactionInfo :=
  ⟨txid, 0, beeCount, 0, false, "mature", "", 0, 0, 0, 0, 0, 0, 0⟩

/-- Three bees and two in two BCTs, binned for two threads. -/
theorem BusyBees_bins_partition_two_bcts :
    ∃ bins, BusyBeesBins 5 [matureBct [0x61] 3, matureBct [0x62] 2] 2 = some bins ∧
      (bins.flatMap (·.flatMap CBeeRange.bees)).Nodup ∧
      (∀ p, p ∈ bins.flatMap (·.flatMap CBeeRange.bees) ↔
        ∃ b ∈ [matureBct [0x61] 3, matureBct [0x62] 2], p.1 = b.txid ∧ 0 ≤ p.2 ∧
          p.2 < b.beeCount) ∧
      (∀ bin ∈ bins, ∀ r ∈ bin, 0 ≤ r.offset ∧ 0 ≤ r.count) ∧
      beesPerBin 5 2 = ⌈((5 : Int) : ℚ) / (2 : Int)⌉ ∧
      (∀ bin ∈ bins, (bin.map (·.count)).sum ≤ beesPerBin 5 2) ∧
      (bins.length : Int) ≤ 2 :=
  @BusyBees_bins_partition [matureBct [0x61] 3, matureBct [0x62] 2] 5 2 (by simp)
    (by simp [matureBct]) (by simp [matureBct])
    (by simp [matureBct]) (by simp [matureBct]) (by norm_num) (by norm_num) (by norm_num) 5
    (by decide)

end BusyBees

end Cascoin
