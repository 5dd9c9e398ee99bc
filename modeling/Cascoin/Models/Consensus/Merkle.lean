import Cascoin.Core.MerkleTree
import Cascoin.Core.Checked
import Cascoin.Models.Primitives.Transaction

/-!
# The merkle root of a block

`MerkleComputation` of `consensus/merkle.cpp` computes the merkle root and the branch
of one position in constant space. It keeps a `uint32_t` count of the leaves read so
far and, for each set bit `l` of it, the hash of a whole subtree of `2^l` leaves in
`inner[l]`; a new leaf is hashed with the stored subtrees it completes, as a carry
ripples through the count. A final sweep pairs the last hash of each odd level with
itself and hashes in the stored subtrees up to the root. `matchlevel` records which
stored hash covers the position whose branch is built.

The hash is a parameter `Hash`, `CHash256` of the two 32-byte halves.

After `c` leaves the stored hashes are the nodes `c / 2^l - 1` of the levels of the
tree (`LeafInv`); each combination is a step of `MerkleTree.pairUp`. Up to `2^31`
leaves the computation returns the root of `MerkleTree.merkleRoot`, reports `mutated`
exactly when two siblings over whole blocks of leaves are equal, and builds the
branch of `MerkleTree.merkleBranch`, from which `ComputeMerkleRootFromBranch` climbs
back to the root. Above `2^31` leaves the count wraps in the sweep and the loop
shifts past the width of `uint32_t`.
-/

namespace Cascoin

open MerkleTree

/-- `uint256()`, the zero hash. -/
instance : Inhabited Uint256 := ⟨Uint256.zero⟩

/-- The locals the hashing loops change: `level`, the hash `h`, `matchh` (whether `h`
covers the position of the branch), `mutated` and the branch built so far. -/
structure MerkleCarry where
  level : ℕ
  h : Uint256
  matchh : Bool
  mutated : Bool
  branch : List Uint256

/-- The locals kept from leaf to leaf: `count`, `inner`, `matchlevel` (`-1` for none),
`mutated` and the branch. -/
structure MerkleState where
  count : ℕ
  inner : ℕ → Uint256
  matchlevel : Int
  mutated : Bool
  branch : List Uint256

section Model

variable {ε : Type} (Hash : Uint256 → Uint256 → Uint256)

/-- The branch bookkeeping before `inner[level]` and `h` are hashed together:
```
if (pbranch) {
    if (matchh) pbranch->push_back(inner[level]);
    else if (matchlevel == level) { pbranch->push_back(h); matchh = true; }
}
```
Returns the branch and `matchh`. -/
def pushSibling (pbranch matchh : Bool) (matchlevel : Int) (level : ℕ) (left h : Uint256)
    (branch : List Uint256) : List Uint256 × Bool :=
  if pbranch then
    if matchh then (branch ++ [left], true)
    else if matchlevel = level then (branch ++ [h], true)
    else (branch, false)
  else (branch, matchh)

/-- The loop `for (level = 0; !(count & (1 << level)); level++)` over the levels a new
leaf completes: the stored `inner[level]` is compared with `h` for `mutated` and
hashed with it. `fuel` is `32 - level`; at level 32 the shift leaves `uint32_t`. -/
def MerkleComputation.carry (pbranch : Bool) (count : ℕ) (inner : ℕ → Uint256)
    (matchlevel : Int) : ℕ → MerkleCarry → Checked ε MerkleCarry
  | 0, _ => .error (.fault .outOfRange)
  | fuel + 1, k =>
    if count &&& 1 <<< k.level = 0 then
      let pushed := pushSibling pbranch k.matchh matchlevel k.level (inner k.level) k.h k.branch
      MerkleComputation.carry pbranch count inner matchlevel fuel
        { level := k.level + 1, h := Hash (inner k.level) k.h, matchh := pushed.2,
          mutated := k.mutated || inner k.level == k.h, branch := pushed.1 }
    else .ok k

/-- One pass of `while (count < leaves.size())` for the leaf `h`. The count stays below
`leaves.size()`, which is below `2^32` here, so `count++` does not wrap. -/
def MerkleComputation.leaf (branchpos : ℕ) (pbranch : Bool) (s : MerkleState) (h : Uint256) :
    Checked ε MerkleState := do
  let k ← MerkleComputation.carry Hash pbranch (s.count + 1) s.inner s.matchlevel 32
    { level := 0, h, matchh := s.count == branchpos, mutated := s.mutated, branch := s.branch }
  return { count := s.count + 1, inner := Function.update s.inner k.level k.h,
           matchlevel := if k.matchh then k.level else s.matchlevel,
           mutated := k.mutated, branch := k.branch }

/-- `while (!(count & (1 << level))) level++;`, the lowest set bit of the count. -/
def MerkleComputation.lowestLevel (count : ℕ) : ℕ → ℕ → Checked ε ℕ
  | 0, _ => .error (.fault .outOfRange)
  | fuel + 1, level =>
    if count &&& 1 <<< level = 0 then MerkleComputation.lowestLevel count fuel (level + 1)
    else .ok level

/-- The inner loop of the sweep, `while (!(count & (1 << level)))`: the loop of
`carry` without the `mutated` comparison. -/
def MerkleComputation.sweepCarry (pbranch : Bool) (count : ℕ) (inner : ℕ → Uint256)
    (matchlevel : Int) : ℕ → MerkleCarry → Checked ε MerkleCarry
  | 0, _ => .error (.fault .outOfRange)
  | fuel + 1, k =>
    if count &&& 1 <<< k.level = 0 then
      let pushed := pushSibling pbranch k.matchh matchlevel k.level (inner k.level) k.h k.branch
      MerkleComputation.sweepCarry pbranch count inner matchlevel fuel
        { k with level := k.level + 1, h := Hash (inner k.level) k.h, matchh := pushed.2,
                 branch := pushed.1 }
    else .ok k

/-- The final sweep `while (count != (1 << level))`: the last hash of an odd level is
hashed with itself, `count += 1 << level` (modulo `2^32`) and the stored hashes of
the levels the new count skips are hashed in. -/
def MerkleComputation.sweep (pbranch : Bool) (inner : ℕ → Uint256) (matchlevel : Int) :
    ℕ → ℕ → MerkleCarry → Checked ε MerkleCarry
  | 0, _, _ => .error (.fault .outOfRange)
  | fuel + 1, count, k =>
    if count = 1 <<< k.level then .ok k
    else do
      let count := (count + 1 <<< k.level) % 2 ^ 32
      let k ← MerkleComputation.sweepCarry Hash pbranch count inner matchlevel (32 - (k.level + 1))
        { k with level := k.level + 1, h := Hash k.h k.h,
                 branch := if pbranch && k.matchh then k.branch ++ [k.h] else k.branch }
      MerkleComputation.sweep pbranch inner matchlevel fuel count k

/-- `MerkleComputation(leaves, proot, pmutated, branchpos, pbranch)`: the root, `mutated`
and the branch, built when `pbranch` is set. -/
def MerkleComputation (leaves : List Uint256) (branchpos : ℕ) (pbranch : Bool) :
    Checked ε (Uint256 × Bool × List Uint256) :=
  if leaves = [] then .ok (Uint256.zero, false, [])
  else do
    let s ← leaves.foldlM (MerkleComputation.leaf Hash branchpos pbranch)
      { count := 0, inner := fun _ => Uint256.zero, matchlevel := -1, mutated := false,
        branch := [] }
    let level ← MerkleComputation.lowestLevel s.count 32 0
    let k ← MerkleComputation.sweep Hash pbranch s.inner s.matchlevel (32 - level) s.count
      { level, h := s.inner level, matchh := s.matchlevel == level, mutated := s.mutated,
        branch := s.branch }
    return (k.h, k.mutated, k.branch)

/-- `ComputeMerkleRoot(leaves, &mutated)`, with `branchpos` the `uint32_t` of `-1`. -/
def ComputeMerkleRoot (leaves : List Uint256) : Checked ε (Uint256 × Bool) :=
  (fun r => (r.1, r.2.1)) <$> MerkleComputation Hash leaves (2 ^ 32 - 1) false

/-- `ComputeMerkleBranch(leaves, position)`. -/
def ComputeMerkleBranch (leaves : List Uint256) (position : ℕ) : Checked ε (List Uint256) :=
  (fun r => r.2.2) <$> MerkleComputation Hash leaves position true

/-- `ComputeMerkleRootFromBranch(leaf, vMerkleBranch, nIndex)`: the leaf hashed with each
entry of the branch, on the right when bit 0 of the index is set. -/
def ComputeMerkleRootFromBranch (hash : Uint256) : List Uint256 → ℕ → Uint256
  | [], _ => hash
  | it :: rest, nIndex =>
    ComputeMerkleRootFromBranch (if nIndex &&& 1 = 1 then Hash it hash else Hash hash it) rest
      (nIndex >>> 1)

end Model

/-! ## One turn of each loop -/

section Turns

variable {ε : Type} (Hash : Uint256 → Uint256 → Uint256) {pbranch : Bool} {count : ℕ}
  {inner : ℕ → Uint256} {matchlevel : Int} {fuel : ℕ} {k : MerkleCarry}

theorem carry_of_even (hbit : count / 2 ^ k.level % 2 = 0) :
    (MerkleComputation.carry Hash pbranch count inner matchlevel (fuel + 1) k : Checked ε _) =
      MerkleComputation.carry Hash pbranch count inner matchlevel fuel
        { level := k.level + 1, h := Hash (inner k.level) k.h,
          matchh := (pushSibling pbranch k.matchh matchlevel k.level (inner k.level) k.h k.branch).2,
          mutated := k.mutated || inner k.level == k.h,
          branch := (pushSibling pbranch k.matchh matchlevel k.level (inner k.level) k.h k.branch).1 } := by
  rw [MerkleComputation.carry, if_pos ((and_one_shiftLeft_eq_zero_iff _ _).mpr hbit)]

theorem carry_of_odd (hbit : count / 2 ^ k.level % 2 = 1) :
    (MerkleComputation.carry Hash pbranch count inner matchlevel (fuel + 1) k : Checked ε _) = .ok k := by
  rw [MerkleComputation.carry, if_neg (by rw [and_one_shiftLeft_eq_zero_iff]; omega)]

theorem sweepCarry_of_even (hbit : count / 2 ^ k.level % 2 = 0) :
    (MerkleComputation.sweepCarry Hash pbranch count inner matchlevel (fuel + 1) k : Checked ε _) =
      MerkleComputation.sweepCarry Hash pbranch count inner matchlevel fuel
        { k with
          level := k.level + 1, h := Hash (inner k.level) k.h,
          matchh := (pushSibling pbranch k.matchh matchlevel k.level (inner k.level) k.h k.branch).2,
          branch := (pushSibling pbranch k.matchh matchlevel k.level (inner k.level) k.h k.branch).1 } := by
  rw [MerkleComputation.sweepCarry, if_pos ((and_one_shiftLeft_eq_zero_iff _ _).mpr hbit)]

theorem sweepCarry_of_odd (hbit : count / 2 ^ k.level % 2 = 1) :
    (MerkleComputation.sweepCarry Hash pbranch count inner matchlevel (fuel + 1) k : Checked ε _) =
      .ok k := by
  rw [MerkleComputation.sweepCarry, if_neg (by rw [and_one_shiftLeft_eq_zero_iff]; omega)]

/-- With the count wrapped to zero no bit stops the loop before level 32. -/
theorem sweepCarry_zero : ∀ fuel k,
    (MerkleComputation.sweepCarry Hash pbranch 0 inner matchlevel fuel k : Checked ε _) =
      .error (.fault .outOfRange) := by
  intro fuel
  induction fuel with
  | zero => intro k; rfl
  | succ fuel ih =>
    intro k
    rw [sweepCarry_of_even Hash (by simp), ih]

theorem lowestLevel_of_even {level : ℕ} (hbit : count / 2 ^ level % 2 = 0) :
    (MerkleComputation.lowestLevel count (fuel + 1) level : Checked ε ℕ) =
      MerkleComputation.lowestLevel count fuel (level + 1) := by
  rw [MerkleComputation.lowestLevel, if_pos ((and_one_shiftLeft_eq_zero_iff _ _).mpr hbit)]

theorem lowestLevel_of_odd {level : ℕ} (hbit : count / 2 ^ level % 2 = 1) :
    (MerkleComputation.lowestLevel count (fuel + 1) level : Checked ε ℕ) = .ok level := by
  rw [MerkleComputation.lowestLevel, if_neg (by rw [and_one_shiftLeft_eq_zero_iff]; omega)]

end Turns

/-! ## The branch on one level -/

section Branch

variable (Hash : Uint256 → Uint256 → Uint256) (L : List Uint256) (p : ℕ)

/-- Where `matchh` and the branch stand on level `l`, `h` being node `x - 1` and the
stored hashes those of a count `S`: `matchh` says that `h` covers position `p`, and
then the branch holds the siblings below `l`; otherwise `p` is not reached, or the
stored hash of level `matchlevel ≥ l` covers it and the branch holds the siblings
below that level. -/
structure BranchAt (matchlevel : Int) (S l x : ℕ) (matchh : Bool) (branch : List Uint256) :
    Prop where
  matchh_iff : matchh = true ↔ p / 2 ^ l + 1 = x
  of_matchh : matchh = true → branch = branchUpTo Hash L p l
  of_not : matchh = false → (x * 2 ^ l ≤ p ∧ matchlevel = -1 ∧ branch = []) ∨
    ∃ ml : ℕ, matchlevel = ml ∧ l ≤ ml ∧ S / 2 ^ ml % 2 = 1 ∧ p / 2 ^ ml + 1 = S / 2 ^ ml ∧
      branch = branchUpTo Hash L p ml

/-- Hashing the stored node `x - 2` with node `x - 1` moves the branch one level up. -/
theorem pushSibling_spec {matchlevel : Int} {S l x : ℕ} {matchh : Bool} {branch : List Uint256}
    {left h : Uint256} (hb : BranchAt Hash L p matchlevel S l x matchh branch) (hx : x % 2 = 0)
    (hpos : 0 < x) (hS : S / 2 ^ l = x - 1) (hleft : (level Hash l L)[x - 2]? = some left)
    (hh : (level Hash l L)[x - 1]? = some h) :
    BranchAt Hash L p matchlevel S (l + 1) (x / 2)
      (pushSibling true matchh matchlevel l left h branch).2
      (pushSibling true matchh matchlevel l left h branch).1 := by
  have hhalf := div_pow_succ p l
  cases matchh with
  | true =>
    -- `h` covers `p`: the stored node is its left sibling
    have hpx := hb.matchh_iff.mp rfl
    have hsib : sibling (level Hash l L) (p / 2 ^ l) = left :=
      sibling_of_odd (by omega) (by rwa [show p / 2 ^ l - 1 = x - 2 by omega])
    refine ⟨?_, fun _ => ?_, fun h => absurd h (by simp [pushSibling])⟩
    · simp only [pushSibling, if_true, true_iff]
      omega
    · simp only [pushSibling, if_true, hb.of_matchh rfl, branchUpTo_succ, hsib]
  | false =>
    rcases hb.of_not rfl with ⟨hp, hml, hbr⟩ | ⟨ml, hml, hle, hodd, hpml, hbr⟩
    · -- `p` lies beyond the count
      have hne : matchlevel ≠ l := by rw [hml]; omega
      have hpx : x ≤ p / 2 ^ l := (Nat.le_div_iff_mul_le (Nat.two_pow_pos l)).mpr hp
      refine ⟨?_, fun h => absurd h (by simp [pushSibling, hne]), fun _ => .inl ⟨?_, hml, ?_⟩⟩
      · simp only [pushSibling, if_true, Bool.false_eq_true, if_false, if_neg hne, hhalf,
          false_iff]
        generalize p / 2 ^ l = q at hpx
        omega
      · rwa [← mul_pow_of_even hx]
      · simp [pushSibling, hne, hbr]
    · by_cases hlev : ml = l
      · -- the stored node covers `p`: `h` is its right sibling
        subst hlev
        have hpS : p / 2 ^ ml = x - 2 := by omega
        have hsib : sibling (level Hash ml L) (p / 2 ^ ml) = h :=
          sibling_of_even (by omega) (by rwa [show p / 2 ^ ml + 1 = x - 1 by omega])
        refine ⟨?_, fun _ => ?_, fun h => absurd h (by simp [pushSibling, hml])⟩
        · simp only [pushSibling, Bool.false_eq_true, if_false, hml, if_pos, true_iff]
          omega
        · simp only [pushSibling, Bool.false_eq_true, if_false, hml, if_pos, hbr, branchUpTo_succ,
            hsib]
      · -- neither node covers `p`, and the stored hash of level `ml` still does
        have hne : matchlevel ≠ l := by rw [hml]; exact_mod_cast hlev
        have hnot : p / 2 ^ l ≠ x - 2 := fun heq =>
          hlev (level_unique (c := S) (p := p) (by omega) (by omega) hpml hle).symm
        have hnot' : p / 2 ^ l ≠ x - 1 := fun heq => absurd (hb.matchh_iff.mpr (by omega)) (by simp)
        refine ⟨?_, fun h => absurd h (by simp [pushSibling, hne]), fun _ => .inr ⟨ml, hml, ?_,
          hodd, hpml, ?_⟩⟩
        · simp only [pushSibling, if_true, Bool.false_eq_true, if_false, if_neg hne, false_iff]
          omega
        · omega
        · simp [pushSibling, hne, hbr]

end Branch

/-! ## The loop over the leaves -/

section Leaves

variable {ε : Type} (Hash : Uint256 → Uint256 → Uint256) (L : List Uint256) (p : ℕ)

/-- The stored hashes after `S` leaves: for each set bit `l` of `S`, node `S / 2^l - 1`
of level `l`. -/
def InnerHolds (inner : ℕ → Uint256) (S : ℕ) : Prop :=
  ∀ l, S / 2 ^ l % 2 = 1 → (level Hash l L)[S / 2 ^ l - 1]? = some (inner l)

/-- The invariant of `while (count < leaves.size())` over the leaves `L`, the branch
being that of position `p`. -/
structure LeafInv (pbranch : Bool) (s : MerkleState) : Prop where
  count_le : s.count ≤ L.length
  inner : InnerHolds Hash L s.inner s.count
  mutated : s.mutated = true ↔ EqualSiblingsWithin Hash s.count L
  before : pbranch = true → s.count ≤ p → s.matchlevel = -1 ∧ s.branch = []
  after : pbranch = true → p < s.count → ∃ ml : ℕ, s.matchlevel = ml ∧ s.count / 2 ^ ml % 2 = 1 ∧
    p / 2 ^ ml + 1 = s.count / 2 ^ ml ∧ s.branch = branchUpTo Hash L p ml

/-- The invariant of `carry` for leaf `c`, the count being `c + 1`: `h` is node
`(c + 1) / 2^level - 1` of its level, `mutated` has taken in the pairs the new leaf
completes below `level`. -/
structure CarryInv (pbranch : Bool) (matchlevel : Int) (c : ℕ) (k : MerkleCarry) : Prop where
  count_eq : (c + 1) / 2 ^ k.level * 2 ^ k.level = c + 1
  h_eq : (level Hash k.level L)[(c + 1) / 2 ^ k.level - 1]? = some k.h
  mutated : k.mutated = true ↔ EqualSiblingsWithin Hash c L ∨ ∃ l i, l < k.level ∧
    (2 * i + 2) * 2 ^ l = c + 1 ∧ (level Hash l L)[2 * i]? = (level Hash l L)[2 * i + 1]?
  branch : pbranch = true →
    BranchAt Hash L p matchlevel c k.level ((c + 1) / 2 ^ k.level) k.matchh k.branch

theorem LeafInv.init (pbranch : Bool) :
    LeafInv Hash L p pbranch
      { count := 0, inner := fun _ => Uint256.zero, matchlevel := -1, mutated := false,
        branch := [] } := by
  refine ⟨Nat.zero_le _, fun l hl => by simp at hl, ?_, fun _ _ => ⟨rfl, rfl⟩,
    fun _ hp => absurd hp (Nat.not_lt_zero p)⟩
  simp only [Bool.false_eq_true, false_iff]
  rintro ⟨l, i, hle, -⟩
  have := Nat.two_pow_pos l
  have : 0 < (2 * i + 2) * 2 ^ l := Nat.mul_pos (by omega) this
  omega

/-- The carry starts at level 0 with the new leaf. -/
theorem CarryInv.init {pbranch : Bool} {s : MerkleState} {h : Uint256}
    (hs : LeafInv Hash L p pbranch s) (hh : L[s.count]? = some h) :
    CarryInv Hash L p pbranch s.matchlevel s.count
      { level := 0, h, matchh := s.count == p, mutated := s.mutated, branch := s.branch } := by
  refine ⟨by simp, by simpa using hh, ?_, fun hpb => ⟨?_, ?_, ?_⟩⟩
  · simp only [hs.mutated, Nat.not_lt_zero, false_and, exists_false, or_false]
  · simp only [beq_iff_eq, pow_zero, Nat.div_one]
    omega
  · intro hmatch
    rw [beq_iff_eq] at hmatch
    simp [(hs.before hpb (by omega)).2]
  · intro hmatch
    rw [beq_eq_false_iff_ne] at hmatch
    rcases Nat.lt_or_gt_of_ne hmatch with hlt | hgt
    · exact .inl ⟨by simpa using hlt, (hs.before hpb hlt.le).1, (hs.before hpb hlt.le).2⟩
    · obtain ⟨ml, hml, hodd, hpml, hbr⟩ := hs.after hpb hgt
      exact .inr ⟨ml, hml, Nat.zero_le _, hodd, hpml, hbr⟩

/-- One combination of the carry: the stored node `x - 2` and `h`, node `x - 1`. -/
theorem CarryInv.step {pbranch : Bool} {matchlevel : Int} {c : ℕ} {inner : ℕ → Uint256}
    {k : MerkleCarry} (hk : CarryInv Hash L p pbranch matchlevel c k)
    (hinner : InnerHolds Hash L inner c) (heven : (c + 1) / 2 ^ k.level % 2 = 0) :
    CarryInv Hash L p pbranch matchlevel c
      { level := k.level + 1, h := Hash (inner k.level) k.h,
        matchh := (pushSibling pbranch k.matchh matchlevel k.level (inner k.level) k.h k.branch).2,
        mutated := k.mutated || inner k.level == k.h,
        branch := (pushSibling pbranch k.matchh matchlevel k.level (inner k.level) k.h k.branch).1 } := by
  obtain ⟨hcount, hh, hmut, hbranch⟩ := hk
  have hnext : (c + 1) / 2 ^ (k.level + 1) = (c + 1) / 2 ^ k.level / 2 := div_pow_succ _ _
  generalize hx : (c + 1) / 2 ^ k.level = x at hcount hh hbranch heven hnext
  have hpos : 0 < x := Nat.pos_of_ne_zero (by rintro rfl; simp at hcount)
  have hone := Nat.one_le_two_pow (n := k.level)
  have hstored : c / 2 ^ k.level = x - 1 := div_pow_eq_pred (by omega) (by omega)
  have hleft : (level Hash k.level L)[x - 2]? = some (inner k.level) := by
    have hodd := hinner k.level (by omega)
    rwa [hstored, show x - 1 - 1 = x - 2 by omega] at hodd
  refine ⟨?_, ?_, ?_, fun hpb => ?_⟩
  · rw [hnext, ← mul_pow_of_even heven, hcount]
  · rw [hnext]
    exact getElem?_level_succ_of_even Hash heven hpos hleft hh
  · simp only [Bool.or_eq_true, beq_iff_eq, hmut]
    constructor
    · rintro ((hE | ⟨l, i, hl, hpair, heq⟩) | heq)
      · exact .inl hE
      · exact .inr ⟨l, i, by omega, hpair, heq⟩
      · -- the pair the carry just hashed
        refine .inr ⟨k.level, x / 2 - 1, by omega, ?_, ?_⟩
        · rw [show 2 * (x / 2 - 1) + 2 = x by omega, hcount]
        · rw [show 2 * (x / 2 - 1) + 1 = x - 1 by omega, show 2 * (x / 2 - 1) = x - 2 by omega,
            hleft, hh, heq]
    · rintro (hE | ⟨l, i, hl, hpair, heq⟩)
      · exact .inl (.inl hE)
      · rcases Nat.lt_succ_iff_lt_or_eq.mp hl with hlt | rfl
        · exact .inl (.inr ⟨l, i, hlt, hpair, heq⟩)
        · have hi : 2 * i + 2 = x :=
            Nat.eq_of_mul_eq_mul_right (Nat.two_pow_pos _) (hpair.trans hcount.symm)
          rw [show 2 * i + 1 = x - 1 by omega, show 2 * i = x - 2 by omega, hleft, hh] at heq
          exact .inr (Option.some.inj heq)
  · subst hpb
    rw [hnext]
    exact pushSibling_spec Hash L p (hbranch rfl) heven hpos hstored hleft hh

/-- Below `2^32` leaves the carry stops at a set bit of the count. -/
theorem CarryInv.run {pbranch : Bool} {matchlevel : Int} {c : ℕ} {inner : ℕ → Uint256}
    (hinner : InnerHolds Hash L inner c) (hc : c + 1 < 2 ^ 32) :
    ∀ fuel (k : MerkleCarry), k.level + fuel = 32 → CarryInv Hash L p pbranch matchlevel c k →
      ∃ k', (MerkleComputation.carry Hash pbranch (c + 1) inner matchlevel fuel k : Checked ε _) =
        .ok k' ∧ CarryInv Hash L p pbranch matchlevel c k' ∧ (c + 1) / 2 ^ k'.level % 2 = 1 := by
  intro fuel
  induction fuel with
  | zero =>
    intro k hlevel hk
    have hzero : (c + 1) / 2 ^ k.level = 0 := Nat.div_eq_of_lt (by rw [show k.level = 32 by omega]; exact hc)
    have := hk.count_eq
    rw [hzero, Nat.zero_mul] at this
    omega
  | succ fuel ih =>
    intro k hlevel hk
    rcases Nat.mod_two_eq_zero_or_one ((c + 1) / 2 ^ k.level) with heven | hodd
    · rw [carry_of_even Hash heven]
      exact ih _ (by simp only; omega) (hk.step Hash L p hinner heven)
    · exact ⟨k, carry_of_odd Hash hodd, hk, hodd⟩


/-- One leaf: the carry stops at the lowest set bit of the new count, where its hash is
stored. -/
theorem LeafInv.leaf {pbranch : Bool} {s : MerkleState} {h : Uint256}
    (hs : LeafInv Hash L p pbranch s) (hh : L[s.count]? = some h) (hsize : L.length < 2 ^ 32) :
    ∃ s', (MerkleComputation.leaf Hash p pbranch s h : Checked ε _) = .ok s' ∧
      LeafInv Hash L p pbranch s' ∧ s'.count = s.count + 1 := by
  have hlt : s.count < L.length := (List.getElem?_eq_some_iff.mp hh).1
  obtain ⟨k, hrun, hk, hodd⟩ := CarryInv.run (ε := ε) Hash L p hs.inner (by omega) 32 _ rfl
    (CarryInv.init Hash L p hs hh)
  refine ⟨_, by rw [MerkleComputation.leaf, hrun]; rfl, ?_, rfl⟩
  obtain ⟨hcount, hhk, hmut, hbranch⟩ := hk
  generalize hx : (s.count + 1) / 2 ^ k.level = x at hcount hhk hbranch hodd
  have hone := Nat.one_le_two_pow (n := k.level)
  have hstored : s.count / 2 ^ k.level = x - 1 := div_pow_eq_pred (by omega) (by omega)
  refine ⟨by simp only; omega, fun l hl => ?_, ?_, fun hpb hle => ?_, fun hpb hlt' => ?_⟩
  · -- the new hash is stored at the level the carry stopped at; the levels below are
    -- now clear and those above unchanged
    simp only at hl ⊢
    rcases Nat.lt_trichotomy l k.level with hbelow | rfl | habove
    · rw [← hcount, mul_pow_div_even_of_lt hbelow] at hl
      exact absurd hl (by decide)
    · rw [hx, Function.update_self]
      exact hhk
    · rw [succ_div_pow_of_lt hcount hodd habove] at hl ⊢
      rw [Function.update_of_ne habove.ne']
      exact hs.inner l hl
  · simp only [hmut, EqualSiblingsWithin]
    constructor
    · rintro (⟨l, i, hle, heq⟩ | ⟨l, i, -, hpair, heq⟩)
      · exact ⟨l, i, by omega, heq⟩
      · exact ⟨l, i, hpair.le, heq⟩
    · rintro ⟨l, i, hle, heq⟩
      rcases Nat.lt_or_eq_of_le hle with hlt | hpair
      · exact .inl ⟨l, i, by omega, heq⟩
      · exact .inr ⟨l, i, lt_of_mul_pow_eq (hpair.trans hcount.symm) hodd, hpair, heq⟩
  · -- `p` is not reached: `h` does not cover it and nothing is recorded
    simp only at hle ⊢
    have hb := hbranch hpb
    have hnot : k.matchh = false := by
      rw [Bool.eq_false_iff, ne_eq, hb.matchh_iff]
      intro hpx
      have : p / 2 ^ k.level < x := by omega
      rw [Nat.div_lt_iff_lt_mul (Nat.two_pow_pos _)] at this
      omega
    rcases hb.of_not hnot with ⟨-, hml, hbr⟩ | ⟨ml, -, -, -, hpml, -⟩
    · simp [hnot, hml, hbr]
    · have : p / 2 ^ ml < s.count / 2 ^ ml := by omega
      have := Nat.div_le_div_right (c := 2 ^ ml) (show s.count ≤ p by omega)
      omega
  · have hb := hbranch hpb
    cases hm : k.matchh with
    | true =>
      exact ⟨k.level, by simp, by rwa [hx], by rw [hx]; exact hb.matchh_iff.mp hm,
        hb.of_matchh hm⟩
    | false =>
      rcases hb.of_not hm with ⟨hp, -, -⟩ | ⟨ml, hml, hle, hodd', hpml, hbr⟩
      · simp only at hlt'
        omega
      · -- the stored hash of level `ml` still covers `p`, above the new one
        have hgt : k.level < ml := by
          rcases Nat.lt_or_eq_of_le hle with hlt | rfl
          · exact hlt
          · rw [hstored] at hodd'
            omega
        simp only [Bool.false_eq_true, if_false]
        exact ⟨ml, hml, by rwa [succ_div_pow_of_lt hcount hodd hgt],
          by rwa [succ_div_pow_of_lt hcount hodd hgt], hbr⟩

/-- Below `2^32` leaves the loop over the leaves runs to the end with its invariant. -/
theorem LeafInv.run {pbranch : Bool} (hsize : L.length < 2 ^ 32) :
    ∀ (rest : List Uint256) (s : MerkleState), LeafInv Hash L p pbranch s → L.drop s.count = rest →
      ∃ s', (rest.foldlM (MerkleComputation.leaf Hash p pbranch) s : Checked ε _) = .ok s' ∧
        LeafInv Hash L p pbranch s' ∧ s'.count = L.length := by
  intro rest
  induction rest with
  | nil =>
    intro s hs hdrop
    exact ⟨s, rfl, hs, le_antisymm hs.count_le (List.drop_eq_nil_iff.mp hdrop)⟩
  | cons h rest ih =>
    intro s hs hdrop
    have hh : L[s.count]? = some h := by
      have := congrArg (·[0]?) hdrop
      simpa [List.getElem?_drop] using this
    obtain ⟨s', hleaf, hs', hcount⟩ := hs.leaf (ε := ε) Hash L p hh hsize
    have hdrop' : L.drop s'.count = rest := by
      rw [hcount, ← List.drop_drop, hdrop, List.drop_one, List.tail_cons]
    rw [List.foldlM_cons, hleaf, Checked.ok_bind]
    exact ih s' hs' hdrop'

end Leaves

/-! ## The sweep -/

section Sweep

variable {ε : Type} (Hash : Uint256 → Uint256 → Uint256) (L : List Uint256) (p : ℕ)

/-- The invariant of the sweep on level `k.level`: the count is the length of the level
times `2^level`, less than one node past the leaves; `h` is the last node of the
level and every level below has two nodes or more. -/
structure SweepInv (pbranch : Bool) (matchlevel : Int) (mutated : Bool) (count : ℕ)
    (k : MerkleCarry) : Prop where
  len_eq : (level Hash k.level L).length * 2 ^ k.level = count
  le_count : L.length ≤ count
  count_lt : count < L.length + 2 ^ k.level
  h_eq : (level Hash k.level L)[(level Hash k.level L).length - 1]? = some k.h
  big : ∀ i < k.level, 2 ≤ (level Hash i L).length
  mutated_eq : k.mutated = mutated
  branch : pbranch = true → p < L.length →
    BranchAt Hash L p matchlevel L.length k.level (level Hash k.level L).length k.matchh k.branch

/-- The sweep starts on the lowest set bit `l0` of the count of leaves, with the hash
stored there. -/
theorem SweepInv.init {pbranch : Bool} {s : MerkleState} {l0 : ℕ} (hs : LeafInv Hash L p pbranch s)
    (hcount : s.count = L.length) (hodd : L.length / 2 ^ l0 % 2 = 1)
    (heven : ∀ i < l0, L.length / 2 ^ i % 2 = 0) :
    SweepInv Hash L p pbranch s.matchlevel s.mutated L.length
      { level := l0, h := s.inner l0, matchh := s.matchlevel == l0, mutated := s.mutated,
        branch := s.branch } := by
  have hlen : (level Hash l0 L).length = L.length / 2 ^ l0 := length_level_of_even Hash l0 heven
  refine ⟨?_, le_rfl, by simp only; have := Nat.two_pow_pos l0; omega, ?_, fun i hi => ?_, rfl,
    fun hpb hp => ?_⟩
  · simp only
    rw [hlen, div_pow_mul_of_even l0 heven]
  · simp only
    rw [hlen]
    exact hcount ▸ hs.inner l0 (hcount ▸ hodd)
  · -- below `l0` the levels halve an even count of at least two
    simp only at hi
    have hge : L.length / 2 ^ l0 ≤ L.length / 2 ^ i :=
      Nat.div_le_div_left (Nat.pow_le_pow_right (by decide) hi.le) (Nat.two_pow_pos i)
    have hieven := heven i hi
    rw [length_level_of_even Hash i fun j hj => heven j (by omega)]
    generalize L.length / 2 ^ l0 = y at hodd hge
    generalize L.length / 2 ^ i = z at hge hieven ⊢
    omega
  · obtain ⟨ml, hml, hodd', hpml, hbr⟩ := hs.after hpb (by omega)
    rw [hcount] at hodd' hpml
    have hle : l0 ≤ ml := by
      by_contra hlt
      have := heven ml (by omega)
      omega
    refine ⟨?_, fun hm => ?_, fun _ => .inr ⟨ml, hml, hle, hodd', hpml, hbr⟩⟩
    · simp only [beq_iff_eq, hml, Nat.cast_inj, hlen]
      constructor
      · rintro rfl
        exact hpml
      · intro hp0
        exact (level_unique hodd hp0 hpml hle).symm
    · simp only [beq_iff_eq, hml, Nat.cast_inj] at hm
      simp only
      rw [hbr, hm]

/-- A turn of the inner loop of the sweep on an even level: the stored node, last but
one of the level, is hashed with `h`, the last. -/
theorem SweepInv.step {pbranch : Bool} {matchlevel : Int} {mutated : Bool} {count : ℕ}
    {inner : ℕ → Uint256} {k : MerkleCarry}
    (hk : SweepInv Hash L p pbranch matchlevel mutated count k)
    (hinner : InnerHolds Hash L inner L.length) (hgt : L.length < count)
    (heven : (level Hash k.level L).length % 2 = 0) :
    SweepInv Hash L p pbranch matchlevel mutated count
      { k with
        level := k.level + 1, h := Hash (inner k.level) k.h,
        matchh := (pushSibling pbranch k.matchh matchlevel k.level (inner k.level) k.h k.branch).2,
        branch := (pushSibling pbranch k.matchh matchlevel k.level (inner k.level) k.h k.branch).1 } := by
  obtain ⟨hlen, hle, hlt, hh, hbig, hmut, hbranch⟩ := hk
  have hlen' : (level Hash (k.level + 1) L).length = (level Hash k.level L).length / 2 := by
    rw [length_level_succ]
    omega
  generalize hm : (level Hash k.level L).length = m at hlen hh hbranch heven hlen'
  have hpos : 0 < m := Nat.pos_of_ne_zero (by rintro rfl; simp at hlen; omega)
  have hn : L.length / 2 ^ k.level = m - 1 := div_pow_eq_pred (by omega) (by omega)
  have hleft : (level Hash k.level L)[m - 2]? = some (inner k.level) := by
    have hodd := hinner k.level (by omega)
    rwa [hn, show m - 1 - 1 = m - 2 by omega] at hodd
  refine ⟨?_, hle, ?_, ?_, fun i hi => ?_, hmut, fun hpb hp => ?_⟩
  · simp only
    rw [hlen', ← mul_pow_of_even heven, hlen]
  · simp only
    rw [pow_succ]
    omega
  · simp only
    rw [hlen']
    exact getElem?_level_succ_of_even Hash heven hpos hleft hh
  · simp only at hi
    rcases Nat.lt_succ_iff_lt_or_eq.mp hi with hi | rfl
    · exact hbig i hi
    · rw [hm]
      omega
  · subst hpb
    simp only
    rw [hlen']
    exact pushSibling_spec Hash L p (hbranch rfl hp) heven hpos hn hleft hh

/-- The head of the sweep on an odd level of three nodes or more: the last node is
hashed with itself and the count grows by `2^level`. -/
theorem SweepInv.dup {pbranch : Bool} {matchlevel : Int} {mutated : Bool} {count : ℕ}
    {k : MerkleCarry} (hk : SweepInv Hash L p pbranch matchlevel mutated count k)
    (hodd : (level Hash k.level L).length % 2 = 1) (hne : (level Hash k.level L).length ≠ 1) :
    SweepInv Hash L p pbranch matchlevel mutated (count + 2 ^ k.level)
      { k with
        level := k.level + 1, h := Hash k.h k.h,
        branch := if pbranch && k.matchh then k.branch ++ [k.h] else k.branch } := by
  obtain ⟨hlen, hle, hlt, hh, hbig, hmut, hbranch⟩ := hk
  have hnext := getElem?_level_succ_last Hash hodd hh
  have hlen' := length_level_succ Hash k.level L
  generalize hm : (level Hash k.level L).length = m at hlen hh hbranch hodd hne hlen'
  refine ⟨?_, by omega, ?_, hnext, fun i hi => ?_, hmut, fun hpb hp => ?_⟩
  · simp only
    rw [hlen', ← mul_pow_of_even (show (m + 1) % 2 = 0 by omega), Nat.add_mul, Nat.one_mul, hlen]
  · simp only
    rw [pow_succ]
    omega
  · simp only at hi
    rcases Nat.lt_succ_iff_lt_or_eq.mp hi with hi | rfl
    · exact hbig i hi
    · rw [hm]
      omega
  · -- the position lies below the count, in one of the `m` nodes
    subst hpb
    have hb := hbranch rfl hp
    have hpm : p / 2 ^ k.level < m :=
      (Nat.div_lt_iff_lt_mul (Nat.two_pow_pos _)).mpr (by omega)
    have hhalf := div_pow_succ p k.level
    simp only [hlen', Bool.true_and]
    cases hmatch : k.matchh with
    | true =>
      have hpx := hb.matchh_iff.mp hmatch
      refine ⟨?_, fun _ => ?_, fun h => absurd h (by simp)⟩
      · simp only [true_iff, hhalf]
        omega
      · -- the last node of an odd level is its own sibling
        have hq : p / 2 ^ k.level = m - 1 := by omega
        have hsib : sibling (level Hash k.level L) (p / 2 ^ k.level) = k.h :=
          sibling_of_last (by omega) (by rw [hm]; omega) (by rwa [hq])
        simp only [if_true, hb.of_matchh hmatch, branchUpTo_succ, hsib]
    | false =>
      have hnot : p / 2 ^ k.level + 1 ≠ m := fun h => absurd (hb.matchh_iff.mpr h) (by simp [hmatch])
      rcases hb.of_not hmatch with ⟨hp', -, -⟩ | ⟨ml, hml, hle', hodd', hpml, hbr⟩
      · omega
      · -- the level of `ml` is above this one: at this level the leaves end inside
        -- node `m - 1` or exactly at its end
        have hne' : ml ≠ k.level := by
          intro heq
          rw [heq] at hodd' hpml
          rcases Nat.lt_or_eq_of_le hle with hlt' | heq'
          · have := div_pow_eq_pred (s := L.length) (l := k.level) (x := m) (by omega) (by omega)
            omega
          · have : L.length / 2 ^ k.level = m := by rw [heq', ← hlen, mul_pow_div]
            omega
        refine ⟨?_, fun h => absurd h (by simp), fun _ => .inr ⟨ml, hml, by omega, hodd', hpml,
          by simp [hbr]⟩⟩
        simp only [Bool.false_eq_true, false_iff, hhalf]
        generalize p / 2 ^ k.level = q at hpm hnot
        omega

/-- Below `2^32` the inner loop of the sweep stops on an odd level. -/
theorem SweepInv.runCarry {pbranch : Bool} {matchlevel : Int} {mutated : Bool} {count : ℕ}
    {inner : ℕ → Uint256} (hinner : InnerHolds Hash L inner L.length) (hgt : L.length < count)
    (hcount : count < 2 ^ 32) :
    ∀ fuel (k : MerkleCarry), k.level + fuel = 32 →
      SweepInv Hash L p pbranch matchlevel mutated count k →
      ∃ k', (MerkleComputation.sweepCarry Hash pbranch count inner matchlevel fuel k :
          Checked ε _) = .ok k' ∧ SweepInv Hash L p pbranch matchlevel mutated count k' ∧
        (level Hash k'.level L).length % 2 = 1 ∧ k.level < k'.level + 1 := by
  intro fuel
  induction fuel with
  | zero =>
    intro k hlevel hk
    have hlen := hk.len_eq
    rw [show k.level = 32 by omega] at hlen
    omega
  | succ fuel ih =>
    intro k hlevel hk
    have hdiv : count / 2 ^ k.level = (level Hash k.level L).length := by
      rw [← hk.len_eq, mul_pow_div]
    rcases Nat.mod_two_eq_zero_or_one (level Hash k.level L).length with heven | hodd
    · rw [sweepCarry_of_even Hash (by rwa [hdiv])]
      obtain ⟨k', hrun, hk', hodd', hle⟩ :=
        ih _ (by simp only; omega) (hk.step Hash L p hinner hgt heven)
      exact ⟨k', hrun, hk', hodd', by simp only at hle; omega⟩
    · exact ⟨k, sweepCarry_of_odd Hash (by rwa [hdiv]), hk, hodd, Nat.lt_succ_self _⟩

/-- The outer loop of the sweep past its test. -/
theorem sweep_of_ne {pbranch : Bool} {inner : ℕ → Uint256} {matchlevel : Int} {fuel count : ℕ}
    {k : MerkleCarry} (hne : count ≠ 2 ^ k.level) :
    (MerkleComputation.sweep Hash pbranch inner matchlevel (fuel + 1) count k : Checked ε _) =
      MerkleComputation.sweepCarry Hash pbranch ((count + 2 ^ k.level) % 2 ^ 32) inner matchlevel
          (32 - (k.level + 1))
          { k with
            level := k.level + 1, h := Hash k.h k.h,
            branch := if pbranch && k.matchh then k.branch ++ [k.h] else k.branch } >>=
        MerkleComputation.sweep Hash pbranch inner matchlevel fuel ((count + 2 ^ k.level) % 2 ^ 32) := by
  rw [MerkleComputation.sweep, if_neg (by rwa [Nat.one_shiftLeft])]
  simp only [Nat.one_shiftLeft]

/-- Up to `2^31` leaves the sweep reaches the level of one node, the root, with the
branch of the position below it. -/
theorem SweepInv.run {pbranch : Bool} {matchlevel : Int} {mutated : Bool}
    {inner : ℕ → Uint256} (hinner : InnerHolds Hash L inner L.length) (hsize : L.length ≤ 2 ^ 31) :
    ∀ fuel count (k : MerkleCarry), 32 ≤ k.level + fuel →
      SweepInv Hash L p pbranch matchlevel mutated count k →
      (level Hash k.level L).length % 2 = 1 → count < 2 ^ 32 →
      ∃ k', (MerkleComputation.sweep Hash pbranch inner matchlevel fuel count k : Checked ε _) =
          .ok k' ∧ merkleRoot Hash L = some k'.h ∧ k'.mutated = mutated ∧
        (pbranch = true → p < L.length → k'.branch = merkleBranch Hash L p) := by
  intro fuel
  induction fuel with
  | zero =>
    intro count k hfuel hk hodd hcount
    have hpow : 2 ^ 32 ≤ 2 ^ k.level := Nat.pow_le_pow_right (by decide) (by omega)
    have hlen := hk.len_eq
    have : 2 ^ k.level ≤ count := by
      rw [← hlen]
      exact Nat.le_mul_of_pos_left _ (by omega)
    omega
  | succ fuel ih =>
    intro count k hfuel hk hodd hcount
    have hlen := hk.len_eq
    by_cases hone : (level Hash k.level L).length = 1
    · -- one node left: the root
      have hcount' : count = 2 ^ k.level := by rw [← hlen, hone, Nat.one_mul]
      refine ⟨k, by rw [MerkleComputation.sweep, if_pos (by rw [Nat.one_shiftLeft, hcount'])], ?_,
        hk.mutated_eq, fun hpb hp => ?_⟩
      · rw [merkleRoot_eq_level Hash k.level hone hk.big]
        have := hk.h_eq
        rwa [hone] at this
      · have hb := hk.branch hpb hp
        rw [hone] at hb
        have := hk.le_count
        have hp0 : p / 2 ^ k.level = 0 := Nat.div_eq_of_lt (by omega)
        rw [hb.of_matchh (hb.matchh_iff.mpr (by omega)),
          merkleBranch_eq_branchUpTo Hash k.level p hone hk.big]
    · -- an odd level of three nodes or more: no wrap below `2^31` leaves
      generalize hm : (level Hash k.level L).length = m at hlen hodd hone
      have hthree : 3 * 2 ^ k.level ≤ count := by
        rw [← hlen]
        exact Nat.mul_le_mul_right _ (by omega)
      have hlt := hk.count_lt
      have hwrap : (count + 2 ^ k.level) % 2 ^ 32 = count + 2 ^ k.level := Nat.mod_eq_of_lt (by omega)
      have hlevel : k.level < 32 := by
        by_contra hge
        have : 2 ^ 32 ≤ 2 ^ k.level := Nat.pow_le_pow_right (by decide) (by omega)
        omega
      have hdup := hk.dup Hash L p (by rwa [hm]) (by rwa [hm])
      obtain ⟨k', hrun, hk', hodd', hle⟩ := SweepInv.runCarry (ε := ε) Hash L p hinner
        (by have := hk.le_count; omega) (by omega) (32 - (k.level + 1)) _
        (show k.level + 1 + (32 - (k.level + 1)) = 32 by omega)
        hdup
      have hle' : k.level + 1 < k'.level + 1 := hle
      obtain ⟨k'', hsweep, hroot, hmut, hbranch⟩ :=
        ih (count + 2 ^ k.level) k' (by omega) hk' hodd' (by omega)
      refine ⟨k'', ?_, hroot, hmut, hbranch⟩
      rw [sweep_of_ne Hash (hlen ▸ mul_pow_ne_pow hone k.level), hwrap, hrun, Checked.ok_bind,
        hsweep]

/-- Above `2^31` leaves the count wraps to zero in the sweep before the root, and the
inner loop shifts past bit 31. -/
theorem SweepInv.run_wraps {pbranch : Bool} {matchlevel : Int} {mutated : Bool}
    {inner : ℕ → Uint256} (hinner : InnerHolds Hash L inner L.length) (hsize : 2 ^ 31 < L.length) :
    ∀ fuel count (k : MerkleCarry), SweepInv Hash L p pbranch matchlevel mutated count k →
      (level Hash k.level L).length % 2 = 1 → count < 2 ^ 32 →
      (MerkleComputation.sweep Hash pbranch inner matchlevel fuel count k : Checked ε _) =
        .error (.fault .outOfRange) := by
  intro fuel
  induction fuel with
  | zero => intro count k _ _ _; rfl
  | succ fuel ih =>
    intro count k hk hodd hcount
    have hlen := hk.len_eq
    have hlt := hk.count_lt
    have hle := hk.le_count
    generalize hm : (level Hash k.level L).length = m at hlen hodd
    have hlevel : k.level < 32 := by
      by_contra hge
      have : 2 ^ 32 ≤ 2 ^ k.level := Nat.pow_le_pow_right (by decide) (by omega)
      have : 2 ^ k.level ≤ count := by
        rw [← hlen]
        exact Nat.le_mul_of_pos_left _ (by omega)
      omega
    have hone : m ≠ 1 := by
      -- one node would make the count a power of two strictly between `2^31` and `2^32`
      rintro rfl
      rw [Nat.one_mul] at hlen
      have h31 : 31 < k.level := (Nat.pow_lt_pow_iff_right (show 1 < 2 by decide)).mp (by omega)
      omega
    have hdup := hk.dup Hash L p (by rwa [hm]) (by rwa [hm])
    -- the count is a multiple of `2^level` below `2^32`, so one more node is at most `2^32`
    have hfit : count + 2 ^ k.level ≤ 2 ^ 32 := by
      have hsplit : 2 ^ 32 = 2 ^ (32 - k.level) * 2 ^ k.level := by
        rw [← pow_add, Nat.sub_add_cancel hlevel.le]
      have hlt' : m < 2 ^ (32 - k.level) :=
        Nat.lt_of_mul_lt_mul_right (by rw [hlen, ← hsplit]; exact hcount)
      rw [hsplit, ← hlen, ← Nat.succ_mul]
      exact Nat.mul_le_mul_right _ hlt'
    rw [sweep_of_ne Hash (hlen ▸ mul_pow_ne_pow hone k.level)]
    rcases Nat.lt_or_eq_of_le hfit with hlt32 | heq32
    · rw [Nat.mod_eq_of_lt hlt32]
      obtain ⟨k', hrun, hk', hodd', -⟩ := SweepInv.runCarry (ε := ε) Hash L p hinner (by omega)
        hlt32 (32 - (k.level + 1)) _
        (show k.level + 1 + (32 - (k.level + 1)) = 32 by omega) hdup
      rw [hrun, Checked.ok_bind]
      exact ih _ k' hk' hodd' hlt32
    · rw [heq32, Nat.mod_self, sweepCarry_zero]
      rfl

/-- Below `2^32` the walk to the lowest set bit of a nonzero count stops there. -/
theorem lowestLevel_spec {n : ℕ} (hn : 0 < n) (hsize : n < 2 ^ 32) :
    ∀ fuel level, level + fuel = 32 → (∀ i < level, n / 2 ^ i % 2 = 0) →
      ∃ l0, (MerkleComputation.lowestLevel n fuel level : Checked ε ℕ) = .ok l0 ∧
        n / 2 ^ l0 % 2 = 1 ∧ ∀ i < l0, n / 2 ^ i % 2 = 0 := by
  intro fuel
  induction fuel with
  | zero =>
    intro level hlevel heven
    have hmul := div_pow_mul_of_even level heven
    rw [Nat.div_eq_of_lt (by rw [show level = 32 by omega]; exact hsize), Nat.zero_mul] at hmul
    omega
  | succ fuel ih =>
    intro level hlevel heven
    rcases Nat.mod_two_eq_zero_or_one (n / 2 ^ level) with hbit | hbit
    · rw [lowestLevel_of_even hbit]
      refine ih (level + 1) (by omega) fun i hi => ?_
      rcases Nat.lt_succ_iff_lt_or_eq.mp hi with hi | rfl
      · exact heven i hi
      · exact hbit
    · exact ⟨level, lowestLevel_of_odd hbit, hbit, heven⟩

end Sweep

/-! ## The whole computation -/

section Computation

variable {ε : Type} (Hash : Uint256 → Uint256 → Uint256) (L : List Uint256) (p : ℕ)

/-- The loop over the leaves and the walk to the lowest set bit of their count, which
do not depend on the number of leaves beyond `2^32`. -/
theorem MerkleComputation.start (pbranch : Bool) (hne : L ≠ []) (hsize : L.length < 2 ^ 32) :
    ∃ s l0, (L.foldlM (MerkleComputation.leaf Hash p pbranch)
          { count := 0, inner := fun _ => Uint256.zero, matchlevel := -1, mutated := false,
            branch := [] } : Checked ε _) = .ok s ∧
      (MerkleComputation.lowestLevel s.count 32 0 : Checked ε ℕ) = .ok l0 ∧
      LeafInv Hash L p pbranch s ∧ s.count = L.length ∧
      SweepInv Hash L p pbranch s.matchlevel s.mutated L.length
        { level := l0, h := s.inner l0, matchh := s.matchlevel == l0, mutated := s.mutated,
          branch := s.branch } ∧
      (level Hash l0 L).length % 2 = 1 := by
  obtain ⟨s, hfold, hs, hcount⟩ := LeafInv.run (ε := ε) Hash L p hsize L _
    (LeafInv.init Hash L p pbranch) rfl
  obtain ⟨l0, hlow, hodd, heven⟩ := lowestLevel_spec (ε := ε) (List.length_pos_of_ne_nil hne)
    hsize 32 0 rfl fun i hi => absurd hi (Nat.not_lt_zero i)
  refine ⟨s, l0, hfold, by rwa [hcount], hs, hcount, SweepInv.init Hash L p hs hcount hodd heven,
    ?_⟩
  rwa [length_level_of_even Hash l0 heven]

/-- Up to `2^31` leaves `MerkleComputation` returns the root of the tree, reports
`mutated` exactly for two equal siblings over whole blocks of leaves, and, asked for
the branch of a position among the leaves, returns it. -/
theorem MerkleComputation_spec (pbranch : Bool) (hne : L ≠ []) (hsize : L.length ≤ 2 ^ 31) :
    ∃ root mutated branch,
      (MerkleComputation Hash L p pbranch : Checked ε _) = .ok (root, mutated, branch) ∧
      merkleRoot Hash L = some root ∧ (mutated = true ↔ EqualSiblingsWithin Hash L.length L) ∧
      (pbranch = true → p < L.length → branch = merkleBranch Hash L p) := by
  obtain ⟨s, l0, hfold, hlow, hs, hcount, hinit, hodd⟩ :=
    MerkleComputation.start (ε := ε) Hash L p pbranch hne (by omega)
  obtain ⟨k, hsweep, hroot, hmut, hbranch⟩ := SweepInv.run (ε := ε) Hash L p
    (hcount ▸ hs.inner) hsize (32 - l0) L.length _ (by simp only; omega) hinit hodd (by omega)
  refine ⟨k.h, k.mutated, k.branch, ?_, hroot, by rw [hmut, hs.mutated, hcount], hbranch⟩
  rw [MerkleComputation, if_neg hne]
  simp only [hfold, hlow, Checked.ok_bind]
  rw [hcount, hsweep]
  rfl

/-- Above `2^31` and below `2^32` leaves the count wraps in the sweep and the loop
shifts past the width of `uint32_t`. -/
theorem MerkleComputation_wraps (pbranch : Bool) (hbig : 2 ^ 31 < L.length)
    (hsize : L.length < 2 ^ 32) :
    (MerkleComputation Hash L p pbranch : Checked ε _) = .error (.fault .outOfRange) := by
  have hne : L ≠ [] := List.ne_nil_of_length_pos (by omega)
  obtain ⟨s, l0, hfold, hlow, hs, hcount, hinit, hodd⟩ :=
    MerkleComputation.start (ε := ε) Hash L p pbranch hne hsize
  rw [MerkleComputation, if_neg hne]
  simp only [hfold, hlow, Checked.ok_bind]
  rw [hcount, SweepInv.run_wraps Hash L p (hcount ▸ hs.inner) hbig (32 - l0) L.length _ hinit hodd hsize]
  rfl

/-- Climbing from a leaf with its branch gives the root. -/
theorem ComputeMerkleRootFromBranch_merkleBranch : ∀ (xs : List Uint256) (q : ℕ) (a : Uint256),
    xs[q]? = some a →
      merkleRoot Hash xs = some (ComputeMerkleRootFromBranch Hash a (merkleBranch Hash xs q) q) := by
  intro xs
  induction hlen : xs.length using Nat.strong_induction_on generalizing xs with
  | _ n ih =>
    intro q a ha
    by_cases htwo : 2 ≤ xs.length
    · -- one level up: the leaf and its sibling hash to the parent, position `q / 2`
      have hup := getElem?_pairUp_half Hash ha
      rw [merkleRoot_of_two_le Hash htwo, merkleBranch_of_two_le Hash htwo,
        ComputeMerkleRootFromBranch, Nat.and_one_is_mod, Nat.shiftRight_one]
      exact ih _ (by rw [← hlen, length_pairUp]; omega) _ rfl _ _ hup
    · -- one leaf: the root itself
      have hq : q < xs.length := (List.getElem?_eq_some_iff.mp ha).1
      obtain ⟨b, rfl⟩ : ∃ b, xs = [b] := List.length_eq_one_iff.mp (by omega)
      obtain rfl : q = 0 := by simp at hq; omega
      simp only [List.getElem?_cons_zero, Option.some.injEq] at ha
      simp [merkleRoot, merkleBranch, ComputeMerkleRootFromBranch, ha]

/-- Up to `2^31` leaves `ComputeMerkleRoot` returns the root of the tree that hashes
adjacent pairs, the last hash of an odd level with itself, and sets `mutated` exactly
when two siblings over whole blocks of leaves are equal; `ComputeMerkleBranch` returns
the branch of every position, from which `ComputeMerkleRootFromBranch` climbs back to
the root. -/
theorem MerkleComputation_refines_merkleRoot (leaves : List Uint256) (hne : leaves ≠ [])
    (hsize : leaves.length ≤ 2 ^ 31) :
    (∃ root mutated, (ComputeMerkleRoot Hash leaves : Checked ε _) = .ok (root, mutated) ∧
      merkleRoot Hash leaves = some root ∧
      (mutated = true ↔ EqualSiblingsWithin Hash leaves.length leaves)) ∧
    ∀ position (hpos : position < leaves.length), ∃ branch,
      (ComputeMerkleBranch Hash leaves position : Checked ε _) = .ok branch ∧
      branch = merkleBranch Hash leaves position ∧
      merkleRoot Hash leaves =
        some (ComputeMerkleRootFromBranch Hash leaves[position] branch position) := by
  refine ⟨?_, fun position hpos => ?_⟩
  · obtain ⟨root, mutated, branch, hrun, hroot, hmut, -⟩ :=
      MerkleComputation_spec (ε := ε) Hash leaves (2 ^ 32 - 1) false hne hsize
    exact ⟨root, mutated, by rw [ComputeMerkleRoot, hrun]; rfl, hroot, hmut⟩
  · obtain ⟨root, mutated, branch, hrun, -, -, hbranch⟩ :=
      MerkleComputation_spec (ε := ε) Hash leaves position true hne hsize
    have hb := hbranch rfl hpos
    refine ⟨branch, by rw [ComputeMerkleBranch, hrun]; rfl, hb, ?_⟩
    rw [hb]
    exact ComputeMerkleRootFromBranch_merkleBranch Hash leaves position _
      (List.getElem?_eq_getElem hpos)

theorem MerkleComputation_refines_merkleRoot_three :
    [Uint256.zero, Uint256.zero, Uint256.zero] ≠ [] ∧
      [Uint256.zero, Uint256.zero, Uint256.zero].length ≤ 2 ^ 31 ∧
      ((∃ root mutated, (@ComputeMerkleRoot Empty (fun _ _ => Uint256.zero)
          [Uint256.zero, Uint256.zero, Uint256.zero]) = .ok (root, mutated) ∧
        merkleRoot (fun _ _ => Uint256.zero) [Uint256.zero, Uint256.zero, Uint256.zero] =
          some root ∧
        (mutated = true ↔ EqualSiblingsWithin (fun _ _ => Uint256.zero) 3
          [Uint256.zero, Uint256.zero, Uint256.zero])) ∧
      ∀ position (hpos : position < 3), ∃ branch,
        (@ComputeMerkleBranch Empty (fun _ _ => Uint256.zero)
          [Uint256.zero, Uint256.zero, Uint256.zero] position) = .ok branch ∧
        branch = merkleBranch (fun _ _ => Uint256.zero) [Uint256.zero, Uint256.zero, Uint256.zero]
          position ∧
        merkleRoot (fun _ _ => Uint256.zero) [Uint256.zero, Uint256.zero, Uint256.zero] =
          some (ComputeMerkleRootFromBranch (fun _ _ => Uint256.zero)
            [Uint256.zero, Uint256.zero, Uint256.zero][position] branch position)) :=
  ⟨by decide, by decide, MerkleComputation_refines_merkleRoot (fun _ _ => Uint256.zero)
    [Uint256.zero, Uint256.zero, Uint256.zero] (by decide) (by decide)⟩

/-- With a hash that sends every pair to zero, the leaves `1, 0, 0` give level one
`[0, 0]`, two equal siblings; the second is over the leaf the tree repeats, and the
sweep hashes it in without a comparison, so `mutated` stays false. -/
theorem ComputeMerkleRoot_misses_partial_siblings :
    EqualSiblings (fun _ _ => Uint256.zero)
        [⟨1, Nat.one_lt_two_pow (Nat.succ_ne_zero 255)⟩, Uint256.zero, Uint256.zero] ∧
      (@ComputeMerkleRoot Empty (fun _ _ => Uint256.zero)
        [⟨1, Nat.one_lt_two_pow (Nat.succ_ne_zero 255)⟩, Uint256.zero, Uint256.zero]) =
        .ok (Uint256.zero, false) :=
  ⟨⟨1, 0, by decide, by decide⟩, by decide⟩

end Computation

end Cascoin
