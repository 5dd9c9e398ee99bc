import Mathlib.Algebra.BigOperators.Group.Finset.Basic
import Mathlib.Logic.Relation

/-!
# Closures of a finite relation

A relation is given by `next : α → Finset α`, the nodes one step leads to. What lies above `x`
is what one or more steps reach (`Above`). A store that keeps, for every node, totals over what
lies above it or below it has to know how those sets change when it changes the relation, and
it computes them with a worklist. What that needs is here:

* `mem_walk`: the worklist traversal that takes a staged node, records it and stages what it
  leads to that is not recorded yet ends with the recorded nodes and all that the staged ones
  reach, as long as what is recorded leads only to recorded or staged nodes;
* `above_congr_of_fresh`, `above_fresh_iff`: a new node that no node leads to changes what lies
  above no other node;
* `above_congr_of_avoid`, `above_erase_root_iff`: taking away nodes that no walk from `x` meets,
  or a node that leads nowhere, changes what lies above `x` by at most those nodes;
* `foldl_family`: a loop whose steps move a state along a family of states stays in it, which
  gives a loop over a set its closed form; `foldl_update_of_nodup`: a loop that rewrites one
  value per member rewrites each member's once.
-/

namespace Closure

open Relation

section Above

variable {α : Type*} (next : α → Finset α)

/-- `y` is reached from `x` by one or more steps of `next`. -/
def Above (x y : α) : Prop := TransGen (fun a b => b ∈ next a) x y

variable {next}

theorem above_single {x y : α} (h : y ∈ next x) : Above next x y := TransGen.single h

theorem Above.tail {x y z : α} (h : Above next x y) (hz : z ∈ next y) : Above next x z :=
  TransGen.tail h hz

theorem Above.trans {x y z : α} (h : Above next x y) (h' : Above next y z) : Above next x z :=
  TransGen.trans h h'

/-- What lies above `x` is what its first step's targets reach in zero or more steps. -/
theorem above_iff_exists_reach {x y : α} :
    Above next x y ↔ ∃ p ∈ next x, ReflTransGen (fun a b => b ∈ next a) p y :=
  TransGen.head'_iff

/-- Fewer steps reach less. -/
theorem Above.mono {next' : α → Finset α} (hsub : ∀ a, next' a ⊆ next a) {x y : α}
    (h : Above next' x y) : Above next x y :=
  TransGen.mono (fun a _ hab => hsub a hab) _ _ h

/-- Walking a relation backwards is walking its converse. -/
theorem above_converse_iff {par chi : α → Finset α} (hconv : ∀ a b, b ∈ chi a ↔ a ∈ par b)
    {x y : α} : Above chi x y ↔ Above par y x := by
  have hrel : (fun a b => b ∈ chi a) = Function.swap fun a b => b ∈ par a := by
    funext a b
    exact propext (hconv a b)
  rw [Above, Above, hrel, transGen_swap]

/-- A walk from a closed set stays in it or passes through the border it may leak to. -/
theorem mem_or_reach_of_closed [DecidableEq α] {A S : Finset α} (hclosed : ∀ a ∈ A, next a ⊆ A ∪ S) {b y : α}
    (hb : b ∈ A) (h : ReflTransGen (fun a c => c ∈ next a) b y) :
    y ∈ A ∨ ∃ s ∈ S, ReflTransGen (fun a c => c ∈ next a) s y := by
  induction h with
  | refl => exact .inl hb
  | tail _ hstep ih =>
    rcases ih with hz | ⟨s, hs, hpath⟩
    · rcases Finset.mem_union.mp (hclosed _ hz hstep) with hy | hy
      · exact .inl hy
      · exact .inr ⟨_, hy, ReflTransGen.refl⟩
    · exact .inr ⟨s, hs, hpath.tail hstep⟩

end Above

/-! ## A node added where nothing leads -/

section Fresh

variable {α : Type*} {next next' : α → Finset α} {n : α}

section
variable (hsame : ∀ a, a ≠ n → next' a = next a) (hnew : ∀ a, n ∉ next' a)
include hsame hnew

/-- From a node other than `n` the old relation never reaches `n`. -/
theorem ne_of_above_of_fresh {x z : α} (hx : x ≠ n) (h : Above next x z) : z ≠ n := by
  induction h with
  | single hz => exact fun he => hnew x (he ▸ (hsame x hx).symm ▸ hz)
  | tail _ hz ih => exact fun he => hnew _ (he ▸ (hsame _ ih).symm ▸ hz)

/-- A node that no step of the new relation leads to changes what lies above no other. -/
theorem above_congr_of_fresh {x : α} (hx : x ≠ n) (y : α) : Above next' x y ↔ Above next x y := by
  constructor
  · intro h
    induction h with
    | single hy => exact above_single ((hsame x hx) ▸ hy)
    | @tail z y hxz hzy ih =>
      -- the walk's last node is a target of the new relation, so not `n`
      have hz : z ≠ n := by
        rintro rfl
        obtain ⟨w, -, hw⟩ := TransGen.tail'_iff.mp hxz
        exact hnew w hw
      exact ih.tail ((hsame z hz) ▸ hzy)
  · intro h
    induction h with
    | single hy => exact above_single ((hsame x hx).symm ▸ hy)
    | @tail z y hxz hzy ih =>
      exact ih.tail ((hsame z (ne_of_above_of_fresh hsame hnew hx hxz)).symm ▸ hzy)

/-- Above the new node lies what its targets reach in the old relation. -/
theorem above_fresh_iff (y : α) :
    Above next' n y ↔ ∃ p ∈ next' n, ReflTransGen (fun a b => b ∈ next a) p y := by
  rw [above_iff_exists_reach]
  refine exists_congr fun p => and_congr_right fun hp => ?_
  have hpn : p ≠ n := fun he => hnew n (he ▸ hp)
  rw [reflTransGen_iff_eq_or_transGen, reflTransGen_iff_eq_or_transGen]
  exact or_congr_right (above_congr_of_fresh hsame hnew hpn y)

end

end Fresh

/-! ## Nodes taken away -/

section Remove

variable {α : Type*} {next next' : α → Finset α}

/-- Taking away nodes that no walk from `x` meets keeps what lies above `x`, when the steps
between the nodes left are the old ones. -/
theorem above_congr_of_avoid [DecidableEq α] {S : Finset α} (hnext : ∀ a ∉ S, next' a = next a \ S)
    {x : α} (hx : x ∉ S) (havoid : ∀ z, Above next x z → z ∉ S) (y : α) :
    Above next' x y ↔ Above next x y := by
  -- along a walk of the new relation every node is outside `S`
  have hout : ∀ {z}, Above next' x z → z ∉ S := by
    intro z h
    induction h with
    | single hz => exact (Finset.mem_sdiff.mp ((hnext x hx) ▸ hz)).2
    | tail _ hz ih => exact (Finset.mem_sdiff.mp ((hnext _ ih) ▸ hz)).2
  constructor
  · intro h
    induction h with
    | single hy => exact above_single (Finset.mem_sdiff.mp ((hnext x hx) ▸ hy)).1
    | @tail z y hxz hzy ih =>
      exact ih.tail (Finset.mem_sdiff.mp ((hnext z (hout hxz)) ▸ hzy)).1
  · intro h
    induction h with
    | single hy =>
      exact above_single ((hnext x hx).symm ▸ Finset.mem_sdiff.mpr ⟨hy, havoid _ (above_single hy)⟩)
    | @tail z y hxz hzy ih =>
      exact ih.tail ((hnext z (havoid z hxz)).symm ▸
        Finset.mem_sdiff.mpr ⟨hzy, havoid y (hxz.tail hzy)⟩)

/-- Taking away a node `r` that leads nowhere takes it from above every other node and leaves
the rest. -/
theorem above_erase_root_iff [DecidableEq α] {r : α} (hroot : next r = ∅)
    (hnext : ∀ a, a ≠ r → next' a = (next a).erase r) {x : α} (hx : x ≠ r) (y : α) :
    Above next' x y ↔ Above next x y ∧ y ≠ r := by
  constructor
  · intro h
    -- the walk never steps to `r`, so it never stands on it
    have hsub : ∀ {z}, Above next' x z → z ≠ r ∧ Above next x z := by
      intro z h
      induction h with
      | single hz =>
        have hz' := (hnext x hx) ▸ hz
        exact ⟨Finset.ne_of_mem_erase hz', above_single (Finset.mem_of_mem_erase hz')⟩
      | tail _ hz ih =>
        have hz' := (hnext _ ih.1) ▸ hz
        exact ⟨Finset.ne_of_mem_erase hz', ih.2.tail (Finset.mem_of_mem_erase hz')⟩
    exact (hsub h).symm
  · rintro ⟨h, hy⟩
    induction h with
    | single hz => exact above_single ((hnext x hx).symm ▸ Finset.mem_erase.mpr ⟨hy, hz⟩)
    | @tail z y _ hzy ih =>
      -- a step leaves `z`, so `z` is not the node that leads nowhere
      have hz : z ≠ r := by
        rintro rfl
        rw [hroot] at hzy
        exact absurd hzy (Finset.notMem_empty y)
      exact (ih hz).tail ((hnext z hz).symm ▸ Finset.mem_erase.mpr ⟨hy, hzy⟩)

end Remove

/-! ## The worklist traversal -/

section Walk

variable {α : Type*} [DecidableEq α] (next : α → Finset α) (first : Finset α → Option α)

/-- A choice of the node a round takes: one of the staged nodes, while any is staged. -/
structure IsChoice : Prop where
  mem : ∀ s a, first s = some a → a ∈ s
  empty : ∀ s, first s = none → s = ∅

/-- The worklist traversal: each round takes the node `first` chooses from the stage, records
it, and stages what it leads to that is not recorded; it stops when the stage is empty, or
after `fuel` rounds. -/
def walk : ℕ → Finset α → Finset α → Finset α
  | 0, _, acc => acc
  | fuel + 1, stage, acc =>
    match first stage with
    | none => acc
    | some a => walk fuel (stage.erase a ∪ (next a).filter (· ∉ insert a acc)) (insert a acc)

variable {next first}

/-- After a round the record leads only to recorded or staged nodes, if it did before. -/
theorem walk_round_closed {stage acc : Finset α} {a : α}
    (hclosed : ∀ b ∈ acc, next b ⊆ acc ∪ stage) :
    ∀ b ∈ insert a acc,
      next b ⊆ insert a acc ∪ (stage.erase a ∪ (next a).filter (· ∉ insert a acc)) := by
  intro b hb c hc
  by_cases hcacc : c ∈ insert a acc
  · exact Finset.mem_union_left _ hcacc
  rcases Finset.mem_insert.mp hb with rfl | hb
  · exact Finset.mem_union_right _ (Finset.mem_union_right _ (Finset.mem_filter.mpr ⟨hc, hcacc⟩))
  · rcases Finset.mem_union.mp (hclosed b hb hc) with hc' | hc'
    · exact absurd (Finset.mem_insert_of_mem hc') hcacc
    · have hca : c ≠ a := fun he => hcacc (he ▸ Finset.mem_insert_self a acc)
      exact Finset.mem_union_right _ (Finset.mem_union_left _ (Finset.mem_erase.mpr ⟨hca, hc'⟩))

/-- One round keeps what the traversal is after: what is recorded or reached from the stage. -/
theorem walk_round_iff {stage acc : Finset α} {a : α} (ha : a ∈ stage)
    (hclosed : ∀ b ∈ acc, next b ⊆ acc ∪ stage) (y : α) :
    (y ∈ insert a acc ∨ ∃ s ∈ stage.erase a ∪ (next a).filter (· ∉ insert a acc),
        ReflTransGen (fun b c => c ∈ next b) s y) ↔
      (y ∈ acc ∨ ∃ s ∈ stage, ReflTransGen (fun b c => c ∈ next b) s y) := by
  constructor
  · rintro (hy | ⟨s, hs, hpath⟩)
    · rcases Finset.mem_insert.mp hy with rfl | hy
      · exact .inr ⟨y, ha, ReflTransGen.refl⟩
      · exact .inl hy
    · rcases Finset.mem_union.mp hs with hs | hs
      · exact .inr ⟨s, Finset.mem_of_mem_erase hs, hpath⟩
      · exact .inr ⟨a, ha, ReflTransGen.head (Finset.mem_filter.mp hs).1 hpath⟩
  · rintro (hy | ⟨s, hs, hpath⟩)
    · exact .inl (Finset.mem_insert_of_mem hy)
    · by_cases hsa : s = a
      · subst hsa
        exact mem_or_reach_of_closed (walk_round_closed hclosed) (Finset.mem_insert_self s acc) hpath
      · exact .inr ⟨s, Finset.mem_union_left _ (Finset.mem_erase.mpr ⟨hsa, hs⟩), hpath⟩

/-- The traversal ends with the recorded nodes and all the staged ones reach, when it starts
with a stage disjoint from the record, the record leads only to recorded or staged nodes, and
there is a round of fuel for every node of a closed `V` not yet recorded. -/
theorem mem_walk (hfirst : IsChoice first) {V : Finset α} (hV : ∀ a ∈ V, next a ⊆ V) :
    ∀ {fuel : ℕ} {stage acc : Finset α}, stage ⊆ V → Disjoint stage acc →
      (∀ b ∈ acc, next b ⊆ acc ∪ stage) → (V \ acc).card ≤ fuel → ∀ y,
        y ∈ walk next first fuel stage acc ↔
          y ∈ acc ∨ ∃ s ∈ stage, ReflTransGen (fun b c => c ∈ next b) s y
  | 0, stage, acc, hstage, hdisj, _, hfuel, y => by
    -- out of fuel every node of `V` is recorded, so nothing is staged
    have hV0 : V ⊆ acc := Finset.sdiff_eq_empty_iff_subset.mp (Finset.card_eq_zero.mp (by omega))
    have hempty : stage = ∅ :=
      Finset.eq_empty_of_forall_notMem fun s hs =>
        Finset.disjoint_left.mp hdisj hs (hV0 (hstage hs))
    simp [walk, hempty]
  | fuel + 1, stage, acc, hstage, hdisj, hclosed, hfuel, y => by
    unfold walk
    cases hpick : first stage with
    | none =>
      have hempty := hfirst.empty stage hpick
      simp [hempty]
    | some a =>
      have ha := hfirst.mem stage a hpick
      have haacc : a ∉ acc := Finset.disjoint_left.mp hdisj ha
      dsimp only
      rw [mem_walk hfirst hV ?stage ?disj ?closed ?fuel y]
      · exact walk_round_iff ha hclosed y
      case stage =>
        exact Finset.union_subset ((Finset.erase_subset a stage).trans hstage)
          ((Finset.filter_subset _ _).trans (hV a (hstage ha)))
      case disj =>
        refine Finset.disjoint_left.mpr fun c hc hcacc => ?_
        rcases Finset.mem_union.mp hc with hc | hc
        · rcases Finset.mem_insert.mp hcacc with rfl | hcacc
          · exact Finset.notMem_erase c stage hc
          · exact Finset.disjoint_left.mp hdisj (Finset.mem_of_mem_erase hc) hcacc
        · exact (Finset.mem_filter.mp hc).2 hcacc
      case closed => exact walk_round_closed hclosed
      case fuel =>
        have hmem : a ∈ V \ acc := Finset.mem_sdiff.mpr ⟨hstage ha, haacc⟩
        have hcard : (V \ insert a acc).card + 1 = (V \ acc).card := by
          rw [Finset.sdiff_insert, Finset.card_erase_add_one hmem]
        omega

end Walk

/-! ## Loops of additive steps -/

section Loop

variable {β σ M : Type*} [AddCommMonoid M]

/-- A loop whose every step takes the state `st m` of a family to the state `st (next b m)`
stays in the family, at the parameter the steps move it to. -/
theorem foldl_family {μ : Type*} (st : μ → σ) (body : β → σ → σ) (next : β → μ → μ) :
    ∀ (L : List β), (∀ b ∈ L, ∀ m, body b (st m) = st (next b m)) → ∀ m,
      L.foldl (fun s b => body b s) (st m) = st (L.foldl (fun m b => next b m) m)
  | [], _, _ => rfl
  | b :: L, hstep, m => by
    rw [List.foldl_cons, List.foldl_cons, hstep b List.mem_cons_self m]
    exact foldl_family st body next L (fun b' hb' => hstep b' (List.mem_cons_of_mem _ hb')) _

/-- Adding an amount at every point, step by step, adds the amounts up at each point. -/
theorem foldl_add_apply {κ : Type*} (δ : β → κ → M) :
    ∀ (L : List β) (A : κ → M) (y : κ),
      L.foldl (fun A b => fun y => A y + δ b y) A y = A y + (L.map fun b => δ b y).sum
  | [], _, _ => by simp
  | b :: L, A, y => by
    rw [List.foldl_cons, foldl_add_apply δ L, List.map_cons, List.sum_cons, add_assoc]

/-- Adding an amount at each step adds up the amounts. -/
theorem foldl_add (δ : β → M) : ∀ (L : List β) (m : M),
    L.foldl (fun m b => m + δ b) m = m + (L.map δ).sum
  | [], _ => by simp
  | b :: L, m => by
    rw [List.foldl_cons, foldl_add δ L, List.map_cons, List.sum_cons, add_assoc]

/-- Recording each member of a list records the list. -/
theorem foldl_insert [DecidableEq β] : ∀ (L : List β) (P : Finset β),
    L.foldl (fun P b => insert b P) P = P ∪ L.toFinset
  | [], P => by simp
  | b :: L, P => by
    rw [List.foldl_cons, foldl_insert L, List.toFinset_cons, Finset.union_insert,
      Finset.insert_union]

/-- A loop over a pair whose parts change apart is the pair of the loops over the parts. -/
theorem foldl_prod {μ ν : Type*} (f : β → μ → μ) (g : β → ν → ν) : ∀ (L : List β) (m : μ) (n : ν),
    L.foldl (fun p b => (f b p.1, g b p.2)) (m, n) =
      (L.foldl (fun m b => f b m) m, L.foldl (fun n b => g b n) n)
  | [], _, _ => rfl
  | b :: L, m, n => by
    rw [List.foldl_cons, List.foldl_cons, List.foldl_cons, foldl_prod f g L]

/-- A loop that rewrites the value at each member of a list without repeats, from the value
there, rewrites each member's value once. -/
theorem foldl_update_of_nodup {κ ν : Type*} [DecidableEq κ] (φ : κ → ν → ν) :
    ∀ (L : List κ), L.Nodup → ∀ (m : κ → ν),
      L.foldl (fun m a => Function.update m a (φ a (m a))) m =
        fun y => if y ∈ L then φ y (m y) else m y
  | [], _, m => by simp
  | a :: L, hnodup, m => by
    obtain ⟨ha, hL⟩ := List.nodup_cons.mp hnodup
    rw [List.foldl_cons, foldl_update_of_nodup φ L hL]
    funext y
    by_cases hya : y = a
    · subst hya
      simp [ha]
    · by_cases hy : y ∈ L
      · simp [hy, hya]
      · simp [hy, hya]

end Loop

end Closure
