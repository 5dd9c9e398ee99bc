import Mathlib

/-!
# Checked access to C++ containers

C++ code reads `v[i]` and builds `std::vector(v.begin() + a, v.end())` without
a bound check; past the end the behaviour is undefined. A computation here is
`Checked ε α`: it returns a value, stops with the rejection `ε` the code itself
reports, or stops with a `Fault`, the model of leaving defined behaviour
(an index past the end, a null dereference, a failed `assert`, a thrown
exception). Every checked read is a fault exactly when the C++ read is out of
range, so "the code never faults" is a statement about the source.

`NoFault` is the property the safety results are about. Its rules below
(`noFault_bind` and the leaf rules) are what a proof of fault freedom uses: a
loop is a structural recursion whose step lemma is one application of
`noFault_bind`.
-/

/-- The ways a C++ computation leaves defined behaviour. -/
inductive Fault where
  /-- `v[i]` with `i ≥ v.size()`, or a range `[begin + a, begin + b)` past the end. -/
  | outOfRange
  /-- Dereference of a null pointer. -/
  | nullDeref
  /-- An `assert` whose condition is false. -/
  | assertFailure
  /-- A thrown exception, with its `what()` text. -/
  | exception (what : String)
  /-- A recursion nested deeper than the stack the run is given. -/
  | stackOverflow
  deriving DecidableEq, Repr

/-- Why a checked computation stopped early. -/
inductive Stop (ε : Type) where
  /-- The code's own failure report: `return false` with an error or a rejection. -/
  | reject (e : ε)
  /-- Undefined behaviour, an abort or an escaping exception. -/
  | fault (f : Fault)
  deriving DecidableEq, Repr

/-- A computation of the C++ code with its rejections `ε` and its faults. -/
abbrev Checked (ε α : Type) := Except (Stop ε) α

namespace Checked

variable {ε ε' α β : Type}

/-! ## Accesses -/

/-- `v[i]` of a `std::vector` or `prevector`. -/
def get (xs : List α) (i : Nat) : Checked ε α :=
  match xs[i]? with
  | some a => .ok a
  | none => .error (.fault .outOfRange)

/-- The range `[begin + a, begin + b)`, defined only when `a ≤ b ≤ size`. -/
def slice (xs : List α) (a b : Nat) : Checked ε (List α) :=
  if a ≤ b ∧ b ≤ xs.length then .ok ((xs.drop a).take (b - a)) else .error (.fault .outOfRange)

/-- The range `[begin + a, end)`. -/
def suffix (xs : List α) (a : Nat) : Checked ε (List α) := slice xs a xs.length

/-- Dereference of a pointer, `none` being `nullptr`. -/
def deref : Option α → Checked ε α
  | some a => .ok a
  | none => .error (.fault .nullDeref)

/-- `assert(c)`. -/
def assert (c : Bool) : Checked ε Unit :=
  if c then .ok () else .error (.fault .assertFailure)

/-- `if (!c) { err = e; return false; }`: go on when `c` holds, else reject with `e`. -/
def require (c : Bool) (e : ε) : Checked ε Unit :=
  if c then .ok () else .error (.reject e)

/-- `throw std::runtime_error(what)`, which no caller on the path catches. -/
def raise (what : String) : Checked ε α := .error (.fault (.exception what))

/-- The code's own rejection. -/
def reject (e : ε) : Checked ε α := .error (.reject e)

/-- Call a function with its own rejection type, keeping its rejection as a value
and passing a fault on. -/
def attempt (x : Checked ε α) : Checked ε' (Except ε α) :=
  match x with
  | .ok a => .ok (.ok a)
  | .error (.reject e) => .ok (.error e)
  | .error (.fault f) => .error (.fault f)

@[simp] theorem get_of_lt {xs : List α} {i : Nat} (h : i < xs.length) :
    (get xs i : Checked ε α) = .ok xs[i] := by
  simp [get, List.getElem?_eq_getElem h]

theorem get_of_le {xs : List α} {i : Nat} (h : xs.length ≤ i) :
    (get xs i : Checked ε α) = .error (.fault .outOfRange) := by
  simp [get, List.getElem?_eq_none h]

@[simp] theorem slice_of_le {xs : List α} {a b : Nat} (hab : a ≤ b) (hb : b ≤ xs.length) :
    (slice xs a b : Checked ε (List α)) = .ok ((xs.drop a).take (b - a)) := by
  simp [slice, hab, hb]

theorem slice_of_gt {xs : List α} {a b : Nat} (h : b < a ∨ xs.length < b) :
    (slice xs a b : Checked ε (List α)) = .error (.fault .outOfRange) := by
  simp only [slice, ite_eq_right_iff, reduceCtorEq, imp_false, not_and, Nat.not_le]
  omega

@[simp] theorem suffix_of_le {xs : List α} {a : Nat} (h : a ≤ xs.length) :
    (suffix xs a : Checked ε (List α)) = .ok (xs.drop a) := by
  rw [suffix, slice_of_le h (Nat.le_refl _), List.take_of_length_le (by simp)]

theorem suffix_of_gt {xs : List α} {a : Nat} (h : xs.length < a) :
    (suffix xs a : Checked ε (List α)) = .error (.fault .outOfRange) :=
  slice_of_gt (.inl h)

/-- Reading an element back at the offset it was written at. -/
theorem get_append_cons (pre post : List α) (a : α) :
    (get (pre ++ a :: post) pre.length : Checked ε α) = .ok a := by
  rw [get_of_lt (by simp)]
  simp

/-- Slicing a block back out at the offset it was written at. -/
theorem slice_append (pre mid post : List α) :
    (slice (pre ++ mid ++ post) pre.length (pre.length + mid.length) : Checked ε (List α)) =
      .ok mid := by
  rw [slice_of_le (Nat.le_add_right _ _) (by simp)]
  simp

/-- Reading the element found where the list is cut. -/
theorem get_of_drop_eq {xs : List α} {i : Nat} {a : α} {rest : List α}
    (h : xs.drop i = a :: rest) : (get xs i : Checked ε α) = .ok a := by
  have hi : xs[i]? = some a := by
    have h0 := congrArg (fun l => l[0]?) h
    simpa [List.getElem?_drop] using h0
  simp [get, hi]

/-- Slicing out a block found where the list is cut. -/
theorem slice_of_drop_eq {xs : List α} {i : Nat} {mid rest : List α} (hi : i ≤ xs.length)
    (h : xs.drop i = mid ++ rest) :
    (slice xs i (i + mid.length) : Checked ε (List α)) = .ok mid := by
  have hlen : xs.length - i = mid.length + rest.length := by
    simpa using congrArg List.length h
  rw [slice_of_le (Nat.le_add_right _ _) (by omega), h]
  simp

@[simp] theorem deref_some (a : α) : (deref (some a) : Checked ε α) = .ok a := rfl

@[simp] theorem deref_none : (deref none : Checked ε α) = .error (.fault .nullDeref) := rfl

@[simp] theorem assert_true : (assert true : Checked ε Unit) = .ok () := rfl

@[simp] theorem assert_false : (assert false : Checked ε Unit) = .error (.fault .assertFailure) :=
  rfl

@[simp] theorem require_true (e : ε) : (require true e : Checked ε Unit) = .ok () := rfl

@[simp] theorem require_false (e : ε) : (require false e : Checked ε Unit) = .error (.reject e) :=
  rfl

/-- A requirement passes exactly when its condition holds. -/
theorem require_eq_ok {c : Bool} {e : ε} : (require c e : Checked ε Unit) = .ok () ↔ c = true := by
  cases c <;> simp

@[simp] theorem attempt_ok (a : α) : (attempt (.ok a : Checked ε α) : Checked ε' _) = .ok (.ok a) :=
  rfl

@[simp] theorem attempt_reject (e : ε) :
    (attempt (.error (.reject e) : Checked ε α) : Checked ε' _) = .ok (.error e) := rfl

@[simp] theorem attempt_fault (f : Fault) :
    (attempt (.error (.fault f) : Checked ε α) : Checked ε' _) = .error (.fault f) := rfl

@[simp] theorem reject_eq (e : ε) : (reject e : Checked ε α) = .error (.reject e) := rfl

@[simp] theorem raise_eq (what : String) :
    (raise what : Checked ε α) = .error (.fault (.exception what)) := rfl

@[simp] theorem ok_bind (a : α) (g : α → Checked ε β) : ((.ok a : Checked ε α) >>= g) = g a := rfl

@[simp] theorem error_bind (s : Stop ε) (g : α → Checked ε β) :
    ((.error s : Checked ε α) >>= g) = .error s := rfl

@[simp] theorem map_ok (g : α → β) (a : α) : (g <$> (.ok a : Checked ε α)) = .ok (g a) := rfl

@[simp] theorem map_error (g : α → β) (s : Stop ε) :
    (g <$> (.error s : Checked ε α)) = .error s := rfl

@[simp] theorem pure_eq (a : α) : (pure a : Checked ε α) = .ok a := rfl

/-- A statement followed by nothing. -/
theorem bind_ok_unit (x : Checked ε Unit) : (x >>= fun _ => (.ok () : Checked ε Unit)) = x := by
  match x with
  | .ok () => rfl
  | .error _ => rfl

/-- A sequence that returns a value ran its first part to a value. -/
theorem bind_eq_ok {x : Checked ε α} {g : α → Checked ε β} {b : β} (h : x >>= g = .ok b) :
    ∃ a, x = .ok a ∧ g a = .ok b := by
  cases x with
  | error e => cases h
  | ok a => exact ⟨a, rfl, h⟩

/-- The invariant rule of a checked loop: what holds of the initial state and every
pass keeps holds of the state the loop returns. -/
theorem foldlM_invariant {P : β → Prop} {f : β → α → Checked ε β} {xs : List α} {init r : β}
    (hinit : P init) (hstep : ∀ s x s', x ∈ xs → P s → f s x = .ok s' → P s')
    (h : xs.foldlM f init = .ok r) : P r := by
  induction xs generalizing init with
  | nil =>
    cases h
    exact hinit
  | cons x xs ih =>
    rw [List.foldlM_cons] at h
    obtain ⟨s, hs, hrest⟩ := bind_eq_ok h
    exact ih (hstep init x s (by simp) hinit hs)
      (fun s y s' hy => hstep s y s' (by simp [hy])) hrest

/-- The total rule of a checked loop: when every pass from a state of the invariant
returns a state of the invariant, so does the loop. -/
theorem foldlM_ok_of_invariant {P : β → Prop} {f : β → α → Checked ε β}
    (hstep : ∀ s x, P s → ∃ s', f s x = .ok s' ∧ P s') :
    ∀ (xs : List α) {init : β}, P init → ∃ r, xs.foldlM f init = .ok r ∧ P r := by
  intro xs
  induction xs with
  | nil => exact fun {init} hinit => ⟨init, rfl, hinit⟩
  | cons x xs ih =>
    intro init hinit
    obtain ⟨s, hs, hP⟩ := hstep init x hinit
    rw [List.foldlM_cons, hs, ok_bind]
    exact ih hP

/-- A checked loop over distinct keys whose pass for `x` changes only what `look` reads
under `key x`: each key's pass sees the key as it was before the loop, so the loop
succeeds and relates each key's old and new reading as its own pass does, and leaves
every other key as it was. -/
theorem foldlM_keyLocal {M κ γ δ : Type} {look : M → κ → γ} {key : δ → κ}
    {f : M → δ → Checked ε M}
    (hloc : ∀ m x m', f m x = .ok m' → ∀ k, k ≠ key x → look m' k = look m k)
    {P : δ → γ → γ → Prop} {xs : List δ} (hnd : (xs.map key).Nodup) {m : M}
    (hok : ∀ x ∈ xs, ∀ m₀, look m₀ (key x) = look m (key x) →
      ∃ m₁, f m₀ x = .ok m₁ ∧ P x (look m (key x)) (look m₁ (key x))) :
    ∃ m', xs.foldlM f m = .ok m' ∧ (∀ x ∈ xs, P x (look m (key x)) (look m' (key x))) ∧
      ∀ k, k ∉ xs.map key → look m' k = look m k := by
  induction xs generalizing m with
  | nil => exact ⟨m, rfl, by simp, fun _ _ => rfl⟩
  | cons x xs ih =>
    rw [List.map_cons, List.nodup_cons] at hnd
    obtain ⟨m₁, hm₁, hP⟩ := hok x (by simp) m rfl
    -- the later keys are untouched by the pass for `x`
    have hrest : ∀ y ∈ xs, look m₁ (key y) = look m (key y) := by
      intro y hy
      exact hloc m x m₁ hm₁ (key y) (fun he => hnd.1 (he ▸ List.mem_map_of_mem hy))
    have hok₁ : ∀ y ∈ xs, ∀ m₀, look m₀ (key y) = look m₁ (key y) →
        ∃ m₂, f m₀ y = .ok m₂ ∧ P y (look m₁ (key y)) (look m₂ (key y)) := by
      intro y hy m₀ h₀
      rw [hrest y hy] at h₀ ⊢
      exact hok y (by simp [hy]) m₀ h₀
    obtain ⟨m', hfold, hPs, hothers⟩ := ih hnd.2 hok₁
    refine ⟨m', by rw [List.foldlM_cons, hm₁]; exact hfold, ?_, ?_⟩
    · intro y hy
      rcases List.mem_cons.1 hy with rfl | hy
      · rw [hothers _ hnd.1]
        exact hP
      · rw [← hrest y hy]
        exact hPs y hy
    · intro k hk
      simp only [List.map_cons, List.mem_cons, not_or] at hk
      rw [hothers k hk.2, hloc m x m₁ hm₁ k hk.1]

/-- A checked loop over distinct members of a set `E` whose pass for `b` takes the state of the
members done so far, `st m`, to the state `st (insert b m)`: the loop ends at the state of the
members done and the list. -/
theorem foldlM_finset_family {σ : Type} [DecidableEq α] (st : Finset α → σ) {f : σ → α → Checked ε σ}
    {E : Finset α} (hstep : ∀ b ∈ E, ∀ m ⊆ E, b ∉ m → f (st m) b = .ok (st (insert b m))) :
    ∀ (L : List α), L.Nodup → ∀ m ⊆ E, (∀ b ∈ L, b ∈ E ∧ b ∉ m) →
      L.foldlM f (st m) = .ok (st (m ∪ L.toFinset))
  | [], _, m, _, _ => by simp
  | b :: L, hnd, m, hm, hL => by
    obtain ⟨hbL, hnd⟩ := List.nodup_cons.mp hnd
    obtain ⟨hbE, hbm⟩ := hL b List.mem_cons_self
    -- the later members are neither `b` nor done before
    have hrest : ∀ c ∈ L, c ∈ E ∧ c ∉ insert b m := fun c hc =>
      ⟨(hL c (List.mem_cons_of_mem _ hc)).1, Finset.mem_insert.not.mpr
        (not_or.mpr ⟨fun h => hbL (h ▸ hc), (hL c (List.mem_cons_of_mem _ hc)).2⟩)⟩
    rw [List.foldlM_cons, hstep b hbE m hm hbm, ok_bind,
      foldlM_finset_family st hstep L hnd (insert b m) (Finset.insert_subset hbE hm) hrest,
      List.toFinset_cons, Finset.union_insert, Finset.insert_union]

/-! ## Fault freedom -/

/-- The computation ends in a value or in the code's own rejection: it never
leaves defined behaviour. -/
def NoFault (x : Checked ε α) : Prop := ∀ f, x ≠ .error (.fault f)

theorem noFault_iff (x : Checked ε α) :
    NoFault x ↔ (∃ a, x = .ok a) ∨ ∃ e, x = .error (.reject e) := by
  constructor
  · intro h
    match x, h with
    | .ok a, _ => exact .inl ⟨a, rfl⟩
    | .error (.reject e), _ => exact .inr ⟨e, rfl⟩
    | .error (.fault f), h => exact absurd rfl (h f)
  · rintro (⟨a, rfl⟩ | ⟨e, rfl⟩) f <;> simp

@[simp] theorem noFault_ok (a : α) : NoFault (.ok a : Checked ε α) := by
  intro f h
  cases h

@[simp] theorem noFault_reject (e : ε) : NoFault (.error (.reject e) : Checked ε α) := by
  intro f h
  cases h

@[simp] theorem not_noFault_fault (f : Fault) : ¬ NoFault (.error (.fault f) : Checked ε α) :=
  fun h => h f rfl

/-- Fault freedom of a sequence: the first part never faults, and the rest never
faults from any value the first part returns. -/
theorem noFault_bind {x : Checked ε α} {g : α → Checked ε β} (hx : NoFault x)
    (hg : ∀ a, x = .ok a → NoFault (g a)) : NoFault (x >>= g) := by
  rcases (noFault_iff x).1 hx with ⟨a, rfl⟩ | ⟨e, rfl⟩
  · exact hg a rfl
  · exact noFault_reject e

theorem noFault_attempt_iff (x : Checked ε α) :
    NoFault (attempt x : Checked ε' (Except ε α)) ↔ NoFault x := by
  match x with
  | .ok a => simp
  | .error (.reject e) => simp
  | .error (.fault f) => simp

/-! ## Loops

A C++ loop over a vector is `List.forM` (every element), `List.findSomeM?` (stop at
the first element whose body returns a result) or `List.anyM` (stop at the first
`true`). Each never faults when its body never faults on an element of the list:
the step of the induction is one application of `noFault_bind`. -/

theorem noFault_forM {xs : List α} {body : α → Checked ε PUnit}
    (h : ∀ x ∈ xs, NoFault (body x)) : NoFault (xs.forM body) := by
  induction xs with
  | nil => simp
  | cons x xs ih =>
    simp only [List.forM]
    exact noFault_bind (h x (by simp)) fun _ _ => ih fun y hy => h y (by simp [hy])

/-- A loop over every element succeeds when its body succeeds on each element. -/
theorem forM_eq_ok {xs : List α} {body : α → Checked ε PUnit}
    (h : ∀ x ∈ xs, body x = .ok ()) : xs.forM body = .ok () := by
  induction xs with
  | nil => rfl
  | cons x xs ih =>
    simp only [List.forM, h x List.mem_cons_self, ok_bind]
    exact ih fun y hy => h y (List.mem_cons_of_mem x hy)

/-- A `mapM` whose every call returns `ok` returns the map. -/
theorem mapM_eq_ok {f : α → Checked ε β} {g : α → β} {xs : List α}
    (h : ∀ x ∈ xs, f x = .ok (g x)) : xs.mapM f = .ok (xs.map g) := by
  induction xs with
  | nil => rfl
  | cons x xs ih =>
    rw [List.mapM_cons, h x List.mem_cons_self, ok_bind,
      ih fun y hy => h y (List.mem_cons_of_mem x hy)]
    rfl

/-- A loop over every element succeeds only when its body succeeds on each element. -/
theorem eq_ok_of_forM_eq_ok {xs : List α} {body : α → Checked ε PUnit}
    (h : xs.forM body = .ok ()) {x : α} (hx : x ∈ xs) : body x = .ok () := by
  induction xs with
  | nil => simp at hx
  | cons y xs ih =>
    simp only [List.forM] at h
    obtain ⟨u, hy, hrest⟩ := bind_eq_ok h
    rcases List.mem_cons.mp hx with rfl | hx
    · exact hy
    · exact ih hrest hx

/-- The search passes over a prefix on which its body finds nothing. -/
theorem findSomeM_append_of_none {pre xs : List α} {body : α → Checked ε (Option β)}
    (h : ∀ x ∈ pre, body x = .ok none) :
    (pre ++ xs).findSomeM? body = xs.findSomeM? body := by
  induction pre with
  | nil => rfl
  | cons x pre ih =>
    rw [List.cons_append, List.findSomeM?_cons, h x List.mem_cons_self, ok_bind]
    exact ih fun y hy => h y (List.mem_cons_of_mem x hy)

/-- What the search finds is its body's result on an element of the list. -/
theorem mem_of_findSomeM_eq_ok {xs : List α} {body : α → Checked ε (Option β)} {b : β}
    (h : xs.findSomeM? body = .ok (some b)) : ∃ x ∈ xs, body x = .ok (some b) := by
  induction xs with
  | nil => simp at h
  | cons x xs ih =>
    rw [List.findSomeM?_cons] at h
    obtain ⟨r, hx, h⟩ := bind_eq_ok h
    cases r with
    | some b' =>
      have hb : b' = b := by simpa using h
      exact ⟨x, List.mem_cons_self, hb ▸ hx⟩
    | none =>
      obtain ⟨y, hy, hyb⟩ := ih h
      exact ⟨y, List.mem_cons_of_mem x hy, hyb⟩

theorem noFault_findSomeM {xs : List α} {body : α → Checked ε (Option β)}
    (h : ∀ x ∈ xs, NoFault (body x)) : NoFault (xs.findSomeM? body) := by
  induction xs with
  | nil => simp
  | cons x xs ih =>
    rw [List.findSomeM?_cons]
    refine noFault_bind (h x (by simp)) fun r _ => ?_
    cases r with
    | some b => simp
    | none => exact ih fun y hy => h y (by simp [hy])

theorem noFault_anyM {xs : List α} {body : α → Checked ε Bool}
    (h : ∀ x ∈ xs, NoFault (body x)) : NoFault (xs.anyM body) := by
  induction xs with
  | nil => simp
  | cons x xs ih =>
    rw [List.anyM_cons]
    refine noFault_bind (h x (by simp)) fun r _ => ?_
    cases r with
    | true => simp
    | false => exact ih fun y hy => h y (by simp [hy])

theorem noFault_get {xs : List α} {i : Nat} (h : i < xs.length) :
    NoFault (get xs i : Checked ε α) := by
  simp [get_of_lt h]

theorem noFault_slice {xs : List α} {a b : Nat} (hab : a ≤ b) (hb : b ≤ xs.length) :
    NoFault (slice xs a b : Checked ε (List α)) := by
  simp [slice_of_le hab hb]

end Checked
