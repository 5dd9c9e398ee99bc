import Mathlib.Data.List.Prime
import Mathlib.NumberTheory.LucasPrimality
import Mathlib.NumberTheory.LegendreSymbol.Basic

/-!
# Arithmetic modulo a prime

Two tools that elliptic-curve code over a prime field rests on, for any modulus.

A Pratt certificate proves a number prime by Lucas's test: a base `a` with
`a ^ (p - 1) ≡ 1` and `a ^ ((p - 1) / q) ≢ 1 (mod p)` for each prime `q` of `p - 1`,
whose primes are certified the same way. A certificate is a list of entries, each
factor certified by an earlier entry; `check` tests it with square-and-multiply
powers (`powMod`), cheap enough for the kernel on numbers of hundreds of bits, and
`check_sound` makes every certified number prime.

For a prime `p ≡ 3 (mod 4)` the `(p + 1) / 4`-th power of a square is one of its
two roots (`sq_pow_quarter`), and negation flips the parity of a nonzero residue
(`val_neg_odd_iff`), so a root is fixed by its parity.
-/

namespace ModPrime

/-! ## Pratt certificates -/

/-- `a ^ n % m` by square-and-multiply over the `bits` low bits of `n`. -/
def powMod (m : ℕ) : ℕ → ℕ → ℕ → ℕ
  | 0, _, _ => 1 % m
  | bits + 1, a, n =>
    let r := powMod m bits (a * a % m) (n / 2)
    if n % 2 = 1 then r * a % m else r

/-- Squaring the base halves the exponent. -/
theorem pow_half_mod (m a n : ℕ) : (a * a % m) ^ (n / 2) % m = a ^ (2 * (n / 2)) % m := by
  rw [← Nat.pow_mod, pow_mul, sq]

theorem powMod_eq (m bits : ℕ) : ∀ a n, n < 2 ^ bits → powMod m bits a n = a ^ n % m := by
  induction bits with
  | zero =>
    intro a n h
    obtain rfl : n = 0 := by simpa using h
    simp [powMod]
  | succ bits ih =>
    intro a n h
    have hhalf : n / 2 < 2 ^ bits := by
      rw [pow_succ] at h
      omega
    simp only [powMod]
    rw [ih _ _ hhalf, pow_half_mod]
    -- the exponent is twice its half, plus its low bit
    have hsplit := Nat.div_add_mod n 2
    split_ifs with hodd
    · conv_rhs => rw [← hsplit, hodd, pow_succ]
      rw [Nat.mod_mul_mod]
    · conv_rhs => rw [← hsplit, show n % 2 = 0 by omega, Nat.add_zero]

/-- An entry of a certificate: the number, Lucas's base, and the factorization of
the number less one as primes with their exponents. -/
structure Entry where
  p : ℕ
  a : ℕ
  factors : List (ℕ × ℕ)

/-- Lucas's test of one entry over exponents of `bits` bits, its factors among the
numbers already certified. -/
def checkEntry (bits : ℕ) (proven : List ℕ) (e : Entry) : Bool :=
  2 ≤ e.p && e.p ≤ 2 ^ bits &&
    e.factors.all (fun f => decide (f.1 ∈ proven)) &&
    (e.factors.map fun f => f.1 ^ f.2).prod == e.p - 1 &&
    powMod e.p bits e.a (e.p - 1) == 1 &&
    e.factors.all (fun f => powMod e.p bits e.a ((e.p - 1) / f.1) != 1)

/-- The entries in order, each tested against those before it. -/
def check (bits : ℕ) : List ℕ → List Entry → Bool
  | _, [] => true
  | proven, e :: es => checkEntry bits proven e && check bits (e.p :: proven) es

/-- A power is one in `ZMod p` when it is one modulo `p`. -/
theorem natCast_pow_eq_one_iff {p : ℕ} (hp : 2 ≤ p) (a n : ℕ) :
    ((a : ZMod p) ^ n = 1) ↔ a ^ n % p = 1 := by
  rw [← Nat.cast_pow, ← Nat.cast_one, ZMod.natCast_eq_natCast_iff',
    Nat.one_mod_eq_one.mpr (by omega)]

/-- An entry that passes the test, its factors prime, is prime. -/
theorem checkEntry_sound {bits : ℕ} {proven : List ℕ} {e : Entry}
    (hproven : ∀ q ∈ proven, q.Prime) (h : checkEntry bits proven e = true) : e.p.Prime := by
  simp only [checkEntry, Bool.and_eq_true, decide_eq_true_eq, List.all_eq_true, beq_iff_eq,
    bne_iff_ne, ne_eq] at h
  obtain ⟨⟨⟨⟨⟨h2, hbits⟩, hknown⟩, hprod⟩, hfull⟩, hpart⟩ := h
  have hfits : ∀ n, n ≤ e.p - 1 → n < 2 ^ bits := fun n hn => by omega
  apply lucas_primality e.p (e.a : ZMod e.p)
  · rw [natCast_pow_eq_one_iff h2, ← powMod_eq _ _ _ _ (hfits _ le_rfl)]
    exact hfull
  · intro q hq hdvd
    -- a prime dividing the product of prime powers is one of their primes
    rw [← hprod] at hdvd
    obtain ⟨x, hx, hqx⟩ := (Prime.dvd_prod_iff hq.prime).mp hdvd
    obtain ⟨f, hf, rfl⟩ := List.mem_map.mp hx
    have hq_eq : q = f.1 :=
      (Nat.prime_dvd_prime_iff_eq hq (hproven _ (hknown f hf))).mp (hq.dvd_of_dvd_pow hqx)
    subst hq_eq
    rw [ne_eq, natCast_pow_eq_one_iff h2, ← powMod_eq _ _ _ _ (hfits _ (Nat.div_le_self _ _))]
    exact hpart f hf

/-- Every number a passing certificate lists is prime. -/
theorem check_sound {bits : ℕ} (es : List Entry) :
    ∀ {proven : List ℕ}, (∀ q ∈ proven, q.Prime) → check bits proven es = true →
      ∀ e ∈ es, e.p.Prime := by
  induction es with
  | nil => exact fun _ _ e he => absurd he List.not_mem_nil
  | cons e es ih =>
    intro proven hproven h e' he'
    simp only [check, Bool.and_eq_true] at h
    have hp := checkEntry_sound hproven h.1
    have hproven' : ∀ q ∈ e.p :: proven, q.Prime := by
      intro q hq
      rcases List.mem_cons.mp hq with rfl | hq
      · exact hp
      · exact hproven q hq
    rcases List.mem_cons.mp he' with rfl | he'
    · exact hp
    · exact ih hproven' h.2 e' he'

/-- A number listed by a passing certificate that starts from nothing is prime. -/
theorem prime_of_check {bits : ℕ} {es : List Entry} (h : check bits [] es = true) {p : ℕ}
    (hp : p ∈ es.map Entry.p) : p.Prime := by
  obtain ⟨e, he, rfl⟩ := List.mem_map.mp hp
  exact check_sound es (fun _ hq => absurd hq List.not_mem_nil) h e he

/-! ## Square roots modulo `p ≡ 3 (mod 4)` -/

section Sqrt

variable {p : ℕ} [Fact p.Prime]

/-- The `(p + 1) / 4`-th power of a square squares back to it. -/
theorem sq_pow_quarter (h4 : p % 4 = 3) (y : ZMod p) :
    ((y ^ 2) ^ ((p + 1) / 4)) ^ 2 = y ^ 2 := by
  have hquarter : 2 * ((p + 1) / 4 * 2) = p - 1 + 2 := by omega
  rw [← pow_mul, ← pow_mul, hquarter, pow_add]
  by_cases hy : y = 0
  · subst hy
    simp
  · rw [ZMod.pow_card_sub_one_eq_one hy, one_mul]

/-- For odd `p`, negation flips the parity of a nonzero residue. -/
theorem val_neg_odd_iff (hodd : p % 2 = 1) {y : ZMod p} (hy : y ≠ 0) :
    (-y).val % 2 = 1 ↔ ¬y.val % 2 = 1 := by
  have hlt := ZMod.val_lt y
  have hpos := ZMod.val_pos.mpr hy
  rw [ZMod.neg_val, if_neg hy]
  omega

end Sqrt

end ModPrime
