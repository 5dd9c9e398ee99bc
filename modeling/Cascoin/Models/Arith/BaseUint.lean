import Mathlib.Data.ZMod.Basic
import Cascoin.Core.Limbs
import Cascoin.Core.Checked
import Cascoin.Models.Arith.Compact

/-!
# `base_uint`: the limbs of the big-number arithmetic

`base_uint<BITS>` of `arith_uint256.h` keeps a number as `WIDTH = BITS / 32` limbs of 32 bits,
the least significant first, and `arith_uint256` is `base_uint<256>`. The consensus models take
an `arith_uint256` as the number below `2 ^ 256` it stands for (`toNat`), with each operation
the one on numbers cut to the width. Here the operations are modelled on the limbs, loop by
loop, as the source computes them, and each is shown to compute that number:

* `toNat_add`, `toNat_sub`, `toNat_mulWord`, `toNat_mul`: sums, differences and products
  modulo `2 ^ (32 * WIDTH)`, every `uint64_t` step of the carries without overflow;
* `toNat_shiftLeft`, `toNat_shiftRight`: the shifts;
* `CompareTo_eq`, `bits_eq_size`: the order and the bit length.

Over the numbers sits what the operators are for: the limbs are a faithful representation of
the integers modulo `2 ^ (32 * WIDTH)` (`toZMod_injective`), and `+=`, `-=` and the two `*=`
are that ring's operations (`toZMod_add`, `toZMod_sub`, `toZMod_mul`, `toZMod_mulWord`).
-/

namespace Cascoin

/-- `base_uint<BITS>`: the `WIDTH = BITS / 32` limbs `pn`, least significant first. -/
structure base_uint (WIDTH : ℕ) where
  pn : List UInt32
  length_pn : pn.length = WIDTH

namespace base_uint

/-! ## The loops on the limbs -/

/-- The loop of `operator+=`, limb by limb from the least significant:
`uint64_t n = carry + pn[i] + b.pn[i]; pn[i] = n & 0xffffffff; carry = n >> 32;` -/
def addLimbs : List UInt32 → List UInt32 → UInt64 → List UInt32
  | p :: pn, q :: qn, carry =>
    let n := carry + p.toUInt64 + q.toUInt64
    (n &&& 0xffffffff).toUInt32 :: addLimbs pn qn (n >>> 32)
  | _, _, _ => []

/-- The loop of `operator++`: `while (i < WIDTH && ++pn[i] == 0) i++;` -/
def incrementLimbs : List UInt32 → List UInt32
  | [] => []
  | p :: pn => if p + 1 = 0 then 0 :: incrementLimbs pn else (p + 1) :: pn

/-- The loop of `operator*=(uint32_t b32)`:
`uint64_t n = carry + (uint64_t)b32 * pn[i]; pn[i] = n & 0xffffffff; carry = n >> 32;` -/
def mulWordLimbs (b32 : UInt32) : List UInt32 → UInt64 → List UInt32
  | [], _ => []
  | p :: pn, carry =>
    let n := carry + b32.toUInt64 * p.toUInt64
    (n &&& 0xffffffff).toUInt32 :: mulWordLimbs b32 pn (n >>> 32)

/-- The inner loop of `operator*=(const base_uint& b)` for row `j`, over the limbs `pn[i + j]`
while `i + j < WIDTH`: `uint64_t n = carry + pn[i + j] + (uint64_t)a.pn[j] * b.pn[i];` -/
def mulRow (aj : UInt32) : List UInt32 → List UInt32 → UInt64 → List UInt32
  | [], _, _ => []
  | p :: window, q :: qn, carry =>
    let n := carry + p.toUInt64 + aj.toUInt64 * q.toUInt64
    (n &&& 0xffffffff).toUInt32 :: mulRow aj window qn (n >>> 32)
  | p :: window, [], _ => p :: window

/-- Row `j` of `operator*=(const base_uint& b)`, with `carry = 0`: the limbs below `j` stay,
the inner loop runs over those from `j` up. -/
def mulRowStep (a b : List UInt32) (pn : List UInt32) (j : ℕ) : List UInt32 :=
  pn.take j ++ mulRow (a.getD j 0) (pn.drop j) b 0

/-- `operator*=(const base_uint& b)`: from zero, row `j` adds `a.pn[j]` times `b` into the
limbs from `j` up. -/
def mulLimbs (a b : List UInt32) : List UInt32 :=
  (List.range a.length).foldl (mulRowStep a b) (List.replicate a.length 0)

/-- One pass of the loop of `operator<<=`, for limb `i` with `k = shift / 32` whole limbs and
`shift % 32` bits: `pn[i + k + 1] |= (a.pn[i] >> (32 - shift))` and
`pn[i + k] |= (a.pn[i] << shift)`, where they are limbs. -/
def shiftLeftStep (a : List UInt32) (k shift : ℕ) (pn : List UInt32) (i : ℕ) : List UInt32 :=
  let pn := if i + k + 1 < a.length ∧ shift ≠ 0 then
      pn.modify (i + k + 1) (· ||| a.getD i 0 >>> (32 - shift).toUInt32)
    else pn
  if i + k < a.length then pn.modify (i + k) (· ||| a.getD i 0 <<< shift.toUInt32) else pn

/-- `operator<<=(unsigned int shift)`: from zero, one pass for each limb. -/
def shiftLeftLimbs (a : List UInt32) (shift : ℕ) : List UInt32 :=
  (List.range a.length).foldl (shiftLeftStep a (shift / 32) (shift % 32))
    (List.replicate a.length 0)

/-- One pass of the loop of `operator>>=`, for limb `i`:
`pn[i - k - 1] |= (a.pn[i] << (32 - shift))` and `pn[i - k] |= (a.pn[i] >> shift)`,
where `i - k - 1 >= 0` and `i - k >= 0`. -/
def shiftRightStep (a : List UInt32) (k shift : ℕ) (pn : List UInt32) (i : ℕ) : List UInt32 :=
  let pn := if k + 1 ≤ i ∧ shift ≠ 0 then
      pn.modify (i - k - 1) (· ||| a.getD i 0 <<< (32 - shift).toUInt32)
    else pn
  if k ≤ i then pn.modify (i - k) (· ||| a.getD i 0 >>> shift.toUInt32) else pn

/-- `operator>>=(unsigned int shift)`: from zero, one pass for each limb. -/
def shiftRightLimbs (a : List UInt32) (shift : ℕ) : List UInt32 :=
  (List.range a.length).foldl (shiftRightStep a (shift / 32) (shift % 32))
    (List.replicate a.length 0)

/-- The loop of `CompareTo(b)`, from the most significant limb down: the first limb that
differs decides. -/
def compareFrom : List UInt32 → List UInt32 → Int
  | p :: pn, q :: qn => if p < q then -1 else if p > q then 1 else compareFrom pn qn
  | _, _ => 0

/-- The inner loop of `bits()` on a limb that is not zero:
`for (int nbits = 31; nbits > 0; nbits--) if (pn[pos] & 1 << nbits) return 32 * pos + nbits + 1;`
and then `32 * pos + 1`, less the `32 * pos`. -/
def limbBits (x : UInt32) : ℕ → ℕ
  | 0 => 1
  | nbits + 1 => if x &&& 1 <<< (nbits + 1).toUInt32 ≠ 0 then nbits + 2 else limbBits x nbits

/-- The outer loop of `bits()`, over the limbs from the most significant: the first that is
not zero gives the answer. -/
def bitsFrom : List UInt32 → ℕ
  | [] => 0
  | p :: rest => if p ≠ 0 then 32 * rest.length + limbBits p 31 else bitsFrom rest

/-! ## Lengths -/

theorem length_addLimbs (pn qn : List UInt32) (carry : UInt64) :
    (addLimbs pn qn carry).length = min pn.length qn.length := by
  induction pn generalizing qn carry with
  | nil => simp [addLimbs]
  | cons p pn ih =>
    cases qn with
    | nil => simp [addLimbs]
    | cons q qn =>
      simp only [addLimbs, List.length_cons, ih]
      omega

theorem length_mulRow (aj : UInt32) (window : List UInt32) :
    ∀ (qn : List UInt32) (carry : UInt64), (mulRow aj window qn carry).length = window.length := by
  induction window with
  | nil => simp [mulRow]
  | cons p window ih =>
    intro qn carry
    cases qn with
    | nil => simp [mulRow]
    | cons q qn => simp [mulRow, ih]

/-! ## The value of the limbs -/

/-- The number limbs stand for, least significant first. -/
def value (pn : List UInt32) : ℕ := Nat.ofDigits (2 ^ 32) (pn.map UInt32.toNat)

@[simp] theorem value_nil : value [] = 0 := rfl

@[simp] theorem value_cons (p : UInt32) (pn : List UInt32) :
    value (p :: pn) = p.toNat + 2 ^ 32 * value pn := rfl

theorem value_lt (pn : List UInt32) : value pn < 2 ^ (32 * pn.length) := by
  have h := Nat.ofDigits_lt_base_pow_length (b := 2 ^ 32) (l := pn.map UInt32.toNat)
    (by norm_num) (fun x hx => by
      obtain ⟨p, -, rfl⟩ := List.mem_map.mp hx
      exact UInt32.toNat_lt p)
  rwa [List.length_map, ← pow_mul] at h

theorem value_append (pn qn : List UInt32) :
    value (pn ++ qn) = value pn + 2 ^ (32 * pn.length) * value qn := by
  rw [value, List.map_append, Nat.ofDigits_append, List.length_map, ← pow_mul]
  rfl

/-- The limbs of `value` in base `2 ^ 32` are below it. -/
theorem limbs_lt (pn : List UInt32) : ∀ x ∈ pn.map UInt32.toNat, x < 2 ^ 32 := by
  intro x hx
  obtain ⟨p, -, rfl⟩ := List.mem_map.mp hx
  exact UInt32.toNat_lt p

/-! ## The 64-bit steps of the carry loops -/

/-- `n & 0xffffffff`, kept as a limb. -/
theorem toNat_low (n : UInt64) : (n &&& 0xffffffff).toUInt32.toNat = n.toNat % 2 ^ 32 := by
  rw [UInt64.toNat_toUInt32, UInt64.toNat_and, show (0xffffffff : UInt64).toNat = 2 ^ 32 - 1 from rfl,
    Nat.and_two_pow_sub_one_eq_mod, Nat.mod_mod]

/-- `n >> 32`, the carry. -/
theorem toNat_high (n : UInt64) : (n >>> 32).toNat = n.toNat / 2 ^ 32 := by
  rw [UInt64.toNat_shiftRight, show (32 : UInt64).toNat % 64 = 32 from rfl, Nat.shiftRight_eq_div_pow]

/-- `carry + pn[i] + b.pn[i]` does not wrap for a carry of at most `2 ^ 32`. -/
theorem toNat_add_add (c : UInt64) (p q : UInt32) (hc : c.toNat ≤ 2 ^ 32) :
    (c + p.toUInt64 + q.toUInt64).toNat = c.toNat + p.toNat + q.toNat := by
  have hp := UInt32.toNat_lt p
  have hq := UInt32.toNat_lt q
  rw [UInt64.toNat_add, UInt64.toNat_add, UInt32.toNat_toUInt64, UInt32.toNat_toUInt64,
    Nat.mod_eq_of_lt (by omega), Nat.mod_eq_of_lt (by omega)]

/-- `carry + (uint64_t)b32 * pn[i]` does not wrap for a carry below `2 ^ 32`. -/
theorem toNat_add_mul (c : UInt64) (b p : UInt32) (hc : c.toNat < 2 ^ 32) :
    (c + b.toUInt64 * p.toUInt64).toNat = c.toNat + b.toNat * p.toNat := by
  have hb := UInt32.toNat_lt b
  have hp := UInt32.toNat_lt p
  have hbp : b.toNat * p.toNat ≤ (2 ^ 32 - 1) * (2 ^ 32 - 1) :=
    Nat.mul_le_mul (by omega) (by omega)
  rw [UInt64.toNat_add, UInt64.toNat_mul, UInt32.toNat_toUInt64, UInt32.toNat_toUInt64,
    Nat.mod_eq_of_lt (by omega), Nat.mod_eq_of_lt (by omega)]

/-- `carry + pn[i + j] + (uint64_t)a.pn[j] * b.pn[i]` does not wrap for a carry below
`2 ^ 32`: at most `2 ^ 64 - 1`. -/
theorem toNat_add_add_mul (c : UInt64) (p a q : UInt32) (hc : c.toNat < 2 ^ 32) :
    (c + p.toUInt64 + a.toUInt64 * q.toUInt64).toNat = c.toNat + p.toNat + a.toNat * q.toNat := by
  have hp := UInt32.toNat_lt p
  have ha := UInt32.toNat_lt a
  have hq := UInt32.toNat_lt q
  have haq : a.toNat * q.toNat ≤ (2 ^ 32 - 1) * (2 ^ 32 - 1) :=
    Nat.mul_le_mul (by omega) (by omega)
  rw [UInt64.toNat_add, UInt64.toNat_add, UInt64.toNat_mul, UInt32.toNat_toUInt64,
    UInt32.toNat_toUInt64, UInt32.toNat_toUInt64, Nat.mod_eq_of_lt (by omega),
    Nat.mod_eq_of_lt (by omega), Nat.mod_eq_of_lt (by omega)]

/-! ## Addition, increment, complement and negation -/

/-- The loop of `operator+=` adds the limbs and the carry modulo the width; every carry is
`0` or `1`, so no `uint64_t` sum wraps. -/
theorem value_addLimbs (pn : List UInt32) :
    ∀ (qn : List UInt32) (carry : UInt64), pn.length = qn.length → carry.toNat ≤ 1 →
      value (addLimbs pn qn carry) = (value pn + value qn + carry.toNat) % 2 ^ (32 * pn.length) := by
  induction pn with
  | nil =>
    intro qn carry hlen _
    cases qn with
    | nil => simp [addLimbs, Nat.mod_one]
    | cons q qn => simp at hlen
  | cons p pn ih =>
    intro qn carry hlen hc
    cases qn with
    | nil => simp at hlen
    | cons q qn =>
      have hp := UInt32.toNat_lt p
      have hq := UInt32.toNat_lt q
      have hn := toNat_add_add carry p q (by omega)
      have hcarry : ((carry + p.toUInt64 + q.toUInt64) >>> 32).toNat ≤ 1 := by
        rw [toNat_high, hn]
        omega
      simp only [addLimbs, value_cons, toNat_low, ih qn _ (by simpa using hlen) hcarry, toNat_high,
        hn, List.length_cons]
      rw [Nat.mul_succ, pow_add, pow_mul, Nat.mul_comm ((2 ^ 32) ^ pn.length), ← pow_succ',
        Limbs.mod_add_mul_mod_pow (by norm_num)]
      congr 1
      ring

/-- The loop of `operator++` adds one modulo the width. -/
theorem value_incrementLimbs (pn : List UInt32) :
    value (incrementLimbs pn) = (value pn + 1) % 2 ^ (32 * pn.length) := by
  induction pn with
  | nil => simp [incrementLimbs]
  | cons p pn ih =>
    have hp := UInt32.toNat_lt p
    have hv := value_lt pn
    have hpow : 2 ^ (32 * (pn.length + 1)) = 2 ^ 32 * 2 ^ (32 * pn.length) := by
      rw [Nat.mul_succ, pow_add, Nat.mul_comm]
    by_cases hwrap : p + 1 = 0
    · -- the limb was all ones: it wraps to zero and the increment goes on to the next limb
      have hmax : p.toNat = 2 ^ 32 - 1 := by
        have h := congrArg UInt32.toNat hwrap
        rw [UInt32.toNat_add, UInt32.toNat_one, UInt32.toNat_zero] at h
        omega
      have hsum : p.toNat + 2 ^ 32 * value pn + 1 = 2 ^ 32 * (value pn + 1) := by
        rw [hmax]
        omega
      rw [incrementLimbs, if_pos hwrap, value_cons, ih, value_cons, List.length_cons, hsum, hpow,
        Nat.mul_mod_mul_left, UInt32.toNat_zero, Nat.zero_add]
    · have hlt : p.toNat + 1 < 2 ^ 32 := by
        have hne : p.toNat + 1 ≠ 2 ^ 32 := by
          intro h
          apply hwrap
          apply UInt32.toNat_inj.mp
          rw [UInt32.toNat_add, UInt32.toNat_one, h]
          rfl
        omega
      have hsum : (p + 1).toNat = p.toNat + 1 := by
        rw [UInt32.toNat_add, UInt32.toNat_one, Nat.mod_eq_of_lt hlt]
      have hfit : p.toNat + 2 ^ 32 * value pn + 1 < 2 ^ (32 * (pn.length + 1)) := by
        rw [hpow]
        have hmul : 2 ^ 32 * (value pn + 1) ≤ 2 ^ 32 * 2 ^ (32 * pn.length) :=
          Nat.mul_le_mul_left _ hv
        rw [Nat.mul_succ] at hmul
        omega
      rw [incrementLimbs, if_neg hwrap, value_cons, value_cons, List.length_cons, hsum,
        Nat.mod_eq_of_lt hfit]
      omega

/-- `operator~` complements the value within the width. -/
theorem value_complement (pn : List UInt32) :
    value (pn.map (~~~ ·)) = 2 ^ (32 * pn.length) - 1 - value pn := by
  induction pn with
  | nil => simp
  | cons p pn ih =>
    have hp := UInt32.toNat_lt p
    have hv := value_lt pn
    have hnot : (~~~p).toNat = 2 ^ 32 - 1 - p.toNat := by
      rw [UInt32.toNat_not]
      rfl
    have hpow : 2 ^ (32 * (pn.length + 1)) = 2 ^ 32 * 2 ^ (32 * pn.length) := by
      rw [Nat.mul_succ, pow_add, Nat.mul_comm]
    rw [List.map_cons, value_cons, ih, hnot, value_cons, List.length_cons, hpow,
      Nat.mul_sub, Nat.mul_sub, Nat.mul_one]
    have hmul : 2 ^ 32 * value pn + 2 ^ 32 ≤ 2 ^ 32 * 2 ^ (32 * pn.length) := by
      rw [← Nat.mul_succ]
      exact Nat.mul_le_mul_left _ hv
    omega

/-- `operator-`, the complement plus one: the negation modulo the width. -/
theorem value_neg (pn : List UInt32) :
    value (incrementLimbs (pn.map (~~~ ·))) =
      (2 ^ (32 * pn.length) - value pn) % 2 ^ (32 * pn.length) := by
  have hv := value_lt pn
  rw [value_incrementLimbs, value_complement, List.length_map]
  congr 1
  omega

/-! ## Multiplication -/

theorem two_pow_32_succ (m : ℕ) : 2 ^ (32 * (m + 1)) = 2 ^ 32 * 2 ^ (32 * m) := by
  rw [Nat.mul_succ, pow_add, Nat.mul_comm]

/-- A product of two limbs and two more limbs fits in 64 bits, and its carry in 32. -/
theorem mul_add_lt {c p a q : ℕ} (hc : c < 2 ^ 32) (hp : p < 2 ^ 32) (ha : a < 2 ^ 32)
    (hq : q < 2 ^ 32) : (c + p + a * q) / 2 ^ 32 < 2 ^ 32 := by
  have haq : a * q ≤ (2 ^ 32 - 1) * (2 ^ 32 - 1) := Nat.mul_le_mul (by omega) (by omega)
  omega

/-- The loop of `operator*=(uint32_t)`: the product plus the carry, modulo the width; every
carry stays below `2 ^ 32`, so no `uint64_t` step wraps. -/
theorem value_mulWordLimbs (b32 : UInt32) (pn : List UInt32) :
    ∀ carry : UInt64, carry.toNat < 2 ^ 32 →
      value (mulWordLimbs b32 pn carry) =
        (b32.toNat * value pn + carry.toNat) % 2 ^ (32 * pn.length) := by
  induction pn with
  | nil => simp [mulWordLimbs, Nat.mod_one]
  | cons p pn ih =>
    intro carry hc
    have hn := toNat_add_mul carry b32 p hc
    have hcarry : ((carry + b32.toUInt64 * p.toUInt64) >>> 32).toNat < 2 ^ 32 := by
      rw [toNat_high, hn]
      simpa using mul_add_lt hc (Nat.zero_lt_succ _) (UInt32.toNat_lt b32) (UInt32.toNat_lt p)
    simp only [mulWordLimbs, value_cons, toNat_low, ih _ hcarry, toNat_high, hn, List.length_cons]
    rw [two_pow_32_succ, pow_mul, ← pow_succ', Limbs.mod_add_mul_mod_pow (by norm_num)]
    congr 1
    ring

/-- Row `j` of `operator*=`: the window plus `aj` times the low limbs of `b` that it meets,
modulo the window's width; every carry stays below `2 ^ 32`. -/
theorem value_mulRow (aj : UInt32) (window : List UInt32) :
    ∀ (qn : List UInt32) (carry : UInt64), window.length ≤ qn.length → carry.toNat < 2 ^ 32 →
      value (mulRow aj window qn carry) =
        (value window + aj.toNat * value (qn.take window.length) + carry.toNat) %
          2 ^ (32 * window.length) := by
  induction window with
  | nil => simp [mulRow, Nat.mod_one]
  | cons p window ih =>
    intro qn carry hlen hc
    cases qn with
    | nil => simp at hlen
    | cons q qn =>
      have hn := toNat_add_add_mul carry p aj q hc
      have hcarry : ((carry + p.toUInt64 + aj.toUInt64 * q.toUInt64) >>> 32).toNat < 2 ^ 32 := by
        rw [toNat_high, hn]
        exact mul_add_lt hc (UInt32.toNat_lt p) (UInt32.toNat_lt aj) (UInt32.toNat_lt q)
      simp only [List.length_cons] at hlen
      simp only [mulRow, value_cons, toNat_low, ih qn _ (by omega) hcarry, toNat_high, hn,
        List.length_cons, List.take_succ_cons]
      rw [two_pow_32_succ, pow_mul, ← pow_succ', Limbs.mod_add_mul_mod_pow (by norm_num)]
      congr 1
      ring

theorem value_replicate_zero (n : ℕ) : value (List.replicate n 0) = 0 := by
  rw [value, List.map_replicate, UInt32.toNat_zero, Nat.ofDigits_replicate_zero]

/-- The rows of `operator*=` so far: after rows `0` to `j - 1`, the low `j` limbs of `a`
times `b`, modulo the width. -/
theorem mulRowStep_rows (a b : List UInt32) (hab : a.length = b.length) :
    ∀ j ≤ a.length,
      ((List.range j).foldl (mulRowStep a b) (List.replicate a.length 0)).length = a.length ∧
      value ((List.range j).foldl (mulRowStep a b) (List.replicate a.length 0)) =
        value (a.take j) * value b % 2 ^ (32 * a.length) := by
  intro j
  induction j with
  | zero =>
    intro _
    simp [value_replicate_zero]
  | succ j ih =>
    intro hj
    obtain ⟨hlen, hval⟩ := ih (by omega)
    rw [List.range_succ, List.foldl_append, List.foldl_cons, List.foldl_nil]
    generalize (List.range j).foldl (mulRowStep a b) (List.replicate a.length 0) = pn at hlen hval
    -- the row: the low `j` limbs stay, the window from `j` takes `a[j]` times `b`
    have htake : (pn.take j).length = j := by simp [hlen]; omega
    have hdrop : (pn.drop j).length = a.length - j := by simp [hlen]
    have hrow := value_mulRow (a.getD j 0) (pn.drop j) b 0 (by omega) (by simp)
    simp only [UInt64.toNat_zero, Nat.add_zero, hdrop] at hrow
    have hsplit : value pn = value (pn.take j) + 2 ^ (32 * j) * value (pn.drop j) := by
      have h := value_append (pn.take j) (pn.drop j)
      rwa [List.take_append_drop, htake] at h
    have hB : 2 ^ (32 * a.length) = 2 ^ (32 * j) * 2 ^ (32 * (a.length - j)) := by
      rw [← pow_add]
      congr 1
      omega
    have hb : value b = value (b.take (a.length - j)) +
        2 ^ (32 * (a.length - j)) * value (b.drop (a.length - j)) := by
      have h := value_append (b.take (a.length - j)) (b.drop (a.length - j))
      rwa [List.take_append_drop, List.length_take, min_eq_left (by omega)] at h
    have ha : value (a.take (j + 1)) = value (a.take j) + 2 ^ (32 * j) * (a.getD j 0).toNat := by
      rw [List.take_succ, List.getElem?_eq_getElem (by omega), Option.toList_some, value_append,
        List.length_take, min_eq_left (by omega), value_cons, value_nil, Nat.mul_zero,
        Nat.add_zero, List.getD_eq_getElem _ _ (by omega)]
    constructor
    · rw [mulRowStep, List.length_append, htake, length_mulRow, hdrop]
      omega
    · rw [mulRowStep, value_append, htake, hrow,
        Limbs.add_mul_mod_mul (by simpa [htake] using value_lt (pn.take j)), ← hB, Nat.mul_add,
        ← Nat.add_assoc, ← hsplit, hval, ha, hb]
      have hprod : (value (a.take j) + 2 ^ (32 * j) * (a.getD j 0).toNat) *
            (value (b.take (a.length - j)) +
              2 ^ (32 * (a.length - j)) * value (b.drop (a.length - j))) =
          value (a.take j) * (value (b.take (a.length - j)) +
              2 ^ (32 * (a.length - j)) * value (b.drop (a.length - j))) +
            2 ^ (32 * j) * ((a.getD j 0).toNat * value (b.take (a.length - j))) +
            2 ^ (32 * a.length) * ((a.getD j 0).toNat * value (b.drop (a.length - j))) := by
        rw [hB]
        ring
      rw [Nat.mod_add_mod, hprod, Nat.add_mul_mod_self_left]

/-! ## Comparison and bit length, from the top limb down -/

/-- The limbs read from the most significant: the value of the reversed list. -/
theorem value_reverse_cons (p : UInt32) (pr : List UInt32) :
    value (p :: pr).reverse = value pr.reverse + 2 ^ (32 * pr.length) * p.toNat := by
  rw [List.reverse_cons, value_append, List.length_reverse, value_cons, value_nil, Nat.mul_zero,
    Nat.add_zero]

/-- The loop of `CompareTo` on limbs read from the top: the sign of the comparison of the
values. -/
theorem compareFrom_eq (pr : List UInt32) :
    ∀ qr : List UInt32, pr.length = qr.length →
      compareFrom pr qr =
        if value pr.reverse < value qr.reverse then -1
        else if value qr.reverse < value pr.reverse then 1 else 0 := by
  induction pr with
  | nil =>
    intro qr hlen
    cases qr with
    | nil => simp [compareFrom]
    | cons q qr => simp at hlen
  | cons p pr ih =>
    intro qr hlen
    cases qr with
    | nil => simp at hlen
    | cons q qr =>
      simp only [List.length_cons, Nat.add_right_cancel_iff] at hlen
      have hl := value_lt pr.reverse
      have hr := value_lt qr.reverse
      rw [List.length_reverse] at hl hr
      rw [← hlen] at hr
      simp only [value_reverse_cons, ← hlen, Limbs.add_mul_lt_add_mul_iff hl hr,
        Limbs.add_mul_lt_add_mul_iff hr hl, compareFrom, UInt32.lt_iff_toNat_lt, gt_iff_lt]
      rcases lt_trichotomy p.toNat q.toNat with hpq | hpq | hpq
      · simp [hpq]
      · have hpq' : p = q := UInt32.toNat_inj.mp hpq
        subst hpq'
        simp [ih qr hlen]
      · simp [hpq, Nat.lt_asymm hpq, Nat.ne_of_gt hpq]

/-- `1 << n` for a bit `n` of a limb. -/
theorem toNat_one_shiftLeft {n : ℕ} (hn : n < 32) :
    ((1 : UInt32) <<< n.toUInt32).toNat = 2 ^ n := by
  rw [UInt32.toNat_shiftLeft, UInt32.toNat_one,
    show n.toUInt32.toNat = n % 2 ^ 32 from UInt32.toNat_ofNat',
    Nat.mod_eq_of_lt (show n < 2 ^ 32 by omega), Nat.mod_eq_of_lt hn, Nat.one_shiftLeft,
    Nat.mod_eq_of_lt (Nat.pow_lt_pow_right (by norm_num) hn)]

/-- `x &&& 1 <<< n` tests bit `n` of a limb. -/
theorem and_one_shiftLeft_ne_zero (x : UInt32) {n : ℕ} (hn : n < 32) :
    x &&& 1 <<< n.toUInt32 ≠ 0 ↔ x.toNat.testBit n := by
  rw [ne_eq, ← UInt32.toNat_inj, UInt32.toNat_and, toNat_one_shiftLeft hn, UInt32.toNat_zero,
    Nat.and_two_pow]
  cases x.toNat.testBit n <;> simp

/-- The inner loop of `bits()` on a limb below `2 ^ (n + 1)` that is not zero: its bit
length. -/
theorem limbBits_eq (x : UInt32) (hx : x.toNat ≠ 0) :
    ∀ n < 32, x.toNat < 2 ^ (n + 1) → limbBits x n = x.toNat.size := by
  intro n
  induction n with
  | zero =>
    intro _ hlt
    have h1 : x.toNat = 1 := by omega
    rw [limbBits, h1]
    rfl
  | succ n ih =>
    intro hn hlt
    rw [limbBits]
    by_cases hbit : x.toNat.testBit (n + 1)
    · -- the top bit tested is set: the length is one more
      rw [if_pos ((and_one_shiftLeft_ne_zero x hn).mpr hbit)]
      have hge := Nat.ge_two_pow_of_testBit hbit
      apply le_antisymm
      · exact Nat.lt_size.mpr hge
      · exact Nat.size_le.mpr hlt
    · rw [if_neg (fun h => hbit ((and_one_shiftLeft_ne_zero x hn).mp h))]
      apply ih (by omega)
      apply Nat.lt_pow_two_of_testBit
      intro i hi
      rcases Nat.eq_or_lt_of_le hi with rfl | hi
      · simpa using hbit
      · exact Nat.testBit_lt_two_pow (lt_of_lt_of_le hlt (Nat.pow_le_pow_right (by norm_num) hi))

/-- The loop of `bits()` on limbs read from the top: the bit length of the value. -/
theorem bitsFrom_eq (pr : List UInt32) : bitsFrom pr = (value pr.reverse).size := by
  induction pr with
  | nil => simp [bitsFrom]
  | cons p pr ih =>
    rw [bitsFrom, value_reverse_cons]
    by_cases hp : p = 0
    · rw [if_neg (not_not.mpr hp), ih, hp, UInt32.toNat_zero, Nat.mul_zero, Nat.add_zero]
    · have hp' : p.toNat ≠ 0 := fun h => hp (UInt32.toNat_inj.mp h)
      rw [if_pos hp, Limbs.size_add_two_pow_mul (by simpa using value_lt pr.reverse) hp',
        limbBits_eq p hp' 31 (by norm_num) (UInt32.toNat_lt p)]

/-! ## Shifts -/

theorem getD_modify_or (pn : List UInt32) (i : ℕ) (x : UInt32) {j : ℕ} (hj : j < pn.length) :
    (pn.modify i (· ||| x)).getD j 0 = if i = j then pn.getD j 0 ||| x else pn.getD j 0 := by
  rw [List.getD_eq_getElem?_getD, List.getElem?_modify, List.getElem?_eq_getElem hj,
    List.getD_eq_getElem _ _ hj]
  split <;> rfl

theorem getD_replicate_zero (n j : ℕ) : (List.replicate n (0 : UInt32)).getD j 0 = 0 := by
  rw [List.getD_eq_getElem?_getD, List.getElem?_replicate]
  split <;> rfl

/-- Limb `j` of `operator<<=` after the passes for limbs `0` to `m - 1`: what limbs `j - k`
and `j - k - 1` have put in it. -/
def shiftLeftLimbAt (a : List UInt32) (k s m j : ℕ) : UInt32 :=
  (if k ≤ j ∧ j < m + k then a.getD (j - k) 0 <<< s.toUInt32 else 0) |||
    (if s ≠ 0 ∧ k + 1 ≤ j ∧ j < m + k + 1 then a.getD (j - k - 1) 0 >>> (32 - s).toUInt32
      else 0)

/-- A guarded `pn[i] |= x` seen at limb `j`. -/
theorem getD_ite_modify_or (c : Prop) [Decidable c] (pn : List UInt32) (i : ℕ) (x : UInt32)
    {j : ℕ} (hj : j < pn.length) :
    (if c then pn.modify i (· ||| x) else pn).getD j 0 =
      pn.getD j 0 ||| (if c ∧ i = j then x else 0) := by
  by_cases hc : c
  · rw [if_pos hc, getD_modify_or _ _ _ hj]
    by_cases hij : i = j
    · rw [if_pos hij, if_pos ⟨hc, hij⟩]
    · rw [if_neg hij, if_neg (fun h => hij h.2), UInt32.or_zero]
  · rw [if_neg hc, if_neg (fun h => hc h.1), UInt32.or_zero]

/-- One pass of `operator<<=` puts limb `m` into limbs `m + k + 1` and `m + k`. -/
theorem shiftLeftStep_getD (a pn : List UInt32) (k s m : ℕ) (hlen : pn.length = a.length)
    {j : ℕ} (hj : j < a.length) :
    (shiftLeftStep a k s pn m).getD j 0 =
      (pn.getD j 0 |||
        (if (m + k + 1 < a.length ∧ s ≠ 0) ∧ m + k + 1 = j then
          a.getD m 0 >>> (32 - s).toUInt32 else 0)) |||
        (if m + k < a.length ∧ m + k = j then a.getD m 0 <<< s.toUInt32 else 0) := by
  have hlen' : (if m + k + 1 < a.length ∧ s ≠ 0 then
      pn.modify (m + k + 1) (· ||| a.getD m 0 >>> (32 - s).toUInt32) else pn).length =
        a.length := by
    split <;> simp [hlen]
  rw [shiftLeftStep, getD_ite_modify_or _ _ _ _ (by rw [hlen']; exact hj),
    getD_ite_modify_or _ _ _ _ (by rw [hlen]; exact hj)]

theorem length_shiftLeftStep (a pn : List UInt32) (k s m : ℕ) :
    (shiftLeftStep a k s pn m).length = pn.length := by
  unfold shiftLeftStep
  split_ifs <;> simp

/-- The passes of `operator<<=` for limbs `0` to `m - 1`: every limb is what the limbs `k`
and `k + 1` below it have put in it so far. -/
theorem shiftLeftStep_limbs (a : List UInt32) (k s : ℕ) :
    ∀ m ≤ a.length,
      ((List.range m).foldl (shiftLeftStep a k s) (List.replicate a.length 0)).length =
        a.length ∧
      ∀ j < a.length,
        ((List.range m).foldl (shiftLeftStep a k s) (List.replicate a.length 0)).getD j 0 =
          shiftLeftLimbAt a k s m j := by
  intro m
  induction m with
  | zero =>
    intro _
    refine ⟨by simp, fun j _ => ?_⟩
    rw [List.range_zero, List.foldl_nil, getD_replicate_zero, shiftLeftLimbAt, if_neg (by omega),
      if_neg (by omega), UInt32.or_zero]
  | succ m ih =>
    intro hm
    obtain ⟨hlen, hval⟩ := ih (by omega)
    rw [List.range_succ, List.foldl_append, List.foldl_cons, List.foldl_nil]
    generalize (List.range m).foldl (shiftLeftStep a k s) (List.replicate a.length 0) = pn
      at hlen hval
    refine ⟨by rw [length_shiftLeftStep, hlen], fun j hj => ?_⟩
    rw [shiftLeftStep_getD a pn k s m hlen hj, hval j hj]
    -- only limbs `m + k` and `m + k + 1` take something from limb `m`
    -- only limbs `m + k` and `m + k + 1` take something from limb `m`
    rcases (show j = m + k ∨ j = m + k + 1 ∨ (j ≠ m + k ∧ j ≠ m + k + 1) by omega) with
      rfl | rfl | ⟨hj1, hj2⟩
    · simp only [shiftLeftLimbAt, Nat.add_sub_cancel, and_true]
      split_ifs <;> (try omega) <;> simp only [UInt32.or_zero, UInt32.zero_or, UInt32.or_comm]
    · have hidx : m + k + 1 - k - 1 = m := by omega
      simp only [shiftLeftLimbAt, hidx, and_true]
      split_ifs <;> (try omega) <;> simp only [UInt32.or_zero, UInt32.zero_or]
    · simp only [shiftLeftLimbAt]
      split_ifs <;> (try omega) <;> simp only [UInt32.or_zero, UInt32.zero_or]

theorem getD_map_toNat (pn : List UInt32) (i : ℕ) :
    (pn.map UInt32.toNat).getD i 0 = (pn.getD i 0).toNat := by
  rw [← UInt32.toNat_zero, List.getD_map]

/-- Bit `n` of the value is bit `n % 32` of limb `n / 32`. -/
theorem testBit_value (pn : List UInt32) (n : ℕ) :
    (value pn).testBit n = (pn.getD (n / 32) 0).toNat.testBit (n % 32) := by
  rw [value, Limbs.testBit_ofDigits (by norm_num) (limbs_lt pn), getD_map_toNat]

theorem toNat_toUInt32_of_lt {s : ℕ} (hs : s < 32) : s.toUInt32.toNat % 32 = s := by
  rw [show s.toUInt32.toNat = s % 2 ^ 32 from UInt32.toNat_ofNat',
    Nat.mod_eq_of_lt (show s < 2 ^ 32 by omega), Nat.mod_eq_of_lt hs]

/-- A limb shifted up by `s < 32` within its 32 bits. -/
theorem testBit_limb_shiftLeft (x : UInt32) {s t : ℕ} (hs : s < 32) (ht : t < 32) :
    (x <<< s.toUInt32).toNat.testBit t = (decide (s ≤ t) && x.toNat.testBit (t - s)) := by
  rw [UInt32.toNat_shiftLeft, toNat_toUInt32_of_lt hs, Nat.testBit_mod_two_pow,
    Nat.testBit_shiftLeft, decide_eq_true ht, Bool.true_and]

/-- A limb shifted down by `s < 32`. -/
theorem testBit_limb_shiftRight (x : UInt32) {s : ℕ} (hs : s < 32) (t : ℕ) :
    (x >>> s.toUInt32).toNat.testBit t = x.toNat.testBit (s + t) := by
  rw [UInt32.toNat_shiftRight, toNat_toUInt32_of_lt hs, Nat.testBit_shiftRight]

/-- A limb has no bit from 32 up. -/
theorem testBit_limb_of_le (x : UInt32) {t : ℕ} (ht : 32 ≤ t) : x.toNat.testBit t = false :=
  Nat.testBit_lt_two_pow (lt_of_lt_of_le (UInt32.toNat_lt x) (Nat.pow_le_pow_right (by norm_num) ht))

/-- Bit `t` of limb `j` after `operator<<=`: bit `32 * j + t - shift` of the value, for
`shift = 32 * k + s`. -/
theorem testBit_shiftLeftLimbAt (a : List UInt32) {k s j t : ℕ} (hs : s < 32)
    (hj : j < a.length) (ht : t < 32) :
    (shiftLeftLimbAt a k s a.length j).toNat.testBit t =
      (decide (32 * k + s ≤ 32 * j + t) && (value a).testBit (32 * j + t - (32 * k + s))) := by
  rw [shiftLeftLimbAt, UInt32.toNat_or, Nat.testBit_or, testBit_value]
  by_cases hst : s ≤ t
  · by_cases hkj : k ≤ j
    · -- the bits from limb `j - k`, moved up by `s`
      have hdiv : (32 * j + t - (32 * k + s)) / 32 = j - k := by omega
      have hmod : (32 * j + t - (32 * k + s)) % 32 = t - s := by omega
      rw [if_pos ⟨hkj, by omega⟩, testBit_limb_shiftLeft _ hs ht, hdiv, hmod,
        decide_eq_true hst, Bool.true_and, decide_eq_true (by omega), Bool.true_and]
      split_ifs
      · rw [testBit_limb_shiftRight _ (by omega),
          testBit_limb_of_le (a.getD (j - k - 1) 0) (show 32 ≤ 32 - s + t by omega), Bool.or_false]
      · rw [UInt32.toNat_zero, Nat.zero_testBit, Bool.or_false]
    · rw [if_neg (by omega), if_neg (by omega), decide_eq_false (by omega), Bool.false_and,
        UInt32.toNat_zero, Nat.zero_testBit, Bool.or_false]
  · by_cases hkj : k + 1 ≤ j
    · -- the top bits of limb `j - k - 1`, moved up past its end
      have hdiv : (32 * j + t - (32 * k + s)) / 32 = j - k - 1 := by omega
      have hmod : (32 * j + t - (32 * k + s)) % 32 = 32 - s + t := by omega
      rw [if_pos ⟨by omega, by omega⟩, testBit_limb_shiftLeft _ hs ht, decide_eq_false hst,
        Bool.false_and, Bool.false_or, if_pos ⟨by omega, hkj, by omega⟩,
        testBit_limb_shiftRight _ (by omega), hdiv, hmod, decide_eq_true (by omega), Bool.true_and]
    · -- nothing reaches bit `t < s` of limb `j ≤ k`
      rw [decide_eq_false (by omega), Bool.false_and]
      split_ifs with h1 h2 h2
      · omega
      · rw [testBit_limb_shiftLeft _ hs ht, decide_eq_false hst, Bool.false_and, UInt32.toNat_zero,
          Nat.zero_testBit, Bool.false_or]
      · omega
      · rw [UInt32.toNat_zero, Nat.zero_testBit, Bool.false_or]

/-- The loop of `operator<<=` multiplies by `2 ^ shift` and cuts to the width. -/
theorem value_shiftLeftLimbs (a : List UInt32) (shift : ℕ) :
    value (shiftLeftLimbs a shift) = value a * 2 ^ shift % 2 ^ (32 * a.length) := by
  obtain ⟨hlen, hlimb⟩ := shiftLeftStep_limbs a (shift / 32) (shift % 32) a.length le_rfl
  apply Nat.eq_of_testBit_eq
  intro n
  rw [shiftLeftLimbs, testBit_value, Nat.testBit_mod_two_pow, Nat.testBit_mul_two_pow]
  by_cases hn : n < 32 * a.length
  · have hs : 32 * (shift / 32) + shift % 32 = shift := Nat.div_add_mod shift 32
    have hn' : 32 * (n / 32) + n % 32 = n := Nat.div_add_mod n 32
    rw [hlimb (n / 32) (by omega),
      testBit_shiftLeftLimbAt a (Nat.mod_lt _ (by norm_num)) (by omega) (Nat.mod_lt _ (by norm_num)),
      hs, hn', decide_eq_true hn, Bool.true_and]
  · -- past the width there are no limbs
    rw [List.getD_eq_default _ _ (by omega), UInt32.toNat_zero, Nat.zero_testBit,
      decide_eq_false hn, Bool.false_and]

/-- Limb `j` of `operator>>=` after the passes for limbs `0` to `m - 1`: what limbs `j + k`
and `j + k + 1` have put in it. -/
def shiftRightLimbAt (a : List UInt32) (k s m j : ℕ) : UInt32 :=
  (if j + k < m then a.getD (j + k) 0 >>> s.toUInt32 else 0) |||
    (if s ≠ 0 ∧ j + k + 1 < m then a.getD (j + k + 1) 0 <<< (32 - s).toUInt32 else 0)

/-- One pass of `operator>>=` puts limb `m` into limbs `m - k - 1` and `m - k`. -/
theorem shiftRightStep_getD (a pn : List UInt32) (k s m : ℕ) {j : ℕ} (hj : j < pn.length) :
    (shiftRightStep a k s pn m).getD j 0 =
      (pn.getD j 0 |||
        (if (k + 1 ≤ m ∧ s ≠ 0) ∧ m - k - 1 = j then a.getD m 0 <<< (32 - s).toUInt32 else 0)) |||
        (if k ≤ m ∧ m - k = j then a.getD m 0 >>> s.toUInt32 else 0) := by
  have hlen' : (if k + 1 ≤ m ∧ s ≠ 0 then
      pn.modify (m - k - 1) (· ||| a.getD m 0 <<< (32 - s).toUInt32) else pn).length =
        pn.length := by
    split <;> simp
  rw [shiftRightStep, getD_ite_modify_or _ _ _ _ (by rw [hlen']; exact hj),
    getD_ite_modify_or _ _ _ _ hj]

theorem length_shiftRightStep (a pn : List UInt32) (k s m : ℕ) :
    (shiftRightStep a k s pn m).length = pn.length := by
  unfold shiftRightStep
  split_ifs <;> simp

/-- The passes of `operator>>=` for limbs `0` to `m - 1`: every limb is what the limbs `k`
and `k + 1` above it have put in it so far. -/
theorem shiftRightStep_limbs (a : List UInt32) (k s : ℕ) :
    ∀ m ≤ a.length,
      ((List.range m).foldl (shiftRightStep a k s) (List.replicate a.length 0)).length =
        a.length ∧
      ∀ j < a.length,
        ((List.range m).foldl (shiftRightStep a k s) (List.replicate a.length 0)).getD j 0 =
          shiftRightLimbAt a k s m j := by
  intro m
  induction m with
  | zero =>
    intro _
    refine ⟨by simp, fun j _ => ?_⟩
    rw [List.range_zero, List.foldl_nil, getD_replicate_zero, shiftRightLimbAt, if_neg (by omega),
      if_neg (by omega), UInt32.or_zero]
  | succ m ih =>
    intro hm
    obtain ⟨hlen, hval⟩ := ih (by omega)
    rw [List.range_succ, List.foldl_append, List.foldl_cons, List.foldl_nil]
    generalize (List.range m).foldl (shiftRightStep a k s) (List.replicate a.length 0) = pn
      at hlen hval
    refine ⟨by rw [length_shiftRightStep, hlen], fun j hj => ?_⟩
    rw [shiftRightStep_getD a pn k s m (by rw [hlen]; exact hj), hval j hj]
    -- only limbs `m - k` and `m - k - 1` take something from limb `m`
    rcases (show j + k = m ∨ j + k + 1 = m ∨ (j + k ≠ m ∧ j + k + 1 ≠ m) by omega) with
      rfl | rfl | ⟨hj1, hj2⟩
    · simp only [shiftRightLimbAt]
      split_ifs <;> (try omega) <;> simp only [UInt32.or_zero, UInt32.zero_or, UInt32.or_comm]
    · simp only [shiftRightLimbAt]
      split_ifs <;> (try omega) <;> simp only [UInt32.or_zero, UInt32.zero_or]
    · simp only [shiftRightLimbAt]
      split_ifs <;> (try omega) <;> simp only [UInt32.or_zero, UInt32.zero_or]

/-- Bit `t` of limb `j` after `operator>>=`: bit `32 * j + t + shift` of the value, for
`shift = 32 * k + s`. -/
theorem testBit_shiftRightLimbAt (a : List UInt32) {k s j t : ℕ} (hs : s < 32) (ht : t < 32) :
    (shiftRightLimbAt a k s a.length j).toNat.testBit t =
      (value a).testBit (32 * j + t + (32 * k + s)) := by
  rw [shiftRightLimbAt, UInt32.toNat_or, Nat.testBit_or, testBit_value]
  by_cases hst : t + s < 32
  · -- bits `s + t` of limb `j + k`
    have hdiv : (32 * j + t + (32 * k + s)) / 32 = j + k := by omega
    have hmod : (32 * j + t + (32 * k + s)) % 32 = s + t := by omega
    rw [hdiv, hmod]
    have hT2 : (if s ≠ 0 ∧ j + k + 1 < a.length then
        a.getD (j + k + 1) 0 <<< (32 - s).toUInt32 else 0).toNat.testBit t = false := by
      split_ifs
      · rw [testBit_limb_shiftLeft _ (by omega) ht, decide_eq_false (by omega), Bool.false_and]
      · rw [UInt32.toNat_zero, Nat.zero_testBit]
    rw [hT2, Bool.or_false]
    split_ifs with h1
    · rw [testBit_limb_shiftRight _ hs]
    · rw [List.getD_eq_default _ _ (by omega), UInt32.toNat_zero, Nat.zero_testBit,
        Nat.zero_testBit]
  · -- bits `t + s - 32` of limb `j + k + 1`
    have hdiv : (32 * j + t + (32 * k + s)) / 32 = j + k + 1 := by omega
    have hmod : (32 * j + t + (32 * k + s)) % 32 = t - (32 - s) := by omega
    rw [hdiv, hmod]
    have hT1 : (if j + k < a.length then a.getD (j + k) 0 >>> s.toUInt32 else 0).toNat.testBit t =
        false := by
      split_ifs
      · rw [testBit_limb_shiftRight _ hs, testBit_limb_of_le _ (by omega)]
      · rw [UInt32.toNat_zero, Nat.zero_testBit]
    rw [hT1, Bool.false_or]
    split_ifs with h2
    · rw [testBit_limb_shiftLeft _ (by omega) ht, decide_eq_true (by omega), Bool.true_and]
    · rw [UInt32.toNat_zero, Nat.zero_testBit, List.getD_eq_default _ _ (by omega),
        UInt32.toNat_zero, Nat.zero_testBit]

/-- The loop of `operator>>=` divides by `2 ^ shift`. -/
theorem value_shiftRightLimbs (a : List UInt32) (shift : ℕ) :
    value (shiftRightLimbs a shift) = value a / 2 ^ shift := by
  obtain ⟨hlen, hlimb⟩ := shiftRightStep_limbs a (shift / 32) (shift % 32) a.length le_rfl
  apply Nat.eq_of_testBit_eq
  intro n
  rw [shiftRightLimbs, testBit_value, Nat.testBit_div_two_pow]
  have hs : 32 * (shift / 32) + shift % 32 = shift := Nat.div_add_mod shift 32
  have hn' : 32 * (n / 32) + n % 32 = n := Nat.div_add_mod n 32
  by_cases hn : n / 32 < a.length
  · rw [hlimb (n / 32) hn, testBit_shiftRightLimbAt a (Nat.mod_lt _ (by norm_num))
      (Nat.mod_lt _ (by norm_num)), hs, hn']
  · -- past the width there are no limbs, and no bits of the value
    have hv : value a < 2 ^ (n + shift) :=
      lt_of_lt_of_le (value_lt a) (Nat.pow_le_pow_right (by norm_num) (by omega))
    rw [List.getD_eq_default _ _ (by omega), UInt32.toNat_zero, Nat.zero_testBit,
      Nat.testBit_lt_two_pow hv]

/-! ## Lengths of the loops -/

theorem length_incrementLimbs (pn : List UInt32) : (incrementLimbs pn).length = pn.length := by
  induction pn with
  | nil => rfl
  | cons p pn ih =>
    rw [incrementLimbs]
    split <;> simp [ih]

theorem length_mulWordLimbs (b32 : UInt32) (pn : List UInt32) (carry : UInt64) :
    (mulWordLimbs b32 pn carry).length = pn.length := by
  induction pn generalizing carry with
  | nil => rfl
  | cons p pn ih => simp [mulWordLimbs, ih]

/-! ## The operations of `base_uint` -/

variable {WIDTH : ℕ}

/-- The number the limbs stand for. -/
def toNat (a : base_uint WIDTH) : ℕ := value a.pn

theorem toNat_lt (a : base_uint WIDTH) : a.toNat < 2 ^ (32 * WIDTH) := by
  have h := value_lt a.pn
  rwa [a.length_pn] at h

/-- `base_uint()`: every limb zero. -/
def zero : base_uint WIDTH := ⟨List.replicate WIDTH 0, List.length_replicate⟩

theorem length_add_pn (a b : base_uint WIDTH) : (addLimbs a.pn b.pn 0).length = WIDTH := by
  rw [length_addLimbs, a.length_pn, b.length_pn, min_self]

/-- `operator+=`. -/
def add (a b : base_uint WIDTH) : base_uint WIDTH := ⟨addLimbs a.pn b.pn 0, length_add_pn a b⟩

theorem length_increment_pn (a : base_uint WIDTH) : (incrementLimbs a.pn).length = WIDTH := by
  rw [length_incrementLimbs, a.length_pn]

/-- `operator++`. -/
def increment (a : base_uint WIDTH) : base_uint WIDTH :=
  ⟨incrementLimbs a.pn, length_increment_pn a⟩

theorem length_neg_pn (a : base_uint WIDTH) :
    (incrementLimbs (a.pn.map (~~~ ·))).length = WIDTH := by
  rw [length_incrementLimbs, List.length_map, a.length_pn]

/-- `operator-`: `ret.pn[i] = ~pn[i]; ret++;` -/
def neg (a : base_uint WIDTH) : base_uint WIDTH :=
  ⟨incrementLimbs (a.pn.map (~~~ ·)), length_neg_pn a⟩

/-- `operator-=`: `*this += -b`. -/
def sub (a b : base_uint WIDTH) : base_uint WIDTH := add a (neg b)

theorem length_mulWord_pn (a : base_uint WIDTH) (b32 : UInt32) :
    (mulWordLimbs b32 a.pn 0).length = WIDTH := by
  rw [length_mulWordLimbs, a.length_pn]

/-- `operator*=(uint32_t b32)`. -/
def mulWord (a : base_uint WIDTH) (b32 : UInt32) : base_uint WIDTH :=
  ⟨mulWordLimbs b32 a.pn 0, length_mulWord_pn a b32⟩

theorem length_mul_pn (a b : base_uint WIDTH) : (mulLimbs a.pn b.pn).length = WIDTH := by
  rw [mulLimbs, (mulRowStep_rows a.pn b.pn (by rw [a.length_pn, b.length_pn]) a.pn.length
    le_rfl).1, a.length_pn]

/-- `operator*=(const base_uint& b)`. -/
def mul (a b : base_uint WIDTH) : base_uint WIDTH := ⟨mulLimbs a.pn b.pn, length_mul_pn a b⟩

theorem length_shiftLeft_pn (a : base_uint WIDTH) (shift : ℕ) :
    (shiftLeftLimbs a.pn shift).length = WIDTH := by
  rw [shiftLeftLimbs, (shiftLeftStep_limbs a.pn _ _ a.pn.length le_rfl).1, a.length_pn]

/-- `operator<<=(unsigned int shift)`. -/
def shiftLeft (a : base_uint WIDTH) (shift : ℕ) : base_uint WIDTH :=
  ⟨shiftLeftLimbs a.pn shift, length_shiftLeft_pn a shift⟩

theorem length_shiftRight_pn (a : base_uint WIDTH) (shift : ℕ) :
    (shiftRightLimbs a.pn shift).length = WIDTH := by
  rw [shiftRightLimbs, (shiftRightStep_limbs a.pn _ _ a.pn.length le_rfl).1, a.length_pn]

/-- `operator>>=(unsigned int shift)`. -/
def shiftRight (a : base_uint WIDTH) (shift : ℕ) : base_uint WIDTH :=
  ⟨shiftRightLimbs a.pn shift, length_shiftRight_pn a shift⟩

/-- `CompareTo(b)`: `-1`, `0` or `1`. -/
def CompareTo (a b : base_uint WIDTH) : Int := compareFrom a.pn.reverse b.pn.reverse

/-- `bits()`: the position of the highest set bit plus one, or zero. -/
def bits (a : base_uint WIDTH) : ℕ := bitsFrom a.pn.reverse

/-! ## The operations compute on the numbers -/

theorem toNat_zero : (zero : base_uint WIDTH).toNat = 0 := value_replicate_zero WIDTH

/-- `operator+=` is the sum modulo `2 ^ (32 * WIDTH)`. -/
theorem toNat_add (a b : base_uint WIDTH) :
    (add a b).toNat = (a.toNat + b.toNat) % 2 ^ (32 * WIDTH) := by
  rw [add, toNat, value_addLimbs _ _ _ (by rw [a.length_pn, b.length_pn]) (by simp), a.length_pn]
  rfl

/-- `operator++` is the successor modulo `2 ^ (32 * WIDTH)`. -/
theorem toNat_increment (a : base_uint WIDTH) :
    (increment a).toNat = (a.toNat + 1) % 2 ^ (32 * WIDTH) := by
  rw [increment, toNat, value_incrementLimbs, a.length_pn]
  rfl

/-- Unary `operator-` is the negation modulo `2 ^ (32 * WIDTH)`. -/
theorem toNat_neg (a : base_uint WIDTH) :
    (neg a).toNat = (2 ^ (32 * WIDTH) - a.toNat) % 2 ^ (32 * WIDTH) := by
  rw [neg, toNat, value_neg, a.length_pn]
  rfl

/-- `operator-=` is the difference modulo `2 ^ (32 * WIDTH)`. -/
theorem toNat_sub (a b : base_uint WIDTH) :
    (sub a b).toNat = (a.toNat + (2 ^ (32 * WIDTH) - b.toNat)) % 2 ^ (32 * WIDTH) := by
  rw [sub, toNat_add, toNat_neg, Nat.add_mod_mod]

/-- `operator-=` of a smaller number is the plain difference. -/
theorem toNat_sub_of_le {a b : base_uint WIDTH} (h : b.toNat ≤ a.toNat) :
    (sub a b).toNat = a.toNat - b.toNat := by
  have ha := toNat_lt a
  rw [toNat_sub, show a.toNat + (2 ^ (32 * WIDTH) - b.toNat) =
    (a.toNat - b.toNat) + 2 ^ (32 * WIDTH) by omega, Nat.add_mod_right,
    Nat.mod_eq_of_lt (by omega)]

/-- `operator*=(uint32_t)` is the product modulo `2 ^ (32 * WIDTH)`. -/
theorem toNat_mulWord (a : base_uint WIDTH) (b32 : UInt32) :
    (mulWord a b32).toNat = a.toNat * b32.toNat % 2 ^ (32 * WIDTH) := by
  rw [mulWord, toNat, value_mulWordLimbs _ _ _ (by simp), a.length_pn, UInt64.toNat_zero,
    Nat.add_zero, Nat.mul_comm]
  rfl

/-- `operator*=(const base_uint&)` is the product modulo `2 ^ (32 * WIDTH)`. -/
theorem toNat_mul (a b : base_uint WIDTH) :
    (mul a b).toNat = a.toNat * b.toNat % 2 ^ (32 * WIDTH) := by
  have h := (mulRowStep_rows a.pn b.pn (by rw [a.length_pn, b.length_pn]) a.pn.length le_rfl).2
  rw [List.take_length] at h
  show value (mulLimbs a.pn b.pn) = value a.pn * value b.pn % 2 ^ (32 * WIDTH)
  rw [mulLimbs, h, a.length_pn]

/-- `operator<<=` is the product by `2 ^ shift` modulo `2 ^ (32 * WIDTH)`. -/
theorem toNat_shiftLeft (a : base_uint WIDTH) (shift : ℕ) :
    (shiftLeft a shift).toNat = a.toNat * 2 ^ shift % 2 ^ (32 * WIDTH) := by
  rw [shiftLeft, toNat, value_shiftLeftLimbs, a.length_pn]
  rfl

/-- `operator>>=` is the quotient by `2 ^ shift`. -/
theorem toNat_shiftRight (a : base_uint WIDTH) (shift : ℕ) :
    (shiftRight a shift).toNat = a.toNat / 2 ^ shift := value_shiftRightLimbs a.pn shift

/-- `CompareTo` is the sign of the comparison of the numbers. -/
theorem CompareTo_eq (a b : base_uint WIDTH) :
    CompareTo a b =
      if a.toNat < b.toNat then -1 else if b.toNat < a.toNat then 1 else 0 := by
  rw [CompareTo, compareFrom_eq _ _ (by rw [List.length_reverse, List.length_reverse, a.length_pn,
    b.length_pn]), List.reverse_reverse, List.reverse_reverse]
  rfl

/-- `bits()` is the bit length of the number. -/
theorem bits_eq_size (a : base_uint WIDTH) : bits a = a.toNat.size := by
  rw [bits, bitsFrom_eq, List.reverse_reverse]
  rfl

/-! ## The integers modulo `2 ^ (32 * WIDTH)` -/

/-- Limbs of one length with one value are the same limbs. -/
theorem value_inj {pn : List UInt32} :
    ∀ {qn : List UInt32}, pn.length = qn.length → value pn = value qn → pn = qn := by
  induction pn with
  | nil =>
    intro qn hlen _
    exact (List.length_eq_zero_iff.mp hlen.symm).symm
  | cons p pn ih =>
    intro qn hlen h
    cases qn with
    | nil => simp at hlen
    | cons q qn =>
      -- the low limbs agree, and then the limbs above them
      rw [value_cons, value_cons, Limbs.add_mul_inj (UInt32.toNat_lt p) (UInt32.toNat_lt q)] at h
      rw [UInt32.toNat_inj.mp h.2, ih (Nat.succ.inj hlen) h.1]

theorem toNat_injective : Function.Injective (toNat : base_uint WIDTH → ℕ) := by
  rintro ⟨pn, hpn⟩ ⟨qn, hqn⟩ h
  obtain rfl := value_inj (hpn.trans hqn.symm) h
  rfl

/-- The number of the limbs in the integers modulo `2 ^ (32 * WIDTH)`. -/
def toZMod (a : base_uint WIDTH) : ZMod (2 ^ (32 * WIDTH)) := a.toNat

/-- Different limbs are different residues: every residue has at most one `base_uint`. -/
theorem toZMod_injective :
    Function.Injective (toZMod : base_uint WIDTH → ZMod (2 ^ (32 * WIDTH))) := by
  intro a b h
  apply toNat_injective
  have hval := congrArg ZMod.val h
  rwa [toZMod, toZMod, ZMod.val_natCast_of_lt (toNat_lt a),
    ZMod.val_natCast_of_lt (toNat_lt b)] at hval

/-- `operator+=` is the sum of the residues. -/
theorem toZMod_add (a b : base_uint WIDTH) : (add a b).toZMod = a.toZMod + b.toZMod := by
  rw [toZMod, toNat_add, ZMod.natCast_mod, Nat.cast_add]
  rfl

/-- `operator-=`, the sum with the two's complement, is the difference of the residues. -/
theorem toZMod_sub (a b : base_uint WIDTH) : (sub a b).toZMod = a.toZMod - b.toZMod := by
  rw [toZMod, toNat_sub, ZMod.natCast_mod, Nat.cast_add, Nat.cast_sub (toNat_lt b).le,
    ZMod.natCast_self, zero_sub, ← sub_eq_add_neg]
  rfl

/-- `operator*=(const base_uint&)` is the product of the residues. -/
theorem toZMod_mul (a b : base_uint WIDTH) : (mul a b).toZMod = a.toZMod * b.toZMod := by
  rw [toZMod, toNat_mul, ZMod.natCast_mod, Nat.cast_mul]
  rfl

/-- `operator*=(uint32_t)` is the product of the residue with the word. -/
theorem toZMod_mulWord (a : base_uint WIDTH) (b32 : UInt32) :
    (mulWord a b32).toZMod = a.toZMod * b32.toNat := by
  rw [toZMod, toNat_mulWord, ZMod.natCast_mod, Nat.cast_mul]
  rfl

/-! ## The low 64 bits -/

theorem length_ofUInt64_pn (b : UInt64) :
    (((List.replicate WIDTH 0).set 0 b.toUInt32).set 1 (b >>> 32).toUInt32).length = WIDTH := by
  rw [List.length_set, List.length_set, List.length_replicate]

/-- `base_uint(uint64_t b)`, also `operator=(uint64_t b)`: `pn[0] = (unsigned int)b;
pn[1] = (unsigned int)(b >> 32);` and zeros above. -/
def ofUInt64 (b : UInt64) : base_uint WIDTH :=
  ⟨((List.replicate WIDTH 0).set 0 b.toUInt32).set 1 (b >>> 32).toUInt32, length_ofUInt64_pn b⟩

/-- `GetLow64()`: `pn[0] | (uint64_t)pn[1] << 32`. -/
def GetLow64 (a : base_uint WIDTH) : UInt64 :=
  (a.pn.getD 0 0).toUInt64 ||| (a.pn.getD 1 0).toUInt64 <<< 32

/-- With two limbs or more, a `uint64_t` is kept whole. -/
theorem toNat_ofUInt64 (hw : 2 ≤ WIDTH) (b : UInt64) :
    (ofUInt64 b : base_uint WIDTH).toNat = b.toNat := by
  obtain ⟨w, rfl⟩ : ∃ w, WIDTH = w + 2 := ⟨WIDTH - 2, by omega⟩
  have hlo : b.toUInt32.toNat = b.toNat % 2 ^ 32 := UInt64.toNat_toUInt32 b
  have hhi : (b >>> 32).toUInt32.toNat = b.toNat / 2 ^ 32 := by
    rw [UInt64.toNat_toUInt32, toNat_high, Nat.mod_eq_of_lt]
    have := UInt64.toNat_lt b
    omega
  show value (((List.replicate (w + 2) 0).set 0 b.toUInt32).set 1 (b >>> 32).toUInt32) = _
  rw [List.replicate_succ, List.replicate_succ, List.set_cons_zero, List.set_cons_succ,
    List.set_cons_zero, value_cons, value_cons, value_replicate_zero, hlo, hhi]
  omega

/-- `GetLow64()` is the number modulo `2 ^ 64`. -/
theorem toNat_GetLow64 (hw : 2 ≤ WIDTH) (a : base_uint WIDTH) :
    (GetLow64 a).toNat = a.toNat % 2 ^ 64 := by
  obtain ⟨p0, p1, rest, hpn⟩ : ∃ p0 p1 rest, a.pn = p0 :: p1 :: rest := by
    have hl := a.length_pn
    rcases h : a.pn with _ | ⟨p0, _ | ⟨p1, rest⟩⟩ <;> rw [h] at hl
    · simp at hl
      omega
    · simp at hl
      omega
    · exact ⟨p0, p1, rest, rfl⟩
  have h0 := UInt32.toNat_lt p0
  have h1 := UInt32.toNat_lt p1
  have hor : p0.toNat ||| p1.toNat <<< 32 = p0.toNat + 2 ^ 32 * p1.toNat := by
    rw [Nat.or_comm, ← Nat.shiftLeft_add_eq_or_of_lt h0, Nat.shiftLeft_eq, Nat.add_comm,
      Nat.mul_comm]
  have hshift : (p1.toUInt64 <<< 32).toNat = p1.toNat <<< 32 := by
    rw [UInt64.toNat_shiftLeft, UInt32.toNat_toUInt64, show (32 : UInt64).toNat % 64 = 32 from rfl,
      Nat.mod_eq_of_lt]
    rw [Nat.shiftLeft_eq]
    have : p1.toNat * 2 ^ 32 < 2 ^ 32 * 2 ^ 32 := Nat.mul_lt_mul_of_pos_right h1 (by norm_num)
    omega
  rw [GetLow64, toNat, hpn, List.getD_cons_zero, List.getD_cons_succ, List.getD_cons_zero,
    UInt64.toNat_or, UInt32.toNat_toUInt64, hshift, hor, value_cons, value_cons]
  -- `p0 + 2^32 (p1 + 2^32 rest)` leaves `p0 + 2^32 p1` modulo `2^64`
  have hlow : p0.toNat + 2 ^ 32 * p1.toNat < 2 ^ 64 := by omega
  rw [show p0.toNat + 2 ^ 32 * (p1.toNat + 2 ^ 32 * value rest) =
      (p0.toNat + 2 ^ 32 * p1.toNat) + 2 ^ 64 * value rest by ring, Nat.add_mul_mod_self_left,
    Nat.mod_eq_of_lt hlow]

end base_uint

end Cascoin
