import Cascoin.Core.Radix
import Cascoin.Models.Util.Money

/-!
# Base58

`EncodeBase58` and `DecodeBase58` of `base58.cpp` convert between bytes and text over
`pszBase58` through a big-endian buffer: the encoder multiplies a buffer of base-58 digits by
256 and adds each byte, the decoder multiplies a buffer of bytes by 58 and adds each digit.
Each `assert`s that nothing carries out of its buffer, whose size it computes from the length
of its input with `138 / 100` and `733 / 1000` for the ratio of the logarithms. Leading zero
bytes and leading `1`s stand for each other one for one.

The buffers are modelled from their least significant end, where the loops start (`rbegin`).
`DigitBuffer` is what holds of a buffer between two digits and `mulAddStep_spec` is one
digit; the sizes hold every input (`pow_lt_encodeSize`, `pow_lt_decodeSize`), so neither
`assert` fails. `EncodeBase58_eq` and `DecodeBase58_eq` give both results on every input as
conversions of numbers (`base58Encode`, `base58Decode`); the two are inverse bijections
between byte strings and texts over `pszBase58` (`base58Decode_base58Encode`,
`base58Encode_base58Decode`).
-/

namespace Cascoin

/-- `pszBase58`: all alphanumeric characters except `0`, `I`, `O` and `l`. -/
def pszBase58 : List Char := "123456789ABCDEFGHJKLMNPQRSTUVWXYZabcdefghijkmnopqrstuvwxyz".toList

/-- The inner loop of both directions, on a big-endian buffer kept from its least significant
end: `for (it = b.rbegin(); (carry != 0 || i < length) && (it != b.rend()); ++it, ++i)
{ carry += mult * (*it); *it = carry % base; carry /= base; }`. It returns the buffer, the
carry left and `i`. -/
def mulAddDigits (base mult : ℕ) : List ℕ → ℕ → ℕ → ℕ → List ℕ × ℕ × ℕ
  | [], carry, i, _ => ([], carry, i)
  | d :: ds, carry, i, length =>
    if carry ≠ 0 ∨ i < length then
      let carry := carry + mult * d
      let rest := mulAddDigits base mult ds (carry / base) (i + 1) length
      (carry % base :: rest.1, rest.2)
    else (d :: ds, carry, i)

/-- `b = b * mult + ch` on the buffer: the loop from `carry = ch`, then `assert(carry == 0);
length = i;`. -/
def mulAddStep {ε : Type} (base mult : ℕ) (b : List ℕ) (length ch : ℕ) :
    Checked ε (List ℕ × ℕ) := do
  let (b, carry, i) := mulAddDigits base mult b ch 0 length
  Checked.assert (carry == 0)
  return (b, i)

/-- The pass of `EncodeBase58` for one byte: `b58 = b58 * 256 + ch`. -/
def encodeBase58Step {ε : Type} (acc : List ℕ × ℕ) (byte : UInt8) : Checked ε (List ℕ × ℕ) :=
  mulAddStep 58 256 acc.1 acc.2 byte.toNat

/-- `EncodeBase58(pbegin, pend)`. -/
def EncodeBase58 {ε : Type} (input : List UInt8) : Checked ε (List Char) := do
  -- Skip & count leading zeroes.
  let zeroes := (input.takeWhile (· == 0)).length
  let input := input.drop zeroes
  -- Allocate enough space in big-endian base58 representation.
  let size := input.length * 138 / 100 + 1
  let (b58, length) ← input.foldlM encodeBase58Step (List.replicate size 0, 0)
  -- Skip leading zeroes in base58 result.
  let digits := (b58.take length).reverse.dropWhile (· == 0)
  -- Translate the result into a string.
  return List.replicate zeroes '1' ++ digits.map (pszBase58.getD · ' ')

/-- The characters of the main loop of `DecodeBase58`: `*psz && !isspace(*psz)`. -/
def isBase58Run (c : Char) : Bool := c != '\x00' && !isspace c

/-- The main loop of `DecodeBase58` over the characters after the `1`s: a character not in
`pszBase58` fails, and each digit applies `b256 = b256 * 58 + ch`. It returns the buffer,
`length` and the text after the loop. -/
def DecodeBase58Digits {ε : Type} :
    List Char → List ℕ → ℕ → Checked ε (Option (List ℕ × ℕ × List Char))
  | [], b256, length => return some (b256, length, [])
  | c :: psz, b256, length =>
    if isBase58Run c then
      match pszBase58.idxOf? c with
      | none => return none
      | some ch => do
        let (b256, length) ← mulAddStep 256 58 b256 length ch
        DecodeBase58Digits psz b256 length
    else return some (b256, length, c :: psz)

/-- `strlen(psz)`. -/
def strlen (psz : List Char) : ℕ := (psz.takeWhile (· != '\x00')).length

/-- `DecodeBase58(psz, vch)`: the bytes, or `none` where it returns `false`. -/
def DecodeBase58 {ε : Type} (psz : List Char) : Checked ε (Option (List UInt8)) := do
  -- Skip leading spaces.
  let psz := psz.dropWhile isspace
  -- Skip and count leading '1's.
  let zeroes := (psz.takeWhile (· == '1')).length
  let psz := psz.drop zeroes
  -- Allocate enough space in big-endian base256 representation.
  let size := strlen psz * 733 / 1000 + 1
  match ← DecodeBase58Digits psz (List.replicate size 0) 0 with
  | none => return none
  | some (b256, length, psz) =>
    -- Skip trailing spaces.
    let psz := psz.dropWhile isspace
    if psz.headD '\x00' ≠ '\x00' then return none
    else
      -- Skip leading zeroes in b256.
      let digits := (b256.take length).reverse.dropWhile (· == 0)
      return some (List.replicate zeroes 0 ++ digits.map UInt8.ofNat)

/-! ## The buffers -/

/-- A buffer of `size` digits in base `base`, least significant first, zero from `length`
up: the state of both loops between two digits. -/
structure DigitBuffer (base size : ℕ) (b : List ℕ) (length : ℕ) : Prop where
  length_eq : b.length = size
  digit_lt : ∀ x ∈ b, x < base
  zero_above : ∀ x ∈ b.drop length, x = 0
  length_le : length ≤ size

theorem DigitBuffer.replicate_zero {base size : ℕ} (hb : 0 < base) :
    DigitBuffer base size (List.replicate size 0) 0 := by
  refine ⟨List.length_replicate, ?_, ?_, Nat.zero_le _⟩
  · intro x hx
    rw [List.eq_of_mem_replicate hx]
    exact hb
  · intro x hx
    exact List.eq_of_mem_replicate (List.mem_of_mem_drop hx)

/-- The digits from `length` up, seen one position further on. -/
theorem mem_drop_sub_succ {d x length i : ℕ} {ds : List ℕ}
    (hx : x ∈ ds.drop (length - (i + 1))) : x ∈ (d :: ds).drop (length - i) := by
  rcases Nat.eq_zero_or_pos (length - i) with h | h
  · rw [h, List.drop_zero]
    rw [show length - (i + 1) = 0 by omega, List.drop_zero] at hx
    exact List.mem_cons_of_mem d hx
  · rw [show length - i = length - (i + 1) + 1 by omega, List.drop_succ_cons]
    exact hx

section Loop

variable {base mult length : ℕ}

/-- The inner loop makes the buffer `b * mult + carry`, with what does not fit left in the
carry, and leaves zero everything from where it stopped up. -/
theorem mulAddDigits_spec (hb : 0 < base) :
    ∀ (ds : List ℕ) (carry i : ℕ), (∀ x ∈ ds, x < base) → (∀ x ∈ ds.drop (length - i), x = 0) →
      ∃ ds' carry' i', mulAddDigits base mult ds carry i length = (ds', carry', i') ∧
        Nat.ofDigits base ds' + base ^ ds.length * carry' = Nat.ofDigits base ds * mult + carry ∧
        ds'.length = ds.length ∧ (∀ x ∈ ds', x < base) ∧ (∀ x ∈ ds'.drop (i' - i), x = 0) ∧
        i ≤ i' ∧ i' ≤ i + ds.length := by
  intro ds
  induction ds with
  | nil =>
    intro carry i _ _
    exact ⟨[], carry, i, rfl, by simp, rfl, by simp, by simp, le_rfl, by simp⟩
  | cons d ds ih =>
    intro carry i hlt hz
    by_cases hrun : carry ≠ 0 ∨ i < length
    · -- one digit written, the rest of the loop one position on
      obtain ⟨ds', c', i', heq, hval, hlen, hlt', hz', hi, hi'⟩ :=
        ih ((carry + mult * d) / base) (i + 1) (fun x hx => hlt x (List.mem_cons_of_mem d hx))
          (fun x hx => hz x (mem_drop_sub_succ hx))
      refine ⟨(carry + mult * d) % base :: ds', c', i', ?_, ?_, by simp [hlen], ?_, ?_, by omega,
        by simp only [List.length_cons]; omega⟩
      · simp only [mulAddDigits, if_pos hrun, heq]
      · have hq := Nat.mod_add_div (carry + mult * d) base
        rw [Nat.ofDigits_cons, Nat.ofDigits_cons, List.length_cons]
        calc (carry + mult * d) % base + base * Nat.ofDigits base ds' + base ^ (ds.length + 1) * c'
            = (carry + mult * d) % base + base * (Nat.ofDigits base ds' + base ^ ds.length * c') :=
              by ring
          _ = (carry + mult * d) % base + base * ((carry + mult * d) / base) +
                base * Nat.ofDigits base ds * mult := by rw [hval]; ring
          _ = (d + base * Nat.ofDigits base ds) * mult + carry := by rw [hq]; ring
      · intro x hx
        rcases List.mem_cons.mp hx with rfl | hx
        · exact Nat.mod_lt _ hb
        · exact hlt' x hx
      · rw [show i' - i = i' - (i + 1) + 1 by omega, List.drop_succ_cons]
        exact hz'
    · -- no carry and past `length`: the rest of the buffer is zero and stays
      rw [not_or, not_not, not_lt] at hrun
      have hsub : length - i = 0 := by omega
      rw [hsub, List.drop_zero] at hz
      have hzero : Nat.ofDigits base (d :: ds) = 0 := by
        have h0 := Radix.ofDigits_take_of_zero_above (b := base) (n := 0)
          (by rw [List.drop_zero]; exact hz)
        rw [List.take_zero, Nat.ofDigits_nil] at h0
        exact h0.symm
      refine ⟨d :: ds, carry, i, by rw [mulAddDigits, if_neg (by omega)], ?_, rfl, hlt, ?_,
        le_rfl, by omega⟩
      · rw [hzero, hrun.1]
        simp
      · rw [Nat.sub_self, List.drop_zero]
        exact hz

/-- One digit into a buffer where the result fits: the `assert` holds, and the buffer is the
old one times `mult` plus the digit. -/
theorem mulAddStep_spec {ε : Type} {size : ℕ} (hb : 0 < base) {b : List ℕ}
    (h : DigitBuffer base size b length) (ch : ℕ)
    (hfit : Nat.ofDigits base b * mult + ch < base ^ size) :
    ∃ b' length', (mulAddStep base mult b length ch : Checked ε (List ℕ × ℕ)) = .ok (b', length') ∧
      DigitBuffer base size b' length' ∧ Nat.ofDigits base b' = Nat.ofDigits base b * mult + ch := by
  obtain ⟨ds', c', i', heq, hval, hlen, hlt, hz, -, hi'⟩ :=
    @mulAddDigits_spec base mult length hb b ch 0 h.digit_lt
      (by rw [Nat.sub_zero]; exact h.zero_above)
  rw [h.length_eq] at hval hi'
  -- nothing carries out of a buffer the result fits in
  have hc : c' = 0 := by
    by_contra hne
    have : base ^ size ≤ base ^ size * c' := Nat.le_mul_of_pos_right _ (Nat.pos_of_ne_zero hne)
    omega
  rw [hc, Nat.mul_zero, Nat.add_zero] at hval
  refine ⟨ds', i', ?_, ⟨hlen.trans h.length_eq, hlt, by simpa using hz, by omega⟩, hval⟩
  simp only [mulAddStep, heq, hc]
  rfl

end Loop

/-! ## The sizes -/

/-- `size = (pend - pbegin) * 138 / 100 + 1` digits of base 58 hold every number of that
many bytes. -/
theorem pow_lt_encodeSize (n : ℕ) : 256 ^ n < 58 ^ (n * 138 / 100 + 1) := by
  rw [Nat.mul_comm]
  exact Radix.pow_lt_pow_mul_div_succ (q := 8) (a := 11) (by norm_num) (by norm_num)
    (by norm_num) (by norm_num) (by norm_num) (by decide) n

/-- `size = strlen(psz) * 733 / 1000 + 1` bytes hold every number of that many base-58
digits. -/
theorem pow_lt_decodeSize (n : ℕ) : 58 ^ n < 256 ^ (n * 733 / 1000 + 1) := by
  rw [Nat.mul_comm]
  exact Radix.pow_lt_pow_mul_div_succ (q := 71) (a := 52) (by norm_num) (by norm_num)
    (by norm_num) (by norm_num) (by norm_num) (by decide) n

/-- A digit more keeps the bound of the loops: `(v * m + x + 1) * m ^ n ≤ (v + 1) * m ^ (n + 1)`
for a digit `x < m`. -/
theorem succ_mul_pow_le {v x m n B : ℕ} (hx : x < m) (hfit : (v + 1) * m ^ (n + 1) ≤ B) :
    (v * m + x + 1) * m ^ n ≤ B := by
  calc (v * m + x + 1) * m ^ n ≤ ((v + 1) * m) * m ^ n := Nat.mul_le_mul_right _ (by linarith)
    _ = (v + 1) * m ^ (n + 1) := by ring
    _ ≤ B := hfit

/-- The first digit of a loop whose bound holds fits. -/
theorem mul_add_lt_of_fit {v x m n B : ℕ} (hx : x < m) (hfit : (v + 1) * m ^ (n + 1) ≤ B) :
    v * m + x < B := by
  have hpow : 1 ≤ m ^ n := Nat.one_le_pow _ _ (by omega)
  calc v * m + x < (v + 1) * m := by linarith
    _ ≤ (v + 1) * m * m ^ n := Nat.le_mul_of_pos_right _ hpow
    _ = (v + 1) * m ^ (n + 1) := by ring
    _ ≤ B := hfit

/-! ## `EncodeBase58` -/

/-- The encoder's loop over the bytes, from a buffer whose value followed by as many bytes
fits: every `assert` holds, and the buffer ends as the old value followed by the bytes. -/
theorem foldlM_encodeBase58Step {ε : Type} {size : ℕ} :
    ∀ (xs : List UInt8) (b : List ℕ) (length : ℕ), DigitBuffer 58 size b length →
      (Nat.ofDigits 58 b + 1) * 256 ^ xs.length ≤ 58 ^ size →
      ∃ b' length', (xs.foldlM encodeBase58Step (b, length) : Checked ε (List ℕ × ℕ)) =
          .ok (b', length') ∧ DigitBuffer 58 size b' length' ∧
        Nat.ofDigits 58 b' =
          Nat.ofDigits 58 b * 256 ^ xs.length + Nat.ofDigits 256 (xs.map UInt8.toNat).reverse := by
  intro xs
  induction xs with
  | nil =>
    intro b length h _
    exact ⟨b, length, rfl, h, by simp⟩
  | cons x xs ih =>
    intro b length h hfit
    rw [List.length_cons] at hfit
    have hx : x.toNat < 256 := UInt8.toNat_lt x
    obtain ⟨b₁, l₁, hstep, h₁, hv₁⟩ :=
      mulAddStep_spec (ε := ε) (by norm_num) h x.toNat (mul_add_lt_of_fit hx hfit)
    obtain ⟨b', l', hrest, h', hv'⟩ := ih b₁ l₁ h₁ (by rw [hv₁]; exact succ_mul_pow_le hx hfit)
    refine ⟨b', l', ?_, h', ?_⟩
    · rw [List.foldlM_cons]
      show mulAddStep 58 256 b length x.toNat >>= _ = _
      rw [hstep, Checked.ok_bind]
      exact hrest
    · rw [hv', hv₁, List.map_cons, Nat.ofDigits_reverse_cons, List.length_map, List.length_cons]
      ring

/-- What `EncodeBase58` is for: a `1` for each leading zero byte, then the number the other
bytes write most significant first, in the digits of `pszBase58`. -/
def base58Encode (input : List UInt8) : List Char :=
  let zeroes := (input.takeWhile (· == 0)).length
  List.replicate zeroes '1' ++
    (Nat.digits 58 (Nat.ofDigits 256 ((input.drop zeroes).map UInt8.toNat).reverse)).reverse.map
      (pszBase58.getD · ' ')

/-- `EncodeBase58` passes its `assert`s on every input and writes `base58Encode`. -/
theorem EncodeBase58_eq {ε : Type} (input : List UInt8) :
    (EncodeBase58 input : Checked ε (List Char)) = .ok (base58Encode input) := by
  generalize hz : (input.takeWhile (· == 0)).length = zeroes
  generalize hrest : input.drop zeroes = rest
  obtain ⟨b', l', hrun, h', hv'⟩ := @foldlM_encodeBase58Step ε
    (rest.length * 138 / 100 + 1) rest _ 0 (DigitBuffer.replicate_zero (by norm_num))
    (by rw [Nat.ofDigits_replicate_zero, Nat.zero_add, Nat.one_mul]
        exact (pow_lt_encodeSize rest.length).le)
  rw [Nat.ofDigits_replicate_zero, Nat.zero_mul, Nat.zero_add] at hv'
  simp only [EncodeBase58, base58Encode, hz, hrest, hrun, Checked.ok_bind,
    Radix.reverse_take_dropWhile (by norm_num) h'.digit_lt h'.zero_above, hv']
  rfl

/-! ## `DecodeBase58` -/

theorem nodup_pszBase58 : pszBase58.Nodup := by decide

/-- `strchr(pszBase58, c)` finds a digit at its position. -/
theorem idxOf?_pszBase58 {c : Char} (hc : c ∈ pszBase58) :
    pszBase58.idxOf? c = some (pszBase58.idxOf c) := by
  have hlt := List.idxOf_lt_length_iff.mpr hc
  rw [List.idxOf?_eq_some_iff]
  refine ⟨hlt, List.getElem_idxOf hlt, fun j hj hget => ?_⟩
  -- the digits are distinct, so no earlier position holds `c`
  have hidx := nodup_pszBase58.idxOf_getElem j (by omega)
  rw [hget] at hidx
  omega

theorem idxOf_pszBase58_lt {c : Char} (hc : c ∈ pszBase58) : pszBase58.idxOf c < 58 :=
  List.idxOf_lt_length_iff.mpr hc

/-- The decoder's loop over a run of digits of `pszBase58`, from a buffer whose value
followed by as many digits fits: every `assert` holds, the loop stops after the run, and the
buffer ends as the old value followed by the digits. -/
theorem DecodeBase58Digits_of_digits {ε : Type} {size : ℕ} :
    ∀ (psz : List Char) (b : List ℕ) (length : ℕ), DigitBuffer 256 size b length →
      (∀ c ∈ psz.takeWhile isBase58Run, c ∈ pszBase58) →
      (Nat.ofDigits 256 b + 1) * 58 ^ (psz.takeWhile isBase58Run).length ≤ 256 ^ size →
      ∃ b' length', (DecodeBase58Digits psz b length : Checked ε _) =
          .ok (some (b', length', psz.dropWhile isBase58Run)) ∧
        DigitBuffer 256 size b' length' ∧
        Nat.ofDigits 256 b' = Nat.ofDigits 256 b * 58 ^ (psz.takeWhile isBase58Run).length +
          Nat.ofDigits 58 ((psz.takeWhile isBase58Run).map pszBase58.idxOf).reverse := by
  intro psz
  induction psz with
  | nil =>
    intro b length h _ _
    exact ⟨b, length, rfl, h, by simp⟩
  | cons c psz ih =>
    intro b length h hdigits hfit
    by_cases hc : isBase58Run c
    · -- a digit: one step, then the rest of the run
      rw [List.takeWhile_cons_of_pos hc] at hdigits hfit ⊢
      rw [List.dropWhile_cons_of_pos hc]
      rw [List.length_cons] at hfit
      have hmem : c ∈ pszBase58 := hdigits c List.mem_cons_self
      have hch := idxOf_pszBase58_lt hmem
      obtain ⟨b₁, l₁, hstep, h₁, hv₁⟩ :=
        mulAddStep_spec (ε := ε) (by norm_num) h _ (mul_add_lt_of_fit hch hfit)
      obtain ⟨b', l', hrest, h', hv'⟩ := ih b₁ l₁ h₁
        (fun d hd => hdigits d (List.mem_cons_of_mem c hd))
        (by rw [hv₁]; exact succ_mul_pow_le hch hfit)
      refine ⟨b', l', ?_, h', ?_⟩
      · rw [DecodeBase58Digits, if_pos hc, idxOf?_pszBase58 hmem]
        simp only [hstep, Checked.ok_bind]
        exact hrest
      · rw [hv', hv₁, List.map_cons, Nat.ofDigits_reverse_cons, List.length_map, List.length_cons]
        ring
    · -- the end of the run: the loop stops here
      rw [List.takeWhile_cons_of_neg hc, List.dropWhile_cons_of_neg hc]
      refine ⟨b, length, ?_, h, by simp⟩
      rw [DecodeBase58Digits, if_neg hc]
      rfl

/-- A character outside `pszBase58` in the run makes the loop return `false`, its `assert`s
holding up to it. -/
theorem DecodeBase58Digits_of_not_digit {ε : Type} {size : ℕ} :
    ∀ (psz : List Char) (b : List ℕ) (length : ℕ), DigitBuffer 256 size b length →
      (∃ c ∈ psz.takeWhile isBase58Run, c ∉ pszBase58) →
      (Nat.ofDigits 256 b + 1) * 58 ^ (psz.takeWhile isBase58Run).length ≤ 256 ^ size →
      (DecodeBase58Digits psz b length : Checked ε _) = .ok none := by
  intro psz
  induction psz with
  | nil =>
    intro b length _ hbad _
    simp at hbad
  | cons c psz ih =>
    intro b length h hbad hfit
    by_cases hc : isBase58Run c
    · rw [List.takeWhile_cons_of_pos hc] at hbad hfit
      rw [List.length_cons] at hfit
      rw [DecodeBase58Digits, if_pos hc]
      by_cases hmem : c ∈ pszBase58
      · -- a digit: one step, and the bad character is further on
        have hch := idxOf_pszBase58_lt hmem
        obtain ⟨b₁, l₁, hstep, h₁, hv₁⟩ :=
          mulAddStep_spec (ε := ε) (by norm_num) h _ (mul_add_lt_of_fit hch hfit)
        rw [idxOf?_pszBase58 hmem]
        simp only [hstep, Checked.ok_bind]
        obtain ⟨d, hd, hdbad⟩ := hbad
        rcases List.mem_cons.mp hd with rfl | hd
        · exact absurd hmem hdbad
        · exact ih b₁ l₁ h₁ ⟨d, hd, hdbad⟩ (by rw [hv₁]; exact succ_mul_pow_le hch hfit)
      · rw [List.idxOf?_eq_none_iff.mpr hmem]
        rfl
    · rw [List.takeWhile_cons_of_neg hc] at hbad
      simp at hbad

/-- What `DecodeBase58` is for: after spaces, a `1` for each zero byte and a run of digits of
`pszBase58` for the number the other bytes write most significant first, then spaces up to
the end or a NUL; any other text is rejected. -/
def base58Decode (psz : List Char) : Option (List UInt8) :=
  let psz := psz.dropWhile isspace
  let zeroes := (psz.takeWhile (· == '1')).length
  let digits := (psz.drop zeroes).takeWhile isBase58Run
  let rest := ((psz.drop zeroes).dropWhile isBase58Run).dropWhile isspace
  if (∀ c ∈ digits, c ∈ pszBase58) ∧ rest.headD '\x00' = '\x00' then
    some (List.replicate zeroes 0 ++
      (Nat.digits 256 (Nat.ofDigits 58 (digits.map pszBase58.idxOf).reverse)).reverse.map
        UInt8.ofNat)
  else none

/-- The run of digits stops at the NUL, so it is no longer than `strlen`. -/
theorem length_takeWhile_isBase58Run_le (psz : List Char) :
    (psz.takeWhile isBase58Run).length ≤ strlen psz := by
  induction psz with
  | nil => simp [strlen]
  | cons c psz ih =>
    by_cases hc : isBase58Run c
    · have hnul : (c != '\x00') = true := by
        simp only [isBase58Run, Bool.and_eq_true] at hc
        exact hc.1
      rw [List.takeWhile_cons_of_pos hc, strlen,
        List.takeWhile_cons_of_pos (p := fun x => x != '\x00') hnul,
        List.length_cons, List.length_cons]
      exact Nat.succ_le_succ ih
    · rw [List.takeWhile_cons_of_neg hc]
      exact Nat.zero_le _

/-- `DecodeBase58` passes its `assert`s on every input and returns `base58Decode`. -/
theorem DecodeBase58_eq {ε : Type} (psz : List Char) :
    (DecodeBase58 psz : Checked ε (Option (List UInt8))) = .ok (base58Decode psz) := by
  generalize hs0 : psz.dropWhile isspace = s0
  generalize hz : (s0.takeWhile (· == '1')).length = zeroes
  generalize hs : s0.drop zeroes = s
  -- the buffer of `strlen * 733 / 1000 + 1` bytes holds the number of the run
  have hfit : (Nat.ofDigits 256 (List.replicate (strlen s * 733 / 1000 + 1) 0) + 1) *
      58 ^ (s.takeWhile isBase58Run).length ≤ 256 ^ (strlen s * 733 / 1000 + 1) := by
    rw [Nat.ofDigits_replicate_zero, Nat.zero_add, Nat.one_mul]
    calc 58 ^ (s.takeWhile isBase58Run).length ≤ 58 ^ strlen s :=
          Nat.pow_le_pow_right (by norm_num) (length_takeWhile_isBase58Run_le s)
      _ ≤ 256 ^ (strlen s * 733 / 1000 + 1) := (pow_lt_decodeSize _).le
  by_cases hdigits : ∀ c ∈ s.takeWhile isBase58Run, c ∈ pszBase58
  · obtain ⟨b', l', hrun, h', hv'⟩ := DecodeBase58Digits_of_digits (ε := ε) s _ 0
      (DigitBuffer.replicate_zero (by norm_num)) hdigits hfit
    rw [Nat.ofDigits_replicate_zero, Nat.zero_mul, Nat.zero_add] at hv'
    simp only [DecodeBase58, base58Decode, hs0, hz, hs, hrun, Checked.ok_bind,
      Radix.reverse_take_dropWhile (by norm_num) h'.digit_lt h'.zero_above, hv']
    by_cases hrest : ((s.dropWhile isBase58Run).dropWhile isspace).headD '\x00' = '\x00'
    · rw [if_neg (not_not.mpr hrest), if_pos ⟨hdigits, hrest⟩]
      rfl
    · rw [if_pos hrest, if_neg (fun h => hrest h.2)]
      rfl
  · have hnone := DecodeBase58Digits_of_not_digit (ε := ε) s _ 0
      (DigitBuffer.replicate_zero (by norm_num)) (by simpa using hdigits) hfit
    simp only [DecodeBase58, base58Decode, hs0, hz, hs, hnone, Checked.ok_bind]
    rw [if_neg (fun h => hdigits h.1)]
    rfl

/-! ## Round trips -/

theorem length_pszBase58 : pszBase58.length = 58 := rfl

theorem isspace_of_mem_pszBase58 : ∀ c ∈ pszBase58, isspace c = false := by
  have h : pszBase58.all (fun c => !isspace c) = true := rfl
  intro c hc
  simpa using List.all_eq_true.mp h c hc

theorem isBase58Run_of_mem_pszBase58 : ∀ c ∈ pszBase58, isBase58Run c = true := by
  have h : pszBase58.all isBase58Run = true := rfl
  exact List.all_eq_true.mp h

/-- A text is over `pszBase58` when each of its characters is found there. -/
theorem mem_pszBase58_of_all {s : List Char} (h : s.all (pszBase58.contains ·) = true) :
    ∀ c ∈ s, c ∈ pszBase58 := by
  intro c hc
  simpa using List.all_eq_true.mp h c hc

theorem getD_pszBase58_mem {d : ℕ} (hd : d < 58) : pszBase58.getD d ' ' ∈ pszBase58 := by
  rw [List.getD_eq_getElem _ _ (by rw [length_pszBase58]; exact hd)]
  exact List.getElem_mem _

theorem idxOf_getD_pszBase58 {d : ℕ} (hd : d < 58) :
    pszBase58.idxOf (pszBase58.getD d ' ') = d := by
  rw [List.getD_eq_getElem _ _ (by rw [length_pszBase58]; exact hd)]
  exact nodup_pszBase58.idxOf_getElem d _

theorem getD_idxOf_pszBase58 {c : Char} (hc : c ∈ pszBase58) :
    pszBase58.getD (pszBase58.idxOf c) ' ' = c := by
  rw [List.getD_eq_getElem _ _ (List.idxOf_lt_length_iff.mpr hc)]
  exact List.getElem_idxOf _

/-- The digit zero, and only it, is written `1`. -/
theorem getD_pszBase58_eq_one_iff {d : ℕ} (hd : d < 58) :
    pszBase58.getD d ' ' = '1' ↔ d = 0 := by
  constructor
  · intro h
    have hidx := idxOf_getD_pszBase58 hd
    rw [h] at hidx
    exact hidx.symm.trans rfl
  · rintro rfl
    rfl

/-- A text that has no space is not changed by skipping spaces. -/
theorem dropWhile_isspace_of_mem {s : List Char} (hs : ∀ c ∈ s, c ∈ pszBase58) :
    s.dropWhile isspace = s := by
  cases s with
  | nil => rfl
  | cons c s =>
    rw [List.dropWhile_cons_of_neg (by simp [isspace_of_mem_pszBase58 c (hs c List.mem_cons_self)])]

/-- The digits of a number below `58 ^ k`, written in `pszBase58`, and read back. -/
theorem map_idxOf_map_getD {D : List ℕ} (hD : ∀ d ∈ D, d < 58) :
    (D.map (pszBase58.getD · ' ')).map pszBase58.idxOf = D := by
  rw [List.map_map]
  conv_rhs => rw [← List.map_id D]
  exact List.map_congr_left (fun d hd => idxOf_getD_pszBase58 (hD d hd))

/-- A text over `pszBase58` after its leading `1`s, and the digits it is made of. -/
theorem head?_map_getD_ne_one {D : List ℕ} (hD : ∀ d ∈ D, d < 58) (hhead : D.head? ≠ some 0) :
    (D.map (pszBase58.getD · ' ')).head? ≠ some '1' := by
  cases D with
  | nil => simp
  | cons d D =>
    have hd : d ≠ 0 := fun h => hhead (by rw [h]; rfl)
    rw [List.map_cons, List.head?_cons]
    intro h
    exact hd ((getD_pszBase58_eq_one_iff (hD d List.mem_cons_self)).mp (Option.some.inj h))

/-- What `base58Decode` reads from a `1` for each zero byte followed by digits of
`pszBase58` not starting with `1`. -/
theorem base58Decode_replicate_append {z : ℕ} {T : List Char} (hT : ∀ c ∈ T, c ∈ pszBase58)
    (hhead : T.head? ≠ some '1') :
    base58Decode (List.replicate z '1' ++ T) = some (List.replicate z 0 ++
      (Nat.digits 256 (Nat.ofDigits 58 (T.map pszBase58.idxOf).reverse)).reverse.map
        UInt8.ofNat) := by
  have hall : ∀ c ∈ List.replicate z '1' ++ T, c ∈ pszBase58 := by
    intro c hc
    rcases List.mem_append.mp hc with hc | hc
    · rw [List.eq_of_mem_replicate hc]
      decide
    · exact hT c hc
  have hrun : ∀ c ∈ T, isBase58Run c = true := fun c hc => isBase58Run_of_mem_pszBase58 c (hT c hc)
  simp only [base58Decode]
  rw [dropWhile_isspace_of_mem hall, Radix.length_takeWhile_replicate_append '1' z hhead,
    List.drop_left' List.length_replicate, List.takeWhile_eq_self_iff.mpr hrun,
    List.dropWhile_eq_nil_iff.mpr hrun, if_pos ⟨hT, rfl⟩]

/-- `DecodeBase58` reads back what `EncodeBase58` writes, for every byte string. -/
theorem base58Decode_base58Encode (v : List UInt8) : base58Decode (base58Encode v) = some v := by
  generalize hz : (v.takeWhile (· == 0)).length = z
  generalize hR : v.drop z = R
  have hRhead : (R.map UInt8.toNat).head? ≠ some 0 := by
    have h := Radix.head?_drop_takeWhile_ne (0 : UInt8) v
    rw [hz, hR] at h
    cases R with
    | nil => simp
    | cons x R =>
      have hx : x ≠ 0 := fun hx => h (by rw [hx]; rfl)
      simpa [← UInt8.toNat_inj] using hx
  have hRlt : ∀ x ∈ R.map UInt8.toNat, x < 256 := by
    intro x hx
    obtain ⟨y, -, rfl⟩ := List.mem_map.mp hx
    exact UInt8.toNat_lt y
  -- the digits `EncodeBase58` writes for the number of the other bytes
  generalize hD : (Nat.digits 58 (Nat.ofDigits 256 (R.map UInt8.toNat).reverse)).reverse = D
  have hDlt : ∀ d ∈ D, d < 58 := by
    rw [← hD]
    exact fun d hd => Nat.digits_lt_base (by norm_num) (List.mem_reverse.mp hd)
  have hDhead : D.head? ≠ some 0 := by
    rw [← hD]
    exact Radix.head?_reverse_digits_ne_zero _
  have henc : base58Encode v = List.replicate z '1' ++ D.map (pszBase58.getD · ' ') := by
    simp only [base58Encode, hz, hR, hD]
  rw [henc, base58Decode_replicate_append (fun c hc => by
      obtain ⟨d, hd, rfl⟩ := List.mem_map.mp hc
      exact getD_pszBase58_mem (hDlt d hd)) (head?_map_getD_ne_one hDlt hDhead),
    map_idxOf_map_getD hDlt, ← hD, List.reverse_reverse, Nat.ofDigits_digits,
    Radix.digits_ofDigits_reverse (by norm_num) hRlt hRhead, List.reverse_reverse, List.map_map]
  have hbytes : R.map (UInt8.ofNat ∘ UInt8.toNat) = R := by
    conv_rhs => rw [← List.map_id R]
    exact List.map_congr_left (fun x _ => UInt8.ofNat_toNat)
  rw [hbytes, ← hR, ← hz, Radix.replicate_append_drop_takeWhile]

theorem toNat_ofNat_byte {e : ℕ} (he : e < 256) : (UInt8.ofNat e).toNat = e := by
  rw [UInt8.toNat_ofNat']
  exact Nat.mod_eq_of_lt he

/-- `EncodeBase58` writes back every text over `pszBase58`, which `DecodeBase58` reads. -/
theorem base58Encode_base58Decode {s : List Char} (hs : ∀ c ∈ s, c ∈ pszBase58) :
    ∃ v, base58Decode s = some v ∧ base58Encode v = s := by
  generalize hz : (s.takeWhile (· == '1')).length = z
  generalize hT : s.drop z = T
  have hsplit : s = List.replicate z '1' ++ T := by
    rw [← hT, ← hz, Radix.replicate_append_drop_takeWhile]
  have hThead : T.head? ≠ some '1' := by
    rw [← hT, ← hz]
    exact Radix.head?_drop_takeWhile_ne '1' s
  have hTmem : ∀ c ∈ T, c ∈ pszBase58 :=
    fun c hc => hs c (by rw [hsplit]; exact List.mem_append_right _ hc)
  -- the digits of the run, without a leading zero since the run does not start with `1`
  generalize hD : T.map pszBase58.idxOf = D
  have hDlt : ∀ d ∈ D, d < 58 := by
    rw [← hD]
    intro d hd
    obtain ⟨c, hc, rfl⟩ := List.mem_map.mp hd
    exact idxOf_pszBase58_lt (hTmem c hc)
  have hDhead : D.head? ≠ some 0 := by
    rw [← hD]
    cases T with
    | nil => simp
    | cons c T =>
      intro h
      have hc := getD_idxOf_pszBase58 (hTmem c List.mem_cons_self)
      rw [show pszBase58.idxOf c = 0 from Option.some.inj h] at hc
      exact hThead (by rw [List.head?_cons, ← hc]; rfl)
  -- the bytes of the number, without a leading zero
  generalize hE : (Nat.digits 256 (Nat.ofDigits 58 D.reverse)).reverse = E
  have hElt : ∀ e ∈ E, e < 256 := by
    rw [← hE]
    exact fun e he => Nat.digits_lt_base (by norm_num) (List.mem_reverse.mp he)
  have hEhead : (E.map UInt8.ofNat).head? ≠ some 0 := by
    have h := Radix.head?_reverse_digits_ne_zero (b := 256) (Nat.ofDigits 58 D.reverse)
    rw [hE] at h
    cases E with
    | nil => simp
    | cons e E =>
      have he : e ≠ 0 := fun he => h (by rw [he]; rfl)
      rw [List.map_cons, List.head?_cons]
      intro h0
      have h1 := congrArg UInt8.toNat (Option.some.inj h0)
      rw [toNat_ofNat_byte (hElt e List.mem_cons_self)] at h1
      exact he h1
  have hEmap : (E.map UInt8.ofNat).map UInt8.toNat = E := by
    rw [List.map_map]
    conv_rhs => rw [← List.map_id E]
    exact List.map_congr_left (fun e he => toNat_ofNat_byte (hElt e he))
  have hTmap : (D.reverse.reverse).map (pszBase58.getD · ' ') = T := by
    rw [List.reverse_reverse, ← hD, List.map_map]
    conv_rhs => rw [← List.map_id T]
    exact List.map_congr_left (fun c hc => getD_idxOf_pszBase58 (hTmem c hc))
  refine ⟨List.replicate z 0 ++ E.map UInt8.ofNat, ?_, ?_⟩
  · rw [hsplit, base58Decode_replicate_append hTmem hThead, hD, hE]
  · simp only [base58Encode]
    rw [Radix.length_takeWhile_replicate_append 0 z hEhead, List.drop_left' List.length_replicate,
      hEmap, ← hE, List.reverse_reverse, Nat.ofDigits_digits,
      Radix.digits_ofDigits_reverse (by norm_num) hDlt hDhead, hTmap, hsplit]

/-! ## The texts `DecodeBase58` accepts -/

/-- A text `DecodeBase58` accepts: spaces, digits of `pszBase58`, spaces, then the end or a
NUL. -/
def Base58Text (psz : List Char) : Prop :=
  ∃ sp₁ s sp₂ tail, psz = sp₁ ++ s ++ sp₂ ++ tail ∧ (∀ c ∈ sp₁, isspace c) ∧
    (∀ c ∈ sp₂, isspace c) ∧ (∀ c ∈ s, c ∈ pszBase58) ∧ tail.headD '\x00' = '\x00'

theorem takeWhile_eq_nil_of_head {p : Char → Bool} {l : List Char}
    (h : ∀ c, l.head? = some c → p c = false) : l.takeWhile p = [] := by
  cases l with
  | nil => rfl
  | cons c l => rw [List.takeWhile_cons_of_neg (by simp [h c rfl])]

theorem dropWhile_eq_self_of_head {p : Char → Bool} {l : List Char}
    (h : ∀ c, l.head? = some c → p c = false) : l.dropWhile p = l := by
  cases l with
  | nil => rfl
  | cons c l => rw [List.dropWhile_cons_of_neg (by simp [h c rfl])]

/-- After the digits, a text `DecodeBase58` accepts goes on with a space, a NUL or nothing. -/
theorem head_spaces_append_tail {sp₂ tail : List Char} (hsp₂ : ∀ c ∈ sp₂, isspace c)
    (htail : tail.headD '\x00' = '\x00') :
    ∀ c, (sp₂ ++ tail).head? = some c → isspace c ∨ c = '\x00' := by
  intro c hc
  cases sp₂ with
  | cons d sp₂ =>
    rw [List.cons_append, List.head?_cons, Option.some.injEq] at hc
    exact Or.inl (hc ▸ hsp₂ d List.mem_cons_self)
  | nil =>
    cases tail with
    | nil => simp at hc
    | cons d tail =>
      rw [List.nil_append, List.head?_cons, Option.some.injEq] at hc
      exact Or.inr (hc ▸ htail)

/-- What `base58Decode` accepts: the check it makes, written as a text. -/
theorem base58Text_of_isSome {psz : List Char} (h : (base58Decode psz).isSome) :
    Base58Text psz := by
  simp only [base58Decode] at h
  split_ifs at h with hcond
  · obtain ⟨hdigits, hrest⟩ := hcond
    -- the text cut where `DecodeBase58` cuts it
    generalize hs0 : psz.dropWhile isspace = s0 at hdigits hrest
    generalize hz : (s0.takeWhile (· == '1')).length = z at hdigits hrest
    generalize hr : (s0.drop z).dropWhile isBase58Run = r at hrest
    have h₁ : psz.takeWhile isspace ++ s0 = psz := by
      rw [← hs0, List.takeWhile_append_dropWhile]
    have h₂ : List.replicate z '1' ++ s0.drop z = s0 := by
      rw [← hz, Radix.replicate_append_drop_takeWhile]
    have h₃ : (s0.drop z).takeWhile isBase58Run ++ r = s0.drop z := by
      rw [← hr, List.takeWhile_append_dropWhile]
    refine ⟨psz.takeWhile isspace, List.replicate z '1' ++ (s0.drop z).takeWhile isBase58Run,
      r.takeWhile isspace, r.dropWhile isspace, ?_, fun c hc => List.mem_takeWhile_imp hc,
      fun c hc => List.mem_takeWhile_imp hc, ?_, hrest⟩
    · simp only [List.append_assoc, List.takeWhile_append_dropWhile, h₃, h₂, h₁]
    · intro c hc
      rcases List.mem_append.mp hc with hc | hc
      · rw [List.eq_of_mem_replicate hc]
        decide
      · exact hdigits c hc
  · simp at h

/-- Every such text is accepted. -/
theorem isSome_of_base58Text {psz : List Char} (h : Base58Text psz) :
    (base58Decode psz).isSome := by
  obtain ⟨sp₁, s, sp₂, tail, rfl, hsp₁, hsp₂, hs, htail⟩ := h
  have hafter := head_spaces_append_tail hsp₂ htail
  -- what follows the digits is a space, a NUL or nothing: no digit and no `1`
  have hnotrun : ∀ c, (sp₂ ++ tail).head? = some c → isBase58Run c = false := by
    intro c hc
    rcases hafter c hc with hsp | rfl
    · simp [isBase58Run, hsp]
    · rfl
  have hnotone : ∀ c, (sp₂ ++ tail).head? = some c → (c == '1') = false := by
    intro c hc
    rcases hafter c hc with hsp | rfl
    · rw [beq_eq_false_iff_ne]
      rintro rfl
      exact absurd hsp (by decide)
    · rfl
  have hend : ((sp₂ ++ tail).dropWhile isspace).headD '\x00' = '\x00' := by
    rw [List.dropWhile_append_of_pos hsp₂]
    cases tail with
    | nil => rfl
    | cons d tail =>
      rw [List.headD_cons] at htail
      rw [List.dropWhile_cons_of_neg (by rw [htail]; decide), List.headD_cons, htail]
  simp only [base58Decode]
  rw [if_pos]
  · rfl
  rcases s with _ | ⟨c, s⟩
  · -- no digits: the spaces before and after run together, and the end or a NUL follows
    have htail' : ∀ c, tail.head? = some c → c = '\x00' := by
      intro c hc
      cases tail with
      | nil => simp at hc
      | cons d tail =>
        rw [List.head?_cons, Option.some.injEq] at hc
        rw [← hc]
        exact htail
    have hsp0 : tail.dropWhile isspace = tail :=
      dropWhile_eq_self_of_head (fun c hc => by rw [htail' c hc]; decide)
    have hones : tail.takeWhile (· == '1') = [] :=
      takeWhile_eq_nil_of_head (fun c hc => by rw [htail' c hc]; decide)
    have hrun0 : tail.takeWhile isBase58Run = [] :=
      takeWhile_eq_nil_of_head (fun c hc => by rw [htail' c hc]; decide)
    have hskip0 : tail.dropWhile isBase58Run = tail :=
      dropWhile_eq_self_of_head (fun c hc => by rw [htail' c hc]; decide)
    rw [List.append_nil, List.append_assoc, List.dropWhile_append_of_pos hsp₁,
      List.dropWhile_append_of_pos hsp₂, hsp0, hones, List.length_nil, List.drop_zero, hrun0,
      hskip0, hsp0]
    exact ⟨by simp, htail⟩
  · -- digits: the leading spaces go, and the run of digits ends where the text says
    have hc : isspace c = false := isspace_of_mem_pszBase58 c (hs c List.mem_cons_self)
    rw [List.append_assoc, List.append_assoc, List.dropWhile_append_of_pos hsp₁,
      List.cons_append, List.dropWhile_cons_of_neg (by simp [hc]), ← List.cons_append]
    generalize c :: s = S at hs
    have hones : (S ++ (sp₂ ++ tail)).takeWhile (· == '1') = S.takeWhile (· == '1') := by
      rw [List.takeWhile_append, takeWhile_eq_nil_of_head hnotone, List.append_nil]
      split_ifs with hlen
      · exact ((List.takeWhile_prefix (· == '1')).eq_of_length hlen).symm
      · rfl
    have hrun : ∀ d ∈ S.drop (S.takeWhile (· == '1')).length, isBase58Run d :=
      fun d hd => isBase58Run_of_mem_pszBase58 d (hs d (List.mem_of_mem_drop hd))
    rw [hones, List.drop_append_of_le_length (List.takeWhile_prefix _).length_le,
      List.takeWhile_append_of_pos hrun, takeWhile_eq_nil_of_head hnotrun, List.append_nil,
      List.dropWhile_append_of_pos hrun, dropWhile_eq_self_of_head hnotrun]
    exact ⟨fun d hd => hs d (List.mem_of_mem_drop hd), hend⟩

/-- `DecodeBase58` never fails an `assert`, and accepts exactly the texts of `Base58Text`. -/
theorem DecodeBase58_accepts {ε : Type} (psz : List Char) :
    ∃ r, (DecodeBase58 psz : Checked ε (Option (List UInt8))) = .ok r ∧
      (r.isSome ↔ Base58Text psz) :=
  ⟨base58Decode psz, DecodeBase58_eq psz, ⟨base58Text_of_isSome, isSome_of_base58Text⟩⟩

/-- `EncodeBase58` never fails an `assert`, and `DecodeBase58` reads its text back. -/
theorem DecodeBase58_EncodeBase58 {ε : Type} (v : List UInt8) :
    ∃ s, (EncodeBase58 v : Checked ε (List Char)) = .ok s ∧
      (DecodeBase58 s : Checked ε (Option (List UInt8))) = .ok (some v) :=
  ⟨base58Encode v, EncodeBase58_eq v, by rw [DecodeBase58_eq, base58Decode_base58Encode]⟩

/-- Every text over `pszBase58` is what `EncodeBase58` writes for the bytes `DecodeBase58`
reads from it. -/
theorem EncodeBase58_DecodeBase58 {ε : Type} {s : List Char} (hs : ∀ c ∈ s, c ∈ pszBase58) :
    ∃ v, (DecodeBase58 s : Checked ε (Option (List UInt8))) = .ok (some v) ∧
      (EncodeBase58 v : Checked ε (List Char)) = .ok s := by
  obtain ⟨v, hdec, henc⟩ := base58Encode_base58Decode hs
  exact ⟨v, by rw [DecodeBase58_eq, hdec], by rw [EncodeBase58_eq, henc]⟩

theorem EncodeBase58_DecodeBase58_cascoin :
    (∀ c ∈ "1CAS".toList, c ∈ pszBase58) ∧
      ∃ v, (DecodeBase58 "1CAS".toList : Checked Unit (Option (List UInt8))) = .ok (some v) ∧
        (EncodeBase58 v : Checked Unit (List Char)) = .ok "1CAS".toList :=
  ⟨mem_pszBase58_of_all rfl, EncodeBase58_DecodeBase58 (mem_pszBase58_of_all rfl)⟩

/-! ## `EncodeBase58Check` and `DecodeBase58Check` -/

/-- `EncodeBase58Check(vchIn)`: the bytes and the first four bytes of their `Hash`. -/
def EncodeBase58Check {ε : Type} (Hash : List UInt8 → Uint256) (vchIn : List UInt8) :
    Checked ε (List Char) :=
  EncodeBase58 (vchIn ++ Bytes.leBytes (Hash vchIn).toNat 4)

/-- `DecodeBase58Check(psz, vchRet)`: the bytes before the check, or `none` where it returns
`false`. -/
def DecodeBase58Check {ε : Type} (Hash : List UInt8 → Uint256) (psz : List Char) :
    Checked ε (Option (List UInt8)) := do
  match ← DecodeBase58 psz with
  | none => return none
  | some vchRet =>
    if vchRet.length < 4 then return none
    -- re-calculate the checksum, ensure it matches the included 4-byte checksum
    else if Bytes.leBytes (Hash (vchRet.take (vchRet.length - 4))).toNat 4 ≠
        vchRet.drop (vchRet.length - 4) then return none
    else return some (vchRet.take (vchRet.length - 4))

/-- `DecodeBase58Check` reads the bytes back from the text of the bytes and their check. -/
theorem DecodeBase58Check_base58Encode {ε : Type} (Hash : List UInt8 → Uint256)
    (v : List UInt8) :
    (DecodeBase58Check Hash (base58Encode (v ++ Bytes.leBytes (Hash v).toNat 4)) :
      Checked ε (Option (List UInt8))) = .ok (some v) := by
  have hlen : (v ++ Bytes.leBytes (Hash v).toNat 4).length - 4 = v.length := by
    rw [List.length_append, Bytes.length_leBytes, Nat.add_sub_cancel]
  simp only [DecodeBase58Check, DecodeBase58_eq, base58Decode_base58Encode, Checked.ok_bind]
  rw [hlen, List.take_left' rfl, List.drop_left' rfl, if_neg (by simp), if_neg (by simp)]
  rfl

/-- `DecodeBase58Check` reads back what `EncodeBase58Check` writes, whatever the hash. -/
theorem DecodeBase58Check_EncodeBase58Check {ε : Type} (Hash : List UInt8 → Uint256)
    (v : List UInt8) :
    ∃ s, (EncodeBase58Check Hash v : Checked ε (List Char)) = .ok s ∧
      (DecodeBase58Check Hash s : Checked ε (Option (List UInt8))) = .ok (some v) :=
  ⟨_, EncodeBase58_eq _, DecodeBase58Check_base58Encode Hash v⟩

end Cascoin
