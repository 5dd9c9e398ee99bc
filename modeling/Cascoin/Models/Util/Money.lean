import Cascoin.Core.Decimal
import Cascoin.Core.Checked
import Cascoin.Models.Primitives.Transaction

/-!
# Amounts as text

`FormatMoney` and `ParseMoney` of `utilmoneystr.cpp`, `ValueFromAmount` of
`core_write.cpp`, `ParseFixedPoint` of `utilstrencodings.cpp`, and the two
`AmountFromValue`s, of the RPC server and of `cascoin-tx`. Amounts are integers in the
units of the scaled `COIN` of `amount.h`, `10^7` of them to a coin after the 10:1 coin
swap, so the texts carry seven decimals.

`FormatMoney` writes the whole coins, a point and the seven decimals less their trailing
zeros, keeping two, and `ParseMoney` reads that text back. `ValueFromAmount` writes the
sign and all seven decimals; `ParseFixedPoint` with `d` decimals reads that text as the
amount times `10^(d - 7)`, so the RPC `AmountFromValue`, which passes `d = 7`, reads the
amount back. The `AmountFromValue` of `cascoin-tx`, which reads the amounts of the
`prevtxs` it signs for, still passes `d = 8`, the count before the coin swap, and reads
ten times the amount.
-/

namespace Cascoin

open Decimal

/-- `CENT`, scaled by the 10:1 coin swap. -/
def CENT : Int := 1000000 / 10

/-- `isspace` in the C locale: space, tab, line feed, vertical tab, form feed, return. -/
def isspace (c : Char) : Bool :=
  c == ' ' || c == '\t' || c == '\n' || c == '\x0b' || c == '\x0c' || c == '\r'

/-! ## `FormatMoney` and `ParseMoney` -/

/-- The loop of `FormatMoney` counting the zeros to trim, from position `i` down:
`for (int i = str.size()-1; (str[i] == '0' && isdigit(str[i-2])); --i) ++nTrim;`
The point stops it two places to its right, before `str[i-2]` could leave the text. -/
def FormatMoneyTrim (str : List Char) : ℕ → ℕ → ℕ
  | i + 2, nTrim =>
    if str.getD (i + 2) ' ' = '0' ∧ (str.getD i ' ').isDigit then
      FormatMoneyTrim str (i + 1) (nTrim + 1)
    else nTrim
  | _, nTrim => nTrim

/-- `FormatMoney(n)`: `%d.%07d` of the whole coins and the rest, trailing zeros trimmed
down to two decimals, then the sign. -/
def FormatMoney (n : ℤ) : List Char :=
  let n_abs := if n > 0 then n else -n
  let quotient := n_abs / COIN
  let remainder := n_abs % COIN
  let str := Nat.toDigits 10 quotient.toNat ++ '.' :: zeroPad 7 remainder.toNat
  let nTrim := FormatMoneyTrim str (str.length - 1) 0
  let str := str.take (str.length - nTrim)
  if n < 0 then '-' :: str else str

/-- The decimals of `ParseMoney`: each digit adds `nMult` times its value, `nMult` falling
tenfold, while digits are left and `nMult > 0`; the text after them is returned. -/
def ParseMoneyUnits : List Char → ℤ → ℤ → ℤ × List Char
  | [], _, nUnits => (nUnits, [])
  | c :: rest, nMult, nUnits =>
    if c.isDigit ∧ nMult > 0 then ParseMoneyUnits rest (nMult / 10) (nUnits + nMult * digitValue c)
    else (nUnits, c :: rest)

/-- The main loop of `ParseMoney`: digits go to `strWhole`, a point reads the decimals and
ends it, a space ends it, any other character fails. -/
def ParseMoneyWhole : List Char → List Char → Option (List Char × ℤ × List Char)
  | [], strWhole => some (strWhole, 0, [])
  | c :: rest, strWhole =>
    if c = '.' then
      let (nUnits, rest) := ParseMoneyUnits rest (CENT * 10) 0
      some (strWhole, nUnits, rest)
    else if isspace c then some (strWhole, 0, c :: rest)
    else if !c.isDigit then none
    else ParseMoneyWhole rest (strWhole ++ [c])

/-- `atoi64(str)` on a text without leading space or sign, as `ParseMoney` passes it:
the value of its leading digits. -/
def atoi64 (str : List Char) : ℤ := Nat.ofDigitChars 10 (str.takeWhile Char.isDigit) 0

/-- `ParseMoney(str, nRet)`: the amount, `none` for `false`. -/
def ParseMoney (str : List Char) : Option ℤ := do
  -- `str.c_str()`: the text ends at the first NUL
  let p := (str.takeWhile (· ≠ '\x00')).dropWhile isspace
  let (strWhole, nUnits, rest) ← ParseMoneyWhole p []
  if !rest.all isspace then none
  -- guard against 63 bit overflow
  if strWhole.length > 10 then none
  if nUnits < 0 ∨ nUnits > COIN then none
  let nWhole := atoi64 strWhole
  return nWhole * COIN + nUnits

/-! ## `ParseFixedPoint` -/

/-- `UPPER_BOUND`, `10^18 - 1`: the largest magnitude `ParseFixedPoint` returns. -/
def UPPER_BOUND : ℤ := 1000000000000000000 - 1

/-- The loop of `ProcessMantissaDigit` shifting in the zeros counted so far and one place
more, each shift failing on overflow:
`for (int i=0; i<=mantissa_tzeros; ++i) { if (mantissa > (UPPER_BOUND / 10LL)) return false; mantissa *= 10; }` -/
def shiftMantissa : ℕ → ℤ → Option ℤ
  | 0, mantissa => some mantissa
  | k + 1, mantissa => if mantissa > UPPER_BOUND / 10 then none else shiftMantissa k (mantissa * 10)

/-- `ProcessMantissaDigit(ch, mantissa, mantissa_tzeros)`: a zero is only counted, another
digit is added after the zeros counted before it. -/
def ProcessMantissaDigit (ch : Char) (mantissa : ℤ) (mantissa_tzeros : ℕ) : Option (ℤ × ℕ) :=
  if ch = '0' then some (mantissa, mantissa_tzeros + 1)
  else do
    let mantissa ← shiftMantissa (mantissa_tzeros + 1) mantissa
    return (mantissa + digitValue ch, 0)

/-- A run of mantissa digits, `while (ptr < end && val[ptr] >= '0' && val[ptr] <= '9')`:
the text after it, the mantissa with its trailing zeros, and the count of digits read. -/
def mantissaDigits : List Char → ℤ → ℕ → ℕ → Option (List Char × ℤ × ℕ × ℕ)
  | [], mantissa, mantissa_tzeros, count => some ([], mantissa, mantissa_tzeros, count)
  | c :: rest, mantissa, mantissa_tzeros, count =>
    if c.isDigit then
      match ProcessMantissaDigit c mantissa mantissa_tzeros with
      | some (mantissa, mantissa_tzeros) => mantissaDigits rest mantissa mantissa_tzeros (count + 1)
      | none => none
    else some (c :: rest, mantissa, mantissa_tzeros, count)

/-- The digits of the exponent, each failing on overflow:
`if (exponent > (UPPER_BOUND / 10LL)) return false; exponent = exponent * 10 + val[ptr] - '0';` -/
def exponentDigits : List Char → ℤ → Option (List Char × ℤ)
  | [], exponent => some ([], exponent)
  | c :: rest, exponent =>
    if c.isDigit then
      if exponent > UPPER_BOUND / 10 then none else exponentDigits rest (exponent * 10 + digitValue c)
    else some (c :: rest, exponent)

/-- The final scaling by ten, `exponent` times, failing on overflow of either sign. -/
def scaleMantissa : ℕ → ℤ → Option ℤ
  | 0, mantissa => some mantissa
  | k + 1, mantissa =>
    if mantissa > UPPER_BOUND / 10 ∨ mantissa < -(UPPER_BOUND / 10) then none
    else scaleMantissa k (mantissa * 10)

/-- The integer part: a single `0`, or digits from a `1` to `9` on. -/
def fixedPointInteger : List Char → Option (List Char × ℤ × ℕ)
  | [] => none
  | c :: rest =>
    if c = '0' then some (rest, 0, 0)
    else if c.isDigit then
      match mantissaDigits (c :: rest) 0 0 0 with
      | some (rest, mantissa, mantissa_tzeros, _) => some (rest, mantissa, mantissa_tzeros)
      | none => none
    else none

/-- The fraction: after a point, one digit or more, which `point_ofs` counts. -/
def fixedPointFraction (s : List Char) (mantissa : ℤ) (mantissa_tzeros : ℕ) :
    Option (List Char × ℤ × ℕ × ℕ) :=
  match s with
  | '.' :: rest =>
    match rest with
    | c :: _ => if c.isDigit then mantissaDigits rest mantissa mantissa_tzeros 0 else none
    | [] => none
  | _ => some (s, mantissa, mantissa_tzeros, 0)

/-- The exponent: after an `e` or `E` and an optional sign, one digit or more. -/
def fixedPointExponent : List Char → Option (List Char × ℤ)
  | [] => some ([], 0)
  | e :: rest =>
    if e = 'e' ∨ e = 'E' then
      let (exponent_sign, rest) := match rest with
        | '+' :: rest => (false, rest)
        | '-' :: rest => (true, rest)
        | rest => (false, rest)
      match rest with
      | c :: _ =>
        if c.isDigit then
          match exponentDigits rest 0 with
          | some (rest, exponent) => some (rest, if exponent_sign then -exponent else exponent)
          | none => none
        else none
      | [] => none
    else some (e :: rest, 0)

/-- The sign: a leading `-` is taken off. -/
def fixedPointSign : List Char → Bool × List Char
  | '-' :: rest => (true, rest)
  | s => (false, s)

/-- `ParseFixedPoint(val, decimals, &amount_out)`: the value times `10^decimals`, `none`
for `false`. -/
def ParseFixedPoint (val : List Char) (decimals : ℤ) : Option ℤ := do
  let (mantissa_sign, s) := fixedPointSign val
  let (s, mantissa, mantissa_tzeros) ← fixedPointInteger s
  let (s, mantissa, mantissa_tzeros, point_ofs) ← fixedPointFraction s mantissa mantissa_tzeros
  let (s, exponent) ← fixedPointExponent s
  -- trailing garbage
  if s ≠ [] then none
  let exponent := exponent - point_ofs + mantissa_tzeros + decimals
  let mantissa := if mantissa_sign then -mantissa else mantissa
  if exponent < 0 then none
  if exponent ≥ 18 then none
  let mantissa ← scaleMantissa exponent.toNat mantissa
  if mantissa > UPPER_BOUND ∨ mantissa < -UPPER_BOUND then none
  return mantissa

/-! ## Amounts in JSON -/

/-- The types of a `UniValue`. -/
inductive VType where
  | VNULL | VOBJ | VARR | VSTR | VNUM | VBOOL
  deriving DecidableEq

/-- A `UniValue` as the amount parsers read it: its type and its text, `getValStr()`. -/
structure UniValue where
  typ : VType
  val : List Char

/-- `ValueFromAmount(amount)`: a number whose text is `%s%d.%07d` of the sign, the whole
coins and the rest. -/
def ValueFromAmount (amount : ℤ) : UniValue :=
  let sign := decide (amount < 0)
  let n_abs := if sign then -amount else amount
  let quotient := n_abs / COIN
  let remainder := n_abs % COIN
  ⟨.VNUM, (if sign then ['-'] else []) ++ Nat.toDigits 10 quotient.toNat ++
    '.' :: zeroPad 7 remainder.toNat⟩

/-- The body both `AmountFromValue`s share: a number or a string, read by
`ParseFixedPoint` with `decimals`, in `MoneyRange`; `fail` throws. -/
def AmountFromValueWith (decimals : ℤ) (fail : String → Checked String ℤ) (value : UniValue) :
    Checked String ℤ := do
  if !(value.typ = .VNUM ∨ value.typ = .VSTR) then fail "Amount is not a number or string"
  else
    match ParseFixedPoint value.val decimals with
    | none => fail "Invalid amount"
    | some amount => if !MoneyRange amount then fail "Amount out of range" else return amount

/-- `AmountFromValue(value)` of the RPC server, its `JSONRPCError`s as rejections. -/
def AmountFromValue (value : UniValue) : Checked String ℤ :=
  AmountFromValueWith 7 Checked.reject value

namespace CascoinTx

/-- `AmountFromValue(value)` of `cascoin-tx`, its `runtime_error`s as exceptions. -/
def AmountFromValue (value : UniValue) : Checked String ℤ :=
  AmountFromValueWith 8 Checked.raise value

/-- `ExtractAndValidateValue(strValue)` of `cascoin-tx`, which reads output amounts. -/
def ExtractAndValidateValue (strValue : List Char) : Checked String ℤ :=
  match ParseMoney strValue with
  | some value => .ok value
  | none => Checked.raise "invalid TX output value"

end CascoinTx

/-! ## Reading digits -/

section Digits

/-- Shifting within the bound passes every check of the loop. -/
theorem shiftMantissa_eq : ∀ (k : ℕ) (m : ℤ), 0 ≤ m → m * 10 ^ k ≤ UPPER_BOUND →
    shiftMantissa k m = some (m * 10 ^ k) := by
  intro k
  induction k with
  | zero =>
    intro m _ _
    simp [shiftMantissa]
  | succ k ih =>
    intro m hm hle
    -- one shift is within the bound the whole shift is within
    have hfit : m ≤ UPPER_BOUND / 10 := by
      refine Int.le_ediv_of_mul_le (by norm_num) (le_trans ?_ hle)
      exact mul_le_mul_of_nonneg_left (le_self_pow₀ (by norm_num) (Nat.succ_ne_zero k)) hm
    have hrest : m * 10 * 10 ^ k = m * 10 ^ (k + 1) := by ring
    rw [shiftMantissa, if_neg (not_lt.mpr hfit), ih (m * 10) (by positivity) (hrest ▸ hle), hrest]

/-- Scaling within the bound passes every check of the loop, whatever the sign. -/
theorem scaleMantissa_eq : ∀ (k : ℕ) (m : ℤ), |m| * 10 ^ k ≤ UPPER_BOUND →
    scaleMantissa k m = some (m * 10 ^ k) := by
  intro k
  induction k with
  | zero =>
    intro m _
    simp [scaleMantissa]
  | succ k ih =>
    intro m hle
    have hfit : |m| ≤ UPPER_BOUND / 10 := by
      refine Int.le_ediv_of_mul_le (by norm_num) (le_trans ?_ hle)
      exact mul_le_mul_of_nonneg_left (le_self_pow₀ (by norm_num) (Nat.succ_ne_zero k))
        (abs_nonneg m)
    obtain ⟨hlo, hhi⟩ := abs_le.mp hfit
    have hrest : |m * 10| * 10 ^ k = |m| * 10 ^ (k + 1) := by
      rw [abs_mul, abs_of_pos (by norm_num : (0 : ℤ) < 10)]
      ring
    rw [scaleMantissa, if_neg (by omega), ih (m * 10) (hrest ▸ hle)]
    ring_nf

theorem mantissaDigits_of_noDigitHead {rest : List Char} (hrest : NoDigitHead rest) (m : ℤ)
    (z count : ℕ) : mantissaDigits rest m z count = some (rest, m, z, count) := by
  cases rest with
  | nil => rfl
  | cons c rest => simp [mantissaDigits, hrest c rest rfl]

/-- A run of digits reads their value, times `10` to the zeros counted, into the mantissa
and its trailing zeros, when the whole value is within the bound. -/
theorem mantissaDigits_eq {rest : List Char} (hrest : NoDigitHead rest) :
    ∀ (ds : List Char) (m : ℤ) (z count : ℕ), AllDigits ds → 0 ≤ m →
      m * 10 ^ (z + ds.length) + Nat.ofDigitChars 10 ds 0 ≤ UPPER_BOUND →
      ∃ m' z', mantissaDigits (ds ++ rest) m z count = some (rest, m', z', count + ds.length) ∧
        m' * 10 ^ z' = m * 10 ^ (z + ds.length) + Nat.ofDigitChars 10 ds 0 ∧ 0 ≤ m' ∧
        z' ≤ z + ds.length := by
  intro ds
  induction ds with
  | nil =>
    intro m z count _ hm _
    refine ⟨m, z, ?_, by simp, hm, le_refl _⟩
    simpa using mantissaDigits_of_noDigitHead hrest m z count
  | cons c ds ih =>
    intro m z count hdig hm hle
    have hc : c.isDigit := hdig c List.mem_cons_self
    have hds : AllDigits ds := fun d hd => hdig d (List.mem_cons_of_mem c hd)
    have hval : (Nat.ofDigitChars 10 (c :: ds) 0 : ℤ) =
        digitValue c * 10 ^ ds.length + Nat.ofDigitChars 10 ds 0 := by
      rw [ofDigitChars_cons]
      push_cast
      rfl
    have hlen : z + (c :: ds).length = z + 1 + ds.length := by simp only [List.length_cons]; omega
    by_cases hzero : c = '0'
    · -- a zero is only counted
      subst hzero
      have hdv : digitValue '0' = 0 := rfl
      rw [hval, hdv, hlen] at hle
      obtain ⟨m', z', hrun, hm', hnn, hz'⟩ := ih m (z + 1) (count + 1) hds hm (by simpa using hle)
      refine ⟨m', z', ?_, ?_, hnn, by simp only [List.length_cons]; omega⟩
      · simp only [List.cons_append, mantissaDigits, hc, if_true, ProcessMantissaDigit, hrun,
          List.length_cons]
        rw [Nat.add_right_comm, Nat.add_assoc]
      · rw [hm', hval, hdv, hlen]
        simp
    · -- another digit shifts in the zeros counted before it
      have hshift : m * 10 ^ (z + 1) ≤ UPPER_BOUND := by
        refine le_trans ?_ hle
        have hpow : m * 10 ^ (z + 1) ≤ m * 10 ^ (z + (c :: ds).length) :=
          mul_le_mul_of_nonneg_left (pow_le_pow_right₀ (by norm_num) (by simp)) hm
        have hnn : (0 : ℤ) ≤ Nat.ofDigitChars 10 (c :: ds) 0 := by positivity
        linarith
      have hm₁ : 0 ≤ m * 10 ^ (z + 1) + digitValue c := by positivity
      obtain ⟨m', z', hrun, hm', hnn, hz'⟩ :=
        ih (m * 10 ^ (z + 1) + digitValue c) 0 (count + 1) hds hm₁ (by
          rw [hval, hlen] at hle
          have hsplit : (m * 10 ^ (z + 1) + digitValue c) * 10 ^ (0 + ds.length) =
              m * 10 ^ (z + 1 + ds.length) + digitValue c * 10 ^ ds.length := by ring
          linarith)
      refine ⟨m', z', ?_, ?_, hnn, by simp only [List.length_cons]; omega⟩
      · simp [mantissaDigits, hc, ProcessMantissaDigit, hzero, shiftMantissa_eq (z + 1) m hm hshift]
        rw [hrun, Nat.add_right_comm, Nat.add_assoc]
      · rw [hm', hval, hlen]
        ring

theorem exponentDigits_eq {rest : List Char} (hrest : NoDigitHead rest) :
    ∀ (ds : List Char) (e : ℤ), AllDigits ds → 0 ≤ e →
      e * 10 ^ ds.length + Nat.ofDigitChars 10 ds 0 ≤ UPPER_BOUND →
      exponentDigits (ds ++ rest) e = some (rest, e * 10 ^ ds.length + Nat.ofDigitChars 10 ds 0) := by
  intro ds
  induction ds with
  | nil =>
    intro e _ _ _
    cases rest with
    | nil => simp [exponentDigits]
    | cons c rest => simp [exponentDigits, hrest c rest rfl]
  | cons c ds ih =>
    intro e hdig he hle
    have hc : c.isDigit := hdig c List.mem_cons_self
    have hds : AllDigits ds := fun d hd => hdig d (List.mem_cons_of_mem c hd)
    have hval : (Nat.ofDigitChars 10 (c :: ds) 0 : ℤ) =
        digitValue c * 10 ^ ds.length + Nat.ofDigitChars 10 ds 0 := by
      rw [ofDigitChars_cons]
      push_cast
      rfl
    have hsplit : e * 10 ^ (c :: ds).length + Nat.ofDigitChars 10 (c :: ds) 0 =
        (e * 10 + digitValue c) * 10 ^ ds.length + Nat.ofDigitChars 10 ds 0 := by
      rw [hval, List.length_cons]
      ring
    -- the check before the digit is within the bound of the whole exponent
    have hfit : e ≤ UPPER_BOUND / 10 := by
      refine Int.le_ediv_of_mul_le (by norm_num) (le_trans ?_ hle)
      have hpow : e * 10 ≤ e * 10 ^ (c :: ds).length :=
        mul_le_mul_of_nonneg_left (le_self_pow₀ (by norm_num) (by simp)) he
      have hnn : (0 : ℤ) ≤ Nat.ofDigitChars 10 (c :: ds) 0 := by positivity
      linarith
    rw [List.cons_append, exponentDigits, if_pos hc, if_neg (not_lt.mpr hfit),
      ih (e * 10 + digitValue c) hds (by positivity) (hsplit ▸ hle), hsplit]

end Digits

/-! ## `ParseFixedPoint` on the amounts `ValueFromAmount` writes -/

section FixedPoint

theorem noDigitHead_point (rest : List Char) : NoDigitHead ('.' :: rest) := by
  intro c rest' h
  cases h
  rfl

theorem fixedPointSign_of_isDigit {c : Char} (hc : c.isDigit) (s : List Char) :
    fixedPointSign (c :: s) = (false, c :: s) := by
  have hne : c ≠ '-' := by
    rintro rfl
    exact absurd hc (by decide)
  unfold fixedPointSign
  split
  · case h_1 rest heq => exact absurd (List.cons.inj heq).1 hne
  · rfl

/-- The integer part of the text of `q`: its value, as a mantissa and trailing zeros. -/
theorem fixedPointInteger_toDigits {rest : List Char} (hrest : NoDigitHead rest) {q : ℕ}
    (hq : (q : ℤ) ≤ UPPER_BOUND) :
    ∃ m z, fixedPointInteger (Nat.toDigits 10 q ++ rest) = some (rest, m, z) ∧
      m * 10 ^ z = q ∧ 0 ≤ m ∧ z ≤ (Nat.toDigits 10 q).length := by
  rcases Nat.eq_zero_or_pos q with rfl | hpos
  · -- a single `0` is passed over
    exact ⟨0, 0, by simp [fixedPointInteger], by simp, le_refl 0, Nat.zero_le _⟩
  · obtain ⟨c, cs, hcs, hc, hne⟩ := head_toDigits hpos
    obtain ⟨m, z, hrun, hm, hnn, hz⟩ := mantissaDigits_eq hrest (Nat.toDigits 10 q) 0 0 0
      (allDigits_toDigits q) le_rfl (by simpa using hq)
    refine ⟨m, z, ?_, by simpa using hm, hnn, by simpa using hz⟩
    rw [hcs] at hrun ⊢
    simp only [List.cons_append, fixedPointInteger, hne, if_false, hc, if_true] at hrun ⊢
    rw [hrun]

/-- A point and a run of digits: their value is read into the mantissa. -/
theorem fixedPointFraction_digits {rest : List Char} (hrest : NoDigitHead rest) {ds : List Char}
    (hds : AllDigits ds) (hne : ds ≠ []) {m : ℤ} {z : ℕ} (hm : 0 ≤ m)
    (hle : m * 10 ^ (z + ds.length) + Nat.ofDigitChars 10 ds 0 ≤ UPPER_BOUND) :
    ∃ m' z', fixedPointFraction ('.' :: (ds ++ rest)) m z = some (rest, m', z', ds.length) ∧
      m' * 10 ^ z' = m * 10 ^ (z + ds.length) + Nat.ofDigitChars 10 ds 0 ∧ 0 ≤ m' ∧
      z' ≤ z + ds.length := by
  obtain ⟨m', z', hrun, hm', hnn, hz⟩ := mantissaDigits_eq hrest ds m z 0 hds hm hle
  refine ⟨m', z', ?_, hm', hnn, hz⟩
  obtain ⟨c, cs, rfl⟩ := List.exists_cons_of_ne_nil hne
  have hc : c.isDigit := hds c List.mem_cons_self
  simp only [List.cons_append, fixedPointFraction, hc, if_true] at hrun ⊢
  rw [hrun, Nat.zero_add]

/-- The sign of an amount's text is read off before its digits. -/
theorem fixedPointSign_amountText (sign : Bool) (q : ℕ) (rest : List Char) :
    fixedPointSign ((if sign then ['-'] else []) ++ Nat.toDigits 10 q ++ rest) =
      (sign, Nat.toDigits 10 q ++ rest) := by
  cases sign with
  | true => rfl
  | false =>
    obtain ⟨c, cs, hcs⟩ := List.exists_cons_of_ne_nil (Nat.toDigits_ne_nil (n := q) (b := 10))
    have hc : c.isDigit := allDigits_toDigits q c (hcs ▸ List.mem_cons_self)
    simp only [Bool.false_eq_true, if_false, List.nil_append, hcs, List.cons_append]
    exact fixedPointSign_of_isDigit hc _

/-- `ParseFixedPoint` with `d` decimals reads a sign, the text of `q`, a point and seven
decimals of `r` as `(q * 10^7 + r) * 10^(d - 7)` with the sign, for `7 ≤ d ≤ 9`. -/
theorem ParseFixedPoint_amountText (sign : Bool) {q r d : ℕ} (hq : q < 10 ^ 8) (hr : r < 10 ^ 7)
    (hd : 7 ≤ d) (hd' : d ≤ 9)
    (hbound : (((q * 10 ^ 7 + r) * 10 ^ (d - 7) : ℕ) : ℤ) ≤ UPPER_BOUND) :
    ParseFixedPoint ((if sign then ['-'] else []) ++ Nat.toDigits 10 q ++ '.' :: zeroPad 7 r) d =
      some (if sign then -(((q * 10 ^ 7 + r) * 10 ^ (d - 7) : ℕ) : ℤ)
        else (((q * 10 ^ 7 + r) * 10 ^ (d - 7) : ℕ) : ℤ)) := by
  have hR : (zeroPad 7 r).length = 7 := length_zeroPad (by decide) hr
  have hQ : (Nat.toDigits 10 q).length ≤ 8 :=
    (Nat.length_toDigits_le_iff (by decide) (by decide)).mpr hq
  have hv : ((q * 10 ^ 7 + r : ℕ) : ℤ) ≤ UPPER_BOUND := by
    refine le_trans ?_ hbound
    exact_mod_cast Nat.le_mul_of_pos_right _ (by positivity)
  have hqv : (q : ℤ) ≤ UPPER_BOUND := by
    have hle : q ≤ q * 10 ^ 7 + r := Nat.le_add_right_of_le (Nat.le_mul_of_pos_right q (by norm_num))
    exact le_trans (by exact_mod_cast hle) hv
  -- the digits before the point
  obtain ⟨m, z, hint, hm, hnn, hz⟩ :=
    fixedPointInteger_toDigits (noDigitHead_point (zeroPad 7 r)) (q := q) hqv
  -- the seven decimals
  have hfit : m * 10 ^ (z + (zeroPad 7 r).length) + Nat.ofDigitChars 10 (zeroPad 7 r) 0 =
      ((q * 10 ^ 7 + r : ℕ) : ℤ) := by
    rw [hR, ofDigitChars_zeroPad, pow_add, ← mul_assoc, hm]
    push_cast
    ring
  obtain ⟨m', z', hfrac, hm', hnn', hz'⟩ := fixedPointFraction_digits noDigitHead_nil
    (allDigits_zeroPad 7 r) (List.ne_nil_of_length_pos (by omega)) hnn (hfit ▸ hv)
  rw [List.append_nil, hR] at hfrac
  rw [hfit] at hm'
  -- the exponent is the trailing zeros less the seven decimals, plus `d`
  have hscale : scaleMantissa (z' + (d - 7)) (if sign then -m' else m') =
      some ((if sign then -m' else m') * 10 ^ (z' + (d - 7))) := by
    refine scaleMantissa_eq _ _ ?_
    have habs : |if sign then -m' else m'| = m' := by
      cases sign <;> simp [abs_of_nonneg hnn']
    rw [habs, pow_add, ← mul_assoc, hm']
    exact_mod_cast hbound
  have hsign := fixedPointSign_amountText sign q ('.' :: zeroPad 7 r)
  have hexp : (0 : ℤ) - ((7 : ℕ) : ℤ) + (z' : ℤ) + (d : ℤ) = ((z' + (d - 7) : ℕ) : ℤ) := by
    push_cast
    omega
  have hlow : ¬((z' + (d - 7) : ℕ) : ℤ) < 0 := by omega
  have hhigh : ¬((z' + (d - 7) : ℕ) : ℤ) ≥ 18 := by
    rw [hR] at hz'
    omega
  simp only [ParseFixedPoint, hsign, hint, hfrac, fixedPointExponent, Option.bind_eq_bind,
    Option.bind_some, ne_eq, not_true_eq_false, if_false, hexp, hlow, hhigh, Int.toNat_natCast,
    hscale]
  -- the scaled mantissa is the amount, within the bound
  have hval : (if sign then -m' else m') * 10 ^ (z' + (d - 7)) =
      if sign then -(((q * 10 ^ 7 + r) * 10 ^ (d - 7) : ℕ) : ℤ)
      else (((q * 10 ^ 7 + r) * 10 ^ (d - 7) : ℕ) : ℤ) := by
    have hshift : m' * 10 ^ (z' + (d - 7)) = (((q * 10 ^ 7 + r) * 10 ^ (d - 7) : ℕ) : ℤ) := by
      rw [pow_add, ← mul_assoc, hm']
      push_cast
      ring
    cases sign
    · simpa using hshift
    · simp only [if_true, neg_mul, hshift]
  have hin : ¬((if sign then -(((q * 10 ^ 7 + r) * 10 ^ (d - 7) : ℕ) : ℤ)
      else (((q * 10 ^ 7 + r) * 10 ^ (d - 7) : ℕ) : ℤ)) > UPPER_BOUND ∨
      (if sign then -(((q * 10 ^ 7 + r) * 10 ^ (d - 7) : ℕ) : ℤ)
      else (((q * 10 ^ 7 + r) * 10 ^ (d - 7) : ℕ) : ℤ)) < -UPPER_BOUND) := by
    have hnn : (0 : ℤ) ≤ (((q * 10 ^ 7 + r) * 10 ^ (d - 7) : ℕ) : ℤ) := by positivity
    have hub : (0 : ℤ) ≤ UPPER_BOUND := by decide
    cases sign <;> simp only [Bool.false_eq_true, if_true, if_false] <;> omega
  rw [hval, if_neg hin]
  rfl

/-- `ValueFromAmount` writes an amount's magnitude as whole coins and seven decimals. -/
theorem ValueFromAmount_val (n : ℤ) :
    (ValueFromAmount n).val = (if decide (n < 0) then ['-'] else []) ++
      Nat.toDigits 10 (n.natAbs / 10 ^ 7) ++ '.' :: zeroPad 7 (n.natAbs % 10 ^ 7) := by
  have habs : (if decide (n < 0) then -n else n) = (n.natAbs : ℤ) := by
    rw [Int.natCast_natAbs]
    by_cases hn : n < 0
    · simp [hn, abs_of_neg hn]
    · simp [hn, abs_of_nonneg (not_lt.mp hn)]
  have hcoin : COIN = ((10 ^ 7 : ℕ) : ℤ) := rfl
  simp only [ValueFromAmount, habs, hcoin, ← Int.natCast_div, ← Int.natCast_emod, Int.toNat_natCast]

/-- `ParseFixedPoint` with `d` decimals reads the text of `ValueFromAmount n` as
`n * 10^(d - 7)`. -/
theorem ParseFixedPoint_ValueFromAmount {n : ℤ} (hn : |n| < 10 ^ 15) {d : ℕ} (hd : 7 ≤ d)
    (hd' : d ≤ 9) : ParseFixedPoint (ValueFromAmount n).val d = some (n * 10 ^ (d - 7)) := by
  have hlt : n.natAbs < 10 ^ 15 := by
    have : (n.natAbs : ℤ) < 10 ^ 15 := by rwa [Int.natCast_natAbs]
    exact_mod_cast this
  have hq : n.natAbs / 10 ^ 7 < 10 ^ 8 := by omega
  have hsplit : n.natAbs / 10 ^ 7 * 10 ^ 7 + n.natAbs % 10 ^ 7 = n.natAbs := Nat.div_add_mod' _ _
  have hbound : (((n.natAbs / 10 ^ 7 * 10 ^ 7 + n.natAbs % 10 ^ 7) * 10 ^ (d - 7) : ℕ) : ℤ) ≤
      UPPER_BOUND := by
    rw [hsplit]
    have hpow : 10 ^ (d - 7) ≤ 10 ^ 2 := Nat.pow_le_pow_right (by norm_num) (by omega)
    have hmul : n.natAbs * 10 ^ (d - 7) ≤ 10 ^ 15 * 10 ^ 2 := Nat.mul_le_mul hlt.le hpow
    have hub : UPPER_BOUND = 10 ^ 18 - 1 := rfl
    rw [hub]
    push_cast at hmul ⊢
    linarith
  rw [ValueFromAmount_val, ParseFixedPoint_amountText _ hq (Nat.mod_lt _ (by norm_num)) hd hd'
    hbound, hsplit]
  by_cases hneg : n < 0
  · simp only [hneg, decide_true, if_true, Nat.cast_mul, Nat.cast_pow, Nat.cast_ofNat]
    rw [Int.ofNat_natAbs_of_nonpos hneg.le, neg_mul, neg_neg]
  · simp only [hneg, decide_false, Bool.false_eq_true, if_false, Nat.cast_mul, Nat.cast_pow,
      Nat.cast_ofNat]
    rw [Int.natAbs_of_nonneg (not_lt.mp hneg)]

/-- Both `AmountFromValue`s on the value `ValueFromAmount n`: `n * 10^(d - 7)` when it is in
`MoneyRange`. -/
theorem AmountFromValueWith_ValueFromAmount {d : ℕ} (hd : 7 ≤ d) (hd' : d ≤ 9)
    (fail : String → Checked String ℤ) {n : ℤ} (hn : |n| < 10 ^ 15) :
    AmountFromValueWith d fail (ValueFromAmount n) =
      if MoneyRange (n * 10 ^ (d - 7)) then .ok (n * 10 ^ (d - 7))
      else fail "Amount out of range" := by
  have htyp : (ValueFromAmount n).typ = .VNUM := rfl
  cases hrange : MoneyRange (n * 10 ^ (d - 7)) <;>
    simp [AmountFromValueWith, htyp, ParseFixedPoint_ValueFromAmount hn hd hd', hrange, pure,
      Except.pure]

end FixedPoint

/-! ## `ParseMoney` on the text of `FormatMoney` -/

section Money

theorem isspace_of_isDigit {c : Char} (h : c.isDigit) : isspace c = false := by
  cases hs : isspace c
  · rfl
  · simp only [isspace, Bool.or_eq_true, beq_iff_eq] at hs
    rcases hs with ((((rfl | rfl) | rfl) | rfl) | rfl) | rfl <;> exact absurd h (by decide)

theorem ne_point_of_isDigit {c : Char} (h : c.isDigit) : c ≠ '.' := by
  rintro rfl
  exact absurd h (by decide)

/-- `FormatMoneyTrim` reads nothing to the right of its position. -/
theorem FormatMoneyTrim_append (A B : List Char) :
    ∀ i t, i < A.length → FormatMoneyTrim (A ++ B) i t = FormatMoneyTrim A i t
  | 0, _, _ => rfl
  | 1, _, _ => rfl
  | i + 2, t, h => by
    have h₁ : (A ++ B).getD (i + 2) ' ' = A.getD (i + 2) ' ' := List.getD_append _ _ _ _ h
    have h₂ : (A ++ B).getD i ' ' = A.getD i ' ' := List.getD_append _ _ _ _ (by omega)
    rw [FormatMoneyTrim, FormatMoneyTrim, h₁, h₂,
      FormatMoneyTrim_append A B (i + 1) (t + 1) (by omega)]

/-- On a text `P.KM` with two decimals `K` and more decimals `M`, the loop of `FormatMoney`
started at the last place counts the trailing zeros of `M`: the point stops it before `K`. -/
theorem FormatMoneyTrim_decimals {P K : List Char} (hK : K.length = 2) (hKd : AllDigits K)
    {M : List Char} (hM : AllDigits M) (t : ℕ) :
    FormatMoneyTrim (P ++ '.' :: (K ++ M)) (P.length + 2 + M.length) t =
      t + (M.rtakeWhile (· == '0')).length := by
  induction M using List.reverseRecOn generalizing t with
  | nil =>
    have hpt : (P ++ '.' :: (K ++ [])).getD P.length ' ' = '.' := by simp
    rw [List.length_nil, Nat.add_zero, FormatMoneyTrim, hpt]
    simp
  | append_singleton M x ih =>
    have hMd : AllDigits M := fun c hc => hM c (List.mem_append_left _ hc)
    have hlast : (P ++ '.' :: (K ++ (M ++ [x]))).getD (P.length + 1 + M.length + 2) ' ' = x := by
      rw [show P.length + 1 + M.length + 2 = P.length + ((M.length + 2) + 1) by omega,
        List.getD_eq_getElem?_getD, List.getElem?_append_right (by omega), Nat.add_sub_cancel_left,
        List.getElem?_cons_succ, List.getElem?_append_right (by omega), hK, Nat.add_sub_cancel,
        List.getElem?_concat_length]
      rfl
    -- two places to the left of a decimal of `M` stands a decimal of `K` or `M`
    have hprev : ((P ++ '.' :: (K ++ (M ++ [x]))).getD (P.length + 1 + M.length) ' ').isDigit := by
      rw [show P.length + 1 + M.length = P.length + (M.length + 1) by omega,
        List.getD_eq_getElem?_getD, List.getElem?_append_right (by omega), Nat.add_sub_cancel_left,
        List.getElem?_cons_succ, ← List.append_assoc, List.getElem?_append_left (by simp; omega),
        List.getElem?_eq_getElem (by simp; omega), Option.getD_some]
      exact AllDigits.append hKd hMd _ (List.getElem_mem _)
    have hshape : P ++ '.' :: (K ++ (M ++ [x])) = (P ++ '.' :: (K ++ M)) ++ [x] := by simp
    rw [List.length_append, List.length_singleton,
      show P.length + 2 + (M.length + 1) = P.length + 1 + M.length + 2 by omega, FormatMoneyTrim,
      hlast]
    by_cases hx : x = '0'
    · rw [if_pos ⟨hx, hprev⟩, hshape, FormatMoneyTrim_append _ _ _ _ (by simp; omega),
        show P.length + 1 + M.length + 1 = P.length + 2 + M.length by omega, ih hMd,
        List.rtakeWhile_concat_pos _ _ _ (by simp [hx]), List.length_append, List.length_singleton]
      omega
    · rw [if_neg (fun h => hx h.1), List.rtakeWhile_concat_neg _ _ _ (by simp [hx])]
      rfl

/-- The decimals loop reads a run of at most `e + 1` digits, the first worth `10^e`. -/
theorem ParseMoneyUnits_digits {D : List Char} (hD : AllDigits D) :
    ∀ {e : ℕ} (acc : ℤ), D.length ≤ e + 1 →
      ParseMoneyUnits D (10 ^ e) acc =
        (acc + Nat.ofDigitChars 10 D 0 * 10 ^ (e + 1 - D.length), []) := by
  induction D with
  | nil =>
    intro e acc _
    simp [ParseMoneyUnits]
  | cons c D ih =>
    intro e acc hlen
    have hc : c.isDigit := hD c List.mem_cons_self
    have hDd : AllDigits D := fun d hd => hD d (List.mem_cons_of_mem c hd)
    have hstep : ParseMoneyUnits (c :: D) (10 ^ e) acc =
        ParseMoneyUnits D (10 ^ e / 10) (acc + 10 ^ e * digitValue c) := by
      rw [ParseMoneyUnits, if_pos ⟨hc, by positivity⟩]
    rw [hstep, ofDigitChars_cons]
    cases e with
    | zero =>
      -- a single decimal, worth one unit
      have hnil : D = [] := List.eq_nil_of_length_eq_zero (by simp only [List.length_cons] at hlen; omega)
      subst hnil
      simp [ParseMoneyUnits]
    | succ e =>
      have hdiv : (10 : ℤ) ^ (e + 1) / 10 = 10 ^ e := by
        rw [pow_succ, Int.mul_ediv_cancel _ (by norm_num)]
      simp only [List.length_cons] at hlen
      obtain ⟨k, hk⟩ : ∃ k, e + 1 = D.length + k := ⟨e + 1 - D.length, by omega⟩
      have h₁ : e + 1 + 1 - (c :: D).length = k := by simp only [List.length_cons]; omega
      have h₂ : e + 1 - D.length = k := by omega
      rw [hdiv, ih hDd _ (by omega), h₁, h₂, hk, pow_add]
      congr 1
      push_cast
      ring

/-- The main loop of `ParseMoney` on `Q.D`: the digits of `Q` go to `strWhole`, and the
decimals loop reads `D`. -/
theorem ParseMoneyWhole_point {Q : List Char} (hQ : AllDigits Q) (D strWhole : List Char) :
    ParseMoneyWhole (Q ++ '.' :: D) strWhole =
      some (strWhole ++ Q, ParseMoneyUnits D (CENT * 10) 0) := by
  induction Q generalizing strWhole with
  | nil => simp [ParseMoneyWhole]
  | cons c Q ih =>
    have hc : c.isDigit := hQ c List.mem_cons_self
    have hsp : ¬isspace c := by rw [isspace_of_isDigit hc]; exact Bool.false_ne_true
    rw [List.cons_append, ParseMoneyWhole, if_neg (ne_point_of_isDigit hc), if_neg hsp,
      if_neg (by simp [hc]), ih (fun d hd => hQ d (List.mem_cons_of_mem c hd)), List.append_assoc,
      List.singleton_append]

theorem ne_nul_of_isDigit {c : Char} (h : c.isDigit) : c ≠ '\x00' := by
  rintro rfl
  exact absurd h (by decide)

/-- `ParseMoney` reads `q.D`, whole coins of at most ten digits and at most seven decimals,
as an amount. -/
theorem ParseMoney_amountText {q : ℕ} (hq : q < 10 ^ 10) {D : List Char} (hD : AllDigits D)
    (hlen : D.length ≤ 7) :
    ParseMoney (Nat.toDigits 10 q ++ '.' :: D) =
      some (q * COIN + Nat.ofDigitChars 10 D 0 * 10 ^ (7 - D.length)) := by
  have hQ := allDigits_toDigits q
  -- no NUL ends the text early, and no space leads it
  have hnul : (Nat.toDigits 10 q ++ '.' :: D).takeWhile (· ≠ '\x00') =
      Nat.toDigits 10 q ++ '.' :: D := by
    rw [List.takeWhile_eq_self_iff]
    intro c hc
    rcases List.mem_append.mp hc with hc | hc
    · simpa using ne_nul_of_isDigit (hQ c hc)
    · rcases List.mem_cons.mp hc with rfl | hc
      · decide
      · simpa using ne_nul_of_isDigit (hD c hc)
  have hspace : (Nat.toDigits 10 q ++ '.' :: D).dropWhile isspace =
      Nat.toDigits 10 q ++ '.' :: D := by
    cases hcs : Nat.toDigits 10 q with
    | nil => exact absurd hcs (Nat.toDigits_ne_nil)
    | cons c cs =>
      have hc : c.isDigit := hQ c (by rw [hcs]; exact List.mem_cons_self)
      rw [List.cons_append, List.dropWhile_cons_of_neg (by simp [isspace_of_isDigit hc])]
  have hmult : CENT * 10 = 10 ^ 6 := rfl
  have hwhole : (Nat.toDigits 10 q).length ≤ 10 := (Nat.length_toDigits_le_iff (by decide)
    (by decide)).mpr hq
  have hunits : Nat.ofDigitChars 10 D 0 * 10 ^ (7 - D.length) < 10 ^ 7 := by
    calc Nat.ofDigitChars 10 D 0 * 10 ^ (7 - D.length)
        < 10 ^ D.length * 10 ^ (7 - D.length) :=
          Nat.mul_lt_mul_of_pos_right (ofDigitChars_lt hD) (by positivity)
      _ = 10 ^ 7 := by rw [← pow_add, Nat.add_sub_cancel' hlen]
  have hatoi : atoi64 (Nat.toDigits 10 q) = q := by
    rw [atoi64, List.takeWhile_eq_self_iff.mpr hQ, Nat.ofDigitChars_ten_toDigits]
  have hcoin : COIN = 10 ^ 7 := rfl
  have hin : ¬((Nat.ofDigitChars 10 D 0 : ℤ) * 10 ^ (7 - D.length) < 0 ∨
      (Nat.ofDigitChars 10 D 0 : ℤ) * 10 ^ (7 - D.length) > COIN) := by
    have hcast : (Nat.ofDigitChars 10 D 0 : ℤ) * 10 ^ (7 - D.length) < 10 ^ 7 := by
      exact_mod_cast hunits
    have hnonneg : 0 ≤ (Nat.ofDigitChars 10 D 0 : ℤ) * 10 ^ (7 - D.length) := by positivity
    rw [hcoin]
    omega
  simp only [ParseMoney, hnul, hspace, ParseMoneyWhole_point hQ, hmult,
    ParseMoneyUnits_digits hD 0 hlen, List.nil_append, List.all_nil, Bool.not_true,
    Option.bind_eq_bind, Option.bind_some, Bool.false_eq_true, if_false, Nat.reduceAdd, zero_add,
    gt_iff_lt, not_lt.mpr hwhole, if_neg hin, hatoi]
  rfl

/-- `FormatMoney` of an amount that is not negative: the whole coins, a point, and the
seven decimals less the trailing zeros past the second, with nothing else lost. -/
theorem FormatMoney_of_nonneg {n : ℤ} (hn : 0 ≤ n) :
    ∃ D m, FormatMoney n = Nat.toDigits 10 (n.toNat / 10 ^ 7) ++ '.' :: D ∧ AllDigits D ∧
      D ++ List.replicate m '0' = zeroPad 7 (n.toNat % 10 ^ 7) := by
  have habs : (if n > 0 then n else -n) = (n.toNat : ℤ) := by
    split <;> omega
  have hcoin : COIN = ((10 ^ 7 : ℕ) : ℤ) := rfl
  simp only [FormatMoney, habs, hcoin, ← Int.natCast_div, ← Int.natCast_emod, Int.toNat_natCast,
    not_lt.mpr hn, if_false]
  set Q := Nat.toDigits 10 (n.toNat / 10 ^ 7)
  set R := zeroPad 7 (n.toNat % 10 ^ 7)
  have hR : R.length = 7 := length_zeroPad (by norm_num) (Nat.mod_lt _ (by norm_num))
  have hRd : AllDigits R := allDigits_zeroPad _ _
  -- the first two decimals stay; of the other five, the trailing zeros `Z` go
  set Z := (R.drop 2).rtakeWhile (· == '0')
  set D := R.take 2 ++ (R.drop 2).rdropWhile (· == '0')
  have hDd : AllDigits D := AllDigits.append (fun c hc => hRd c (List.mem_of_mem_take hc))
    (fun c hc => hRd c (List.mem_of_mem_drop ((List.rdropWhile_prefix _ _).subset hc)))
  have hDZ : D ++ Z = R := by
    rw [List.append_assoc, List.rdropWhile_append_rtakeWhile, List.take_append_drop]
  have hZ : Z = List.replicate Z.length '0' :=
    List.eq_replicate_iff.mpr ⟨rfl, fun c hc => by simpa using List.mem_rtakeWhile_imp hc⟩
  have htrim : FormatMoneyTrim (Q ++ '.' :: R) ((Q ++ '.' :: R).length - 1) 0 = Z.length := by
    have h := FormatMoneyTrim_decimals (P := Q) (K := R.take 2) (by simp [hR])
      (fun c hc => hRd c (List.mem_of_mem_take hc)) (M := R.drop 2)
      (fun c hc => hRd c (List.mem_of_mem_drop hc)) 0
    rw [List.take_append_drop] at h
    have hpos : (Q ++ '.' :: R).length - 1 = Q.length + 2 + (R.drop 2).length := by
      simp only [List.length_append, List.length_cons, List.length_drop, hR]
      omega
    rw [hpos, h, Nat.zero_add]
  clear_value D Z
  have hsplit : Q ++ '.' :: R = (Q ++ '.' :: D) ++ Z := by
    rw [← hDZ, List.append_assoc, List.cons_append]
  refine ⟨D, Z.length, ?_, hDd, ?_⟩
  · rw [htrim, hsplit, List.length_append, Nat.add_sub_cancel, List.take_left]
  · rw [← hZ, hDZ]

/-- `ParseMoney` reads back the text `FormatMoney` writes for every amount from zero to
`10^17`, past `MAX_MONEY`, while the whole coins keep to ten digits. -/
theorem ParseMoney_FormatMoney {n : ℤ} (hn : 0 ≤ n) (hmax : n < 10 ^ 17) :
    ParseMoney (FormatMoney n) = some n := by
  obtain ⟨D, m, htext, hD, hpad⟩ := FormatMoney_of_nonneg hn
  have hlen : D.length + m = 7 := by
    have h := congrArg List.length hpad
    rwa [List.length_append, List.length_replicate,
      length_zeroPad (by norm_num) (Nat.mod_lt _ (by norm_num))] at h
  have hq : n.toNat / 10 ^ 7 < 10 ^ 10 := by omega
  -- the decimals left, padded with the zeros trimmed, are the seven of `%07d`
  have hval : Nat.ofDigitChars 10 D 0 * 10 ^ (7 - D.length) = n.toNat % 10 ^ 7 := by
    have h := congrArg (Nat.ofDigitChars 10 · 0) hpad
    simp only [ofDigitChars_append_zeros, ofDigitChars_zeroPad] at h
    rwa [show 7 - D.length = m by omega]
  have hval' : (Nat.ofDigitChars 10 D 0 : ℤ) * 10 ^ (7 - D.length) = ((n.toNat % 10 ^ 7 : ℕ) : ℤ) := by
    exact_mod_cast hval
  have hcoin : COIN = 10 ^ 7 := rfl
  rw [htext, ParseMoney_amountText hq hD (by omega), hval', hcoin]
  congr 1
  omega

theorem ParseMoney_FormatMoney_MAX_MONEY :
    0 ≤ MAX_MONEY ∧ MAX_MONEY < 10 ^ 17 ∧ ParseMoney (FormatMoney MAX_MONEY) = some MAX_MONEY :=
  ⟨by decide, by decide, ParseMoney_FormatMoney (by decide) (by decide)⟩

end Money

/-! ## The amount parsers on the texts the node writes -/

section AmountText

theorem abs_lt_of_le_MAX_MONEY {n : ℤ} (hn : |n| ≤ MAX_MONEY) : |n| < 10 ^ 15 := by
  have hmax : MAX_MONEY = 840000000000000 := rfl
  rw [hmax] at hn
  linarith

/-- The RPC `AmountFromValue` reads the text `ValueFromAmount n` writes as `n` itself: the
amount when it is in `MoneyRange`, and an out-of-range rejection for a negative one. -/
theorem AmountFromValue_ValueFromAmount {n : ℤ} (hn : |n| ≤ MAX_MONEY) :
    AmountFromValue (ValueFromAmount n) =
      if MoneyRange n then .ok n else Checked.reject "Amount out of range" := by
  have h := AmountFromValueWith_ValueFromAmount (d := 7) le_rfl (by norm_num) Checked.reject
    (abs_lt_of_le_MAX_MONEY hn)
  simpa [AmountFromValue] using h

theorem AmountFromValue_ValueFromAmount_negative_coin :
    |-COIN| ≤ MAX_MONEY ∧ AmountFromValue (ValueFromAmount (-COIN)) =
      if MoneyRange (-COIN) then .ok (-COIN) else Checked.reject "Amount out of range" :=
  ⟨by norm_num [COIN, MAX_MONEY], AmountFromValue_ValueFromAmount (by norm_num [COIN, MAX_MONEY])⟩

namespace CascoinTx

/-- `cascoin-tx` reads the amount text of a `prevtxs` entry with eight decimals, ten times
the amount `ValueFromAmount` wrote, failing past a tenth of `MAX_MONEY`; the same tool
reads an output's amount with `ParseMoney`, as the amount itself. -/
theorem AmountFromValue_reads_tenfold {n : ℤ} (hn : 0 ≤ n) (hmax : n ≤ MAX_MONEY) :
    AmountFromValue (ValueFromAmount n) =
        (if 10 * n ≤ MAX_MONEY then .ok (10 * n) else Checked.raise "Amount out of range") ∧
      ExtractAndValidateValue (FormatMoney n) = .ok n := by
  have habs : |n| ≤ MAX_MONEY := by rwa [abs_of_nonneg hn]
  have hM : MAX_MONEY = 840000000000000 := rfl
  constructor
  · have h := AmountFromValueWith_ValueFromAmount (d := 8) (by norm_num) (by norm_num)
      Checked.raise (abs_lt_of_le_MAX_MONEY habs)
    have hrange : MoneyRange (n * 10) = decide (10 * n ≤ MAX_MONEY) := by
      simp only [MoneyRange, decide_eq_decide]
      omega
    simp only [Nat.cast_ofNat, Nat.reduceSub, pow_one, hrange, decide_eq_true_eq] at h
    rw [AmountFromValue, h, mul_comm]
  · have hparse : ParseMoney (FormatMoney n) = some n := ParseMoney_FormatMoney hn (by omega)
    rw [ExtractAndValidateValue, hparse]

theorem AmountFromValue_reads_tenfold_coin :
    0 ≤ COIN ∧ COIN ≤ MAX_MONEY ∧
      AmountFromValue (ValueFromAmount COIN) =
        (if 10 * COIN ≤ MAX_MONEY then .ok (10 * COIN) else Checked.raise "Amount out of range") ∧
      ExtractAndValidateValue (FormatMoney COIN) = .ok COIN :=
  ⟨by decide, by decide, AmountFromValue_reads_tenfold (by decide) (by decide)⟩

end CascoinTx

end AmountText

end Cascoin
