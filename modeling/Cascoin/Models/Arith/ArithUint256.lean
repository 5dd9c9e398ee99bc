import Cascoin.Models.Arith.BaseUint
import Cascoin.Models.Consensus.Pow

/-!
# `arith_uint256`: division and the compact encoding on the limbs

`operator/=` is a long division on the limbs. The divisor is shifted up to the top bit of
the dividend; then, from that bit down to bit zero, it is subtracted where it fits, the bit
of the quotient set, and the divisor shifted back one bit. `DivInv` is what holds before the
pass for a bit, `DivInv.next` carries it over one pass, and `divLoop_eq` runs it to the
quotient, so that `div_eq` is `arithDiv` on the numbers: the division the retarget of
`Pow.lean` computes with.

`arith_uint256::SetCompact` and `GetCompact` on `base_uint 8` are the ones of `Compact.lean`
on the number (`SetCompact_eq`, `GetCompact_eq`).
-/

namespace Cascoin

namespace base_uint

variable {WIDTH : ℕ}

theorem length_setBit_pn (a : base_uint WIDTH) (shift : ℕ) :
    (a.pn.modify (shift / 32) (· ||| 1 <<< (shift &&& 31).toUInt32)).length = WIDTH := by
  rw [List.length_modify, a.length_pn]

/-- `pn[shift / 32] |= (1 << (shift & 31))`: bit `shift` of the quotient. -/
def setBit (a : base_uint WIDTH) (shift : ℕ) : base_uint WIDTH :=
  ⟨a.pn.modify (shift / 32) (· ||| 1 <<< (shift &&& 31).toUInt32), length_setBit_pn a shift⟩

theorem toNat_setBit (a : base_uint WIDTH) {shift : ℕ} (hs : shift < 32 * WIDTH) :
    (setBit a shift).toNat = a.toNat ||| 2 ^ shift := by
  have hbit : (shift &&& 31).toUInt32 = (shift % 32).toUInt32 := by
    rw [show (31 : ℕ) = 2 ^ 5 - 1 from rfl, Nat.and_two_pow_sub_one_eq_mod]
  apply Nat.eq_of_testBit_eq
  intro j
  rw [Nat.testBit_or, Nat.testBit_two_pow, toNat, toNat, setBit, testBit_value, testBit_value]
  by_cases hj : j / 32 < WIDTH
  · rw [getD_modify_or _ _ _ (by rw [a.length_pn]; exact hj), hbit]
    split_ifs with hij
    · -- the limb of the new bit: bit `j` is set there exactly when it is bit `shift`
      rw [UInt32.toNat_or, Nat.testBit_or, toNat_one_shiftLeft (Nat.mod_lt _ (by norm_num)),
        Nat.testBit_two_pow]
      congr 1
      simp only [decide_eq_decide]
      omega
    · have hne : shift ≠ j := fun h => hij (h ▸ rfl)
      simp [hne]
  · -- above the top limb both sides are clear
    have hne : shift ≠ j := by omega
    rw [List.getD_eq_default _ _ (by rw [List.length_modify, a.length_pn]; omega),
      List.getD_eq_default _ _ (by rw [a.length_pn]; omega)]
    simp [hne]

/-- The loop body of `operator/=` at bit `shift`, on the remainder and the quotient:
`if (num >= div) { num -= div; pn[shift / 32] |= (1 << (shift & 31)); }`. -/
def divPass (num div quot : base_uint WIDTH) (shift : ℕ) : base_uint WIDTH × base_uint WIDTH :=
  if CompareTo num div ≥ 0 then (sub num div, setBit quot shift) else (num, quot)

/-- `while (shift >= 0) { ...; div >>= 1; shift--; }` with `count` passes left, the first at
bit `count - 1`. -/
def divLoop (num div quot : base_uint WIDTH) : ℕ → base_uint WIDTH
  | 0 => quot
  | shift + 1 =>
    let next := divPass num div quot shift
    divLoop next.1 (shiftRight div 1) next.2 shift

/-- `operator/=`: a zero divisor throws, a divisor with more bits gives zero, and otherwise
the divisor is aligned with the top bit of the dividend and the loop runs down from there. -/
def div {ε : Type} (a b : base_uint WIDTH) : Checked ε (base_uint WIDTH) :=
  let num_bits := bits a
  let div_bits := bits b
  if div_bits = 0 then Checked.raise "Division by zero"
  else if div_bits > num_bits then return zero
  else
    let shift := num_bits - div_bits
    return divLoop a (shiftLeft b shift) zero (shift + 1)

/-- `operator>=`, `CompareTo(b) >= 0`, is the order of the numbers. -/
theorem CompareTo_nonneg_iff (a b : base_uint WIDTH) : CompareTo a b ≥ 0 ↔ b.toNat ≤ a.toNat := by
  rw [CompareTo, compareFrom_eq _ _ (by rw [List.length_reverse, List.length_reverse, a.length_pn,
    b.length_pn]), List.reverse_reverse, List.reverse_reverse]
  show (if a.toNat < b.toNat then -1 else if b.toNat < a.toNat then 1 else 0 : ℤ) ≥ 0 ↔ _
  split_ifs with h1 h2 <;> omega

/-- Setting a bit below which the number is clear adds it. -/
theorem or_two_pow_of_dvd {q p : ℕ} (h : 2 ^ (p + 1) ∣ q) : q ||| 2 ^ p = q + 2 ^ p := by
  obtain ⟨m, rfl⟩ := h
  rw [Nat.two_pow_add_eq_or_of_lt (Nat.pow_lt_pow_right (by norm_num) (Nat.lt_succ_self p))]

section Division

variable {N D : ℕ}

/-- Before the pass for bit `p` of the quotient: the divisor is `D * 2 ^ p`, the quotient so
far has no bit below `p + 1` and with the remainder makes up the dividend `N`, and the
remainder is below twice the divisor. -/
structure DivInv (N D p : ℕ) (num div quot : base_uint WIDTH) : Prop where
  divisor_eq : div.toNat = D * 2 ^ p
  split : N = quot.toNat * D + num.toNat
  num_lt : num.toNat < D * 2 ^ (p + 1)
  dvd : 2 ^ (p + 1) ∣ quot.toNat
  lt_width : p < 32 * WIDTH

variable {p : ℕ} {num div quot : base_uint WIDTH}

/-- The divisor fits: it is subtracted and bit `p` of the quotient set. -/
theorem DivInv.restore (h : DivInv N D p num div quot) (hge : div.toNat ≤ num.toNat) :
    N = (setBit quot p).toNat * D + (sub num div).toNat ∧
      (sub num div).toNat < D * 2 ^ p ∧ 2 ^ p ∣ (setBit quot p).toNat := by
  have hq : (setBit quot p).toNat = quot.toNat + 2 ^ p := by
    rw [toNat_setBit quot h.lt_width, or_two_pow_of_dvd h.dvd]
  have hdvd : 2 ^ p ∣ quot.toNat := (Nat.pow_dvd_pow 2 (Nat.le_succ p)).trans h.dvd
  have hlt := h.num_lt
  rw [pow_succ, ← Nat.mul_assoc] at hlt
  rw [hq, toNat_sub_of_le hge, h.divisor_eq]
  rw [h.divisor_eq] at hge
  refine ⟨?_, by omega, Nat.dvd_add hdvd (Nat.dvd_refl _)⟩
  rw [h.split, Nat.add_mul, Nat.mul_comm (2 ^ p) D]
  omega

/-- The divisor does not fit: the pass leaves the remainder and the quotient. -/
theorem DivInv.keep (h : DivInv N D p num div quot) (hlt : num.toNat < div.toNat) :
    N = quot.toNat * D + num.toNat ∧ num.toNat < D * 2 ^ p ∧ 2 ^ p ∣ quot.toNat := by
  rw [h.divisor_eq] at hlt
  exact ⟨h.split, hlt, (Nat.pow_dvd_pow 2 (Nat.le_succ p)).trans h.dvd⟩

/-- After the pass for bit `p`: the dividend is split again, with the remainder below the
divisor and the quotient clear below bit `p`. -/
theorem DivInv.pass (h : DivInv N D p num div quot) :
    N = (divPass num div quot p).2.toNat * D + (divPass num div quot p).1.toNat ∧
      (divPass num div quot p).1.toNat < D * 2 ^ p ∧ 2 ^ p ∣ (divPass num div quot p).2.toNat := by
  unfold divPass
  by_cases hge : div.toNat ≤ num.toNat
  · rw [if_pos ((CompareTo_nonneg_iff num div).mpr hge)]
    exact h.restore hge
  · rw [if_neg (fun h' => hge ((CompareTo_nonneg_iff num div).mp h'))]
    exact h.keep (Nat.lt_of_not_le hge)

/-- One pass and `div >>= 1` take the invariant from bit `p + 1` to bit `p`. -/
theorem DivInv.next (h : DivInv N D (p + 1) num div quot) :
    DivInv N D p (divPass num div quot (p + 1)).1 (shiftRight div 1)
      (divPass num div quot (p + 1)).2 := by
  obtain ⟨hsplit, hlt, hdvd⟩ := h.pass
  refine ⟨?_, hsplit, hlt, hdvd, by have := h.lt_width; omega⟩
  rw [toNat_shiftRight, h.divisor_eq, pow_succ, ← Nat.mul_assoc, pow_one, Nat.mul_div_cancel _ two_pos]

/-- From the invariant at bit `p`, the remaining `p + 1` passes leave the quotient. -/
theorem divLoop_eq : ∀ {p : ℕ} {num div quot : base_uint WIDTH}, DivInv N D p num div quot →
    (divLoop num div quot (p + 1)).toNat = N / D := by
  intro p
  induction p with
  | zero =>
    intro num div quot h
    obtain ⟨hsplit, hlt, -⟩ := h.pass
    rw [pow_zero, Nat.mul_one] at hlt
    rw [divLoop, divLoop, hsplit, Nat.mul_comm, Nat.add_comm, Nat.add_mul_div_left _ _ (by omega),
      Nat.div_eq_of_lt hlt, Nat.zero_add]
  | succ p ih =>
    intro num div quot h
    rw [divLoop]
    exact ih h.next

end Division

/-- The divisor shifted to the top bit of the dividend starts the loop. -/
theorem divInv_start {a b : base_uint WIDTH} (hb : b.toNat ≠ 0)
    (hle : b.toNat.size ≤ a.toNat.size) :
    DivInv a.toNat b.toNat (a.toNat.size - b.toNat.size) a
      (shiftLeft b (a.toNat.size - b.toNat.size)) zero := by
  have hDpos : 0 < b.toNat.size := Nat.size_pos.mpr (Nat.pos_of_ne_zero hb)
  have hD : 2 ^ (b.toNat.size - 1) ≤ b.toNat := Nat.lt_size.mp (by omega)
  have hN : a.toNat < 2 ^ a.toNat.size := Nat.lt_size_self _
  have hNw : a.toNat.size ≤ 32 * WIDTH := Nat.size_le.mpr (toNat_lt a)
  -- the shifted divisor stays below the top of the dividend's bit length
  have hfit : b.toNat * 2 ^ (a.toNat.size - b.toNat.size) < 2 ^ (32 * WIDTH) :=
    calc b.toNat * 2 ^ (a.toNat.size - b.toNat.size)
        < 2 ^ b.toNat.size * 2 ^ (a.toNat.size - b.toNat.size) :=
          Nat.mul_lt_mul_of_pos_right (Nat.lt_size_self _) (Nat.two_pow_pos _)
      _ = 2 ^ a.toNat.size := by rw [← pow_add, Nat.add_sub_cancel' hle]
      _ ≤ 2 ^ (32 * WIDTH) := Nat.pow_le_pow_right (by norm_num) hNw
  refine ⟨?_, by rw [toNat_zero, Nat.zero_mul, Nat.zero_add], ?_, ?_, by omega⟩
  · rw [toNat_shiftLeft, Nat.mod_eq_of_lt hfit]
  · calc a.toNat < 2 ^ a.toNat.size := hN
      _ = 2 ^ (b.toNat.size - 1) * 2 ^ (a.toNat.size - b.toNat.size + 1) := by
        rw [← pow_add]
        congr 1
        omega
      _ ≤ b.toNat * 2 ^ (a.toNat.size - b.toNat.size + 1) := Nat.mul_le_mul_right _ hD
  · rw [toNat_zero]
    exact Nat.dvd_zero _

/-- `operator/=` throws on a zero divisor and otherwise gives the quotient: on the numbers it
is `arithDiv`. -/
theorem div_eq {ε : Type} (a b : base_uint WIDTH) :
    toNat <$> (div a b : Checked ε (base_uint WIDTH)) = arithDiv a.toNat b.toNat := by
  unfold div arithDiv
  simp only [bits_eq_size, Nat.size_eq_zero]
  split_ifs with h0 hgt
  · rfl
  · -- a divisor with more bits is larger than the dividend
    have hlt : a.toNat < b.toNat :=
      Nat.lt_of_not_le (fun hle => Nat.not_le_of_gt hgt (Nat.size_le_size hle))
    show Except.ok (toNat zero) = Except.ok (a.toNat / b.toNat)
    rw [toNat_zero, Nat.div_eq_of_lt hlt]
  · show Except.ok (toNat _) = Except.ok (a.toNat / b.toNat)
    rw [divLoop_eq (divInv_start h0 (Nat.le_of_not_gt hgt))]

/-! ## Words of the compact encoding -/

/-- `x != 0` on a word reads its number. -/
theorem bne_zero_eq_toNat (x : UInt32) : (x != 0) = (x.toNat != 0) := by
  rw [Bool.eq_iff_iff, bne_iff_ne, bne_iff_ne, ne_eq, ne_eq, ← UInt32.toNat_inj, UInt32.toNat_zero]

theorem decide_gt_toNat (x y : UInt32) : decide (x > y) = decide (x.toNat > y.toNat) :=
  decide_eq_decide.mpr UInt32.lt_iff_toNat_lt

theorem sign_bit_eq (c : UInt32) : (c &&& 0x00800000 != 0) = (c.toNat &&& 0x00800000 != 0) := by
  rw [bne_zero_eq_toNat, UInt32.toNat_and]
  rfl

/-- A 32-bit number has no bit from 23 up exactly when it is below `2 ^ 23`. -/
theorem high_bits_eq_zero_iff {y : ℕ} (hy : y < 2 ^ 32) :
    y &&& (2 ^ 32 - 1 - 8388607) = 0 ↔ y < 2 ^ 23 := by
  have hK : ∀ i, (2 ^ 32 - 1 - 8388607 : ℕ).testBit i = decide (23 ≤ i ∧ i < 32) := by
    intro i
    rw [show (2 ^ 32 - 1 - 8388607 : ℕ) = 2 ^ 23 * (2 ^ 9 - 1) by norm_num, Nat.testBit_two_pow_mul,
      Nat.testBit_two_pow_sub_one]
    by_cases h : 23 ≤ i
    · simp only [h, decide_true, Bool.true_and, true_and, decide_eq_decide]
      omega
    · simp [h]
  constructor
  · intro h
    by_contra hge
    -- the top bit of `y` lies in the cleared range
    have hy0 : y ≠ 0 := by omega
    have hlog : 23 ≤ y.log2 := (Nat.le_log2 hy0).mpr (by omega)
    have hlog' : y.log2 < 32 := (Nat.log2_lt hy0).mpr hy
    have hbit := congrArg (Nat.testBit · y.log2) h
    simp only [Nat.testBit_and, hK, Nat.zero_testBit, Nat.testBit_log2 hy0] at hbit
    simp only [Bool.true_and, decide_eq_false_iff_not, not_and, not_lt] at hbit
    omega
  · intro h
    apply Nat.eq_of_testBit_eq
    intro i
    rw [Nat.testBit_and, hK, Nat.zero_testBit]
    by_cases hi : 23 ≤ i
    · rw [Nat.testBit_eq_false_of_lt (lt_of_lt_of_le h (Nat.pow_le_pow_right two_pos hi))]
      rfl
    · simp [hi]

/-- `(nCompact & ~0x007fffff) == 0`: the word is a bare mantissa. -/
theorem and_not_mantissa_eq_zero (x : UInt32) :
    (x &&& ~~~0x007fffff == 0) = decide (x.toNat < 2 ^ 23) := by
  rw [Bool.eq_iff_iff, beq_iff_eq, decide_eq_true_iff, ← UInt32.toNat_inj, UInt32.toNat_and,
    UInt32.toNat_not, UInt32.toNat_zero]
  exact high_bits_eq_zero_iff (UInt32.toNat_lt x)

end base_uint

namespace arith_uint256

open base_uint

/-- `arith_uint256::SetCompact(nCompact, &fNegative, &fOverflow)` on the limbs: `*this = nWord`
and, for more than three bytes, `*this <<= 8 * (nSize - 3)`. -/
def SetCompact (nCompact : UInt32) : base_uint 8 × Bool × Bool :=
  let nSize := nCompact.toNat >>> 24
  let nWord : UInt32 := nCompact &&& 0x007fffff
  let nWord := if nSize ≤ 3 then nWord >>> (8 * (3 - nSize)).toUInt32 else nWord
  let value : base_uint 8 :=
    if nSize ≤ 3 then ofUInt64 nWord.toUInt64
    else shiftLeft (ofUInt64 nWord.toUInt64) (8 * (nSize - 3))
  let fNegative := nWord != 0 && nCompact &&& 0x00800000 != 0
  let fOverflow := nWord != 0 &&
    (decide (nSize > 34) || (decide (nWord > 0xff) && decide (nSize > 33)) ||
      (decide (nWord > 0xffff) && decide (nSize > 32)))
  (value, fNegative, fOverflow)

/-- `arith_uint256::GetCompact(fNegative)` on the limbs: the first word is `GetLow64()` of the
number, or of the number shifted down, cut to `uint32_t`. -/
def GetCompact {ε : Type} (a : base_uint 8) (fNegative : Bool) : Checked ε UInt32 := do
  let nSize := (a.bits + 7) / 8
  let nCompact : UInt32 :=
    if nSize ≤ 3 then (GetLow64 a <<< (8 * (3 - nSize)).toUInt64).toUInt32
    else (GetLow64 (shiftRight a (8 * (nSize - 3)))).toUInt32
  let (nCompact, nSize) :=
    if nCompact &&& 0x00800000 != 0 then (nCompact >>> 8, nSize + 1) else (nCompact, nSize)
  Checked.assert (nCompact &&& ~~~0x007fffff == 0)
  Checked.assert (nSize < 256)
  let nCompact := nCompact ||| (nSize <<< 24).toUInt32
  let nCompact :=
    nCompact ||| (if fNegative && nCompact &&& 0x007fffff != 0 then 0x00800000 else 0)
  return nCompact

/-- On the limbs `SetCompact` decodes to the number and flags of `Compact.lean`. -/
theorem SetCompact_eq (nCompact : UInt32) :
    ((SetCompact nCompact).1.toNat, (SetCompact nCompact).2) = Cascoin.SetCompact nCompact := by
  simp only [SetCompact, Cascoin.SetCompact]
  generalize nCompact.toNat >>> 24 = s
  set w : UInt32 := (if s ≤ 3 then (nCompact &&& 0x007fffff) >>> (8 * (3 - s)).toUInt32
    else nCompact &&& 0x007fffff) with hw
  -- the mantissa after its shift, as a word and as a number
  have hwn : w.toNat = if s ≤ 3 then (nCompact.toNat &&& 0x007fffff) >>> (8 * (3 - s))
      else nCompact.toNat &&& 0x007fffff := by
    rw [hw]
    split
    · rename_i hs
      rw [UInt32.toNat_shiftRight, UInt32.toNat_and, Nat.toUInt32_eq, UInt32.toNat_ofNat',
        Nat.mod_eq_of_lt (by omega), Nat.mod_eq_of_lt (by omega)]
      rfl
    · rw [UInt32.toNat_and]
      rfl
  have hval : (if s ≤ 3 then ofUInt64 w.toUInt64
      else shiftLeft (ofUInt64 w.toUInt64) (8 * (s - 3)) : base_uint 8).toNat =
      if s ≤ 3 then w.toNat else (w.toNat <<< (8 * (s - 3))) % 2 ^ 256 := by
    split
    · rw [toNat_ofUInt64 (by norm_num), UInt32.toNat_toUInt64]
    · rw [toNat_shiftLeft, toNat_ofUInt64 (by norm_num), UInt32.toNat_toUInt64, Nat.shiftLeft_eq]
  rw [← hwn, hval, bne_zero_eq_toNat, sign_bit_eq, decide_gt_toNat, decide_gt_toNat]
  rfl

/-- On the limbs `GetCompact` encodes as the `GetCompact` of `Compact.lean` on the number,
failing the same `assert`s. -/
theorem GetCompact_eq {ε : Type} (a : base_uint 8) (fNegative : Bool) :
    (GetCompact a fNegative : Checked ε UInt32) = Cascoin.GetCompact a.toNat fNegative := by
  simp only [GetCompact, Cascoin.GetCompact, base_uint.bits_eq_size, Cascoin.bits_eq_size]
  generalize (a.toNat.size + 7) / 8 = n
  set c := (if n ≤ 3 then (GetLow64 a <<< (8 * (3 - n)).toUInt64).toUInt32
      else (GetLow64 (shiftRight a (8 * (n - 3)))).toUInt32) with hc
  -- the first word: `GetLow64` of the limbs is the number modulo `2 ^ 64`
  have hcn : c.toNat = if n ≤ 3 then ((a.toNat % 2 ^ 64) <<< (8 * (3 - n))) % 2 ^ 32
      else ((a.toNat >>> (8 * (n - 3))) % 2 ^ 64) % 2 ^ 32 := by
    rw [hc]
    split
    · rename_i hn
      have hshift : (8 * (3 - n)).toUInt64.toNat % 64 = 8 * (3 - n) := by
        rw [Nat.toUInt64_eq, UInt64.toNat_ofNat', Nat.mod_eq_of_lt (by omega),
          Nat.mod_eq_of_lt (by omega)]
      rw [UInt64.toNat_toUInt32, UInt64.toNat_shiftLeft, toNat_GetLow64 (by norm_num), hshift,
        Nat.mod_mod_of_dvd _ (by norm_num : 2 ^ 32 ∣ 2 ^ 64)]
    · rw [UInt64.toNat_toUInt32, toNat_GetLow64 (by norm_num), toNat_shiftRight,
        Nat.shiftRight_eq_div_pow]
  rw [← hcn]
  clear_value c
  -- the sign bit moves the mantissa down a byte on both sides alike
  obtain ⟨C, N, hpair, hpair'⟩ : ∃ (C : UInt32) (N : ℕ),
      (if (c &&& 0x00800000 != 0) = true then (c >>> 8, n + 1) else (c, n)) = (C, N) ∧
      (if (c.toNat &&& 0x00800000 != 0) = true then (c.toNat >>> 8, n + 1) else (c.toNat, n)) =
        (C.toNat, N) := by
    rw [sign_bit_eq]
    split
    · refine ⟨c >>> 8, n + 1, rfl, ?_⟩
      rw [UInt32.toNat_shiftRight]
      rfl
    · exact ⟨c, n, rfl, rfl⟩
  rw [hpair, hpair', and_not_mantissa_eq_zero]
  by_cases h1 : C.toNat < 2 ^ 23
  · by_cases h2 : N < 256
    · have hN : N <<< 24 < 2 ^ 32 := by
        rw [Nat.shiftLeft_eq]
        omega
      have hw : (C ||| (N <<< 24).toUInt32).toNat = C.toNat ||| N <<< 24 := by
        rw [UInt32.toNat_or, Nat.toUInt32_eq, UInt32.toNat_ofNat', Nat.mod_eq_of_lt hN]
      have hflag : ((C ||| (N <<< 24).toUInt32) &&& 8388607 != 0) =
          ((C.toNat ||| N <<< 24) &&& 8388607 != 0) := by
        rw [bne_zero_eq_toNat, UInt32.toNat_and, hw]
        rfl
      simp only [decide_eq_true h1, decide_eq_true h2, Checked.assert_true, Checked.ok_bind, hflag,
        Checked.pure_eq]
      congr 1
      -- the packed word fits in 32 bits, so `UInt32.ofNat` keeps it
      apply UInt32.toNat_inj.mp
      have hlow : C.toNat ||| N <<< 24 < 2 ^ 32 := Nat.or_lt_two_pow (by omega) hN
      rw [UInt32.toNat_or, hw, UInt32.toNat_ofNat', Nat.mod_eq_of_lt]
      · split <;> rfl
      · split
        · exact Nat.or_lt_two_pow hlow (by norm_num)
        · rwa [Nat.or_zero]
    · simp only [decide_eq_true h1, decide_eq_false h2, Checked.assert_true, Checked.assert_false,
        Checked.ok_bind, Checked.error_bind]
  · simp only [decide_eq_false h1, Checked.assert_false, Checked.error_bind]

end arith_uint256

end Cascoin
