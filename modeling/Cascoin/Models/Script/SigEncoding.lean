import Cascoin.Models.Script.Interpreter

/-!
# The strict DER rule

`IsValidSignatureEncoding` (BIP66) checks a signature by reading single bytes at
offsets it computes from the two length bytes. `checkedIsValidSignatureEncoding`
is the source with every read checked: it never faults and returns what the
model of the rule returns (`checkedIsValidSignatureEncoding_eq`), so each read is
inside the signature once the guards before it have passed.

The rule accepts exactly the signatures `0x30 L 0x02 lr R 0x02 ls S h` of two
minimal non-negative integers `R` and `S`, with `L = lr + ls + 4` and at most 73
bytes in all (`DERSignature`, `IsMinimalDERInteger`). A minimal integer may be
the single byte `0x00`: the padding rule only applies to integers of two bytes
or more.
-/

namespace Cascoin

/-- The padding test of one integer of `IsValidSignatureEncoding`,
`len > 1 && (sig[start] == 0x00) && !(sig[start + 1] & 0x80)`, with its reads
checked under the short-circuits: a zero byte in front of a byte that does not
need it. -/
def checkedPadded (sig : valtype) (len start : Nat) : Checked Unit Bool :=
  if len > 1 then do
    if (← Checked.get sig start).toNat = 0x00 then
      return (← Checked.get sig (start + 1)).toNat &&& 0x80 = 0
    else return false
  else return false

/-- `IsValidSignatureEncoding` with its reads checked, in the order of the source. -/
def checkedIsValidSignatureEncoding (sig : valtype) : Checked Unit Bool := do
  if sig.length < 9 then return false
  if sig.length > 73 then return false
  if (← Checked.get sig 0).toNat != 0x30 then return false
  if (← Checked.get sig 1).toNat != sig.length - 3 then return false
  let lenR := (← Checked.get sig 3).toNat
  if 5 + lenR ≥ sig.length then return false
  let lenS := (← Checked.get sig (5 + lenR)).toNat
  if lenR + lenS + 7 != sig.length then return false
  if (← Checked.get sig 2).toNat != 0x02 then return false
  if lenR = 0 then return false
  if (← Checked.get sig 4).toNat &&& 0x80 != 0 then return false
  if (← checkedPadded sig lenR 4) then return false
  if (← Checked.get sig (lenR + 4)).toNat != 0x02 then return false
  if lenS = 0 then return false
  if (← Checked.get sig (lenR + 6)).toNat &&& 0x80 != 0 then return false
  if (← checkedPadded sig lenS (lenR + 6)) then return false
  return true

/-! ## Reads -/

theorem get_eq_getD {sig : valtype} {i : Nat} (hi : i < sig.length) :
    (Checked.get sig i : Checked Unit UInt8) = .ok (sig.getD i 0) := by
  rw [Checked.get_of_lt hi, List.getD_eq_getElem _ _ hi]

/-- The padding test reads inside an integer of `len` bytes at `start`. -/
theorem checkedPadded_eq {sig : valtype} {len start : Nat} (hbound : start + len ≤ sig.length) :
    checkedPadded sig len start = .ok (decide (len > 1 ∧ (sig.getD start 0).toNat = 0 ∧
      (sig.getD (start + 1) 0).toNat &&& 0x80 = 0)) := by
  unfold checkedPadded
  by_cases h1 : len > 1
  · simp only [h1, if_true, get_eq_getD (show start < sig.length by omega),
      get_eq_getD (show start + 1 < sig.length by omega), Checked.ok_bind, true_and]
    split <;> simp_all
  · simp [h1]

/-- Every read of the rule is inside the signature once the guards before it
passed, so the checked rule never faults and agrees with the rule. -/
theorem checkedIsValidSignatureEncoding_eq (sig : valtype) :
    checkedIsValidSignatureEncoding sig = .ok (IsValidSignatureEncoding sig) := by
  unfold checkedIsValidSignatureEncoding IsValidSignatureEncoding
  dsimp only
  by_cases hsize : sig.length < 9 ∨ sig.length > 73
  · rcases hsize with h | h <;> simp [h]
  rw [if_neg hsize, if_neg (by omega), if_neg (by omega)]
  -- the size guard covers the reads of bytes 0 to 4
  simp only [get_eq_getD (show 0 < sig.length by omega), get_eq_getD (show 1 < sig.length by omega),
    get_eq_getD (show 3 < sig.length by omega), Checked.ok_bind]
  by_cases c0 : ((sig.getD 0 0).toNat != 48) = true
  · simp only [c0, ↓reduceIte]
    rfl
  simp only [c0, ↓reduceIte, Bool.false_eq_true]
  by_cases c1 : ((sig.getD 1 0).toNat != sig.length - 3) = true
  · simp only [c1, ↓reduceIte]
    rfl
  simp only [c1, ↓reduceIte, Bool.false_eq_true]
  by_cases c5 : 5 + (sig.getD 3 0).toNat ≥ sig.length
  · simp only [c5, ↓reduceIte]
    rfl
  simp only [c5, ↓reduceIte, get_eq_getD (Nat.lt_of_not_le c5),
    get_eq_getD (show 2 < sig.length by omega), get_eq_getD (show 4 < sig.length by omega),
    Checked.ok_bind]
  -- the total length guard covers the reads around `S`
  by_cases csum : ((sig.getD 3 0).toNat + (sig.getD (5 + (sig.getD 3 0).toNat) 0).toNat + 7 !=
      sig.length) = true
  · simp only [csum, ↓reduceIte]
    rfl
  have hsum : (sig.getD 3 0).toNat + (sig.getD (5 + (sig.getD 3 0).toNat) 0).toNat + 7 =
      sig.length := by simpa using csum
  simp only [csum, ↓reduceIte, Bool.false_eq_true,
    checkedPadded_eq (show 4 + (sig.getD 3 0).toNat ≤ sig.length by omega),
    get_eq_getD (show (sig.getD 3 0).toNat + 4 < sig.length by omega), Checked.ok_bind]
  by_cases cS0 : (sig.getD (5 + (sig.getD 3 0).toNat) 0).toNat = 0
  · simp only [cS0, ↓reduceIte, decide_eq_true_eq, Nat.reduceAdd,
      apply_ite (Except.ok : Bool → Checked Unit Bool)]
    rfl
  simp only [get_eq_getD (show (sig.getD 3 0).toNat + 6 < sig.length by omega),
    checkedPadded_eq (show (sig.getD 3 0).toNat + 6 + (sig.getD (5 + (sig.getD 3 0).toNat) 0).toNat ≤
      sig.length by omega),
    Checked.ok_bind, decide_eq_true_eq, Nat.reduceAdd, Nat.add_assoc,
    apply_ite (Except.ok : Bool → Checked Unit Bool)]
  rfl

/-! ## The grammar -/

/-- `0x30 L 0x02 lr R 0x02 ls S h`: the signature of the integers `R` and `S`
with the hash type byte `h`. -/
def DERSignature (R S : List UInt8) (h : UInt8) : List UInt8 :=
  [0x30, UInt8.ofNat (R.length + S.length + 4), 0x02, UInt8.ofNat R.length] ++ R ++
    [0x02, UInt8.ofNat S.length] ++ S ++ [h]

/-- A minimal non-negative big-endian integer: not empty, its top bit clear, and a
leading zero only in front of a byte whose top bit is set. -/
def IsMinimalDERInteger : List UInt8 → Bool
  | [] => false
  | [b] => b.toNat < 0x80
  | b :: c :: _ => b.toNat < 0x80 && (b.toNat != 0 || 0x80 ≤ c.toNat)

/-- The rule of `IsValidSignatureEncoding` on the integer of `len` bytes at `start`:
not empty, not negative, not padded. -/
def derIntegerRule (sig : valtype) (len start : Nat) : Prop :=
  len ≠ 0 ∧ (sig.getD start 0).toNat &&& 0x80 = 0 ∧
    ¬(len > 1 ∧ (sig.getD start 0).toNat = 0 ∧ (sig.getD (start + 1) 0).toNat &&& 0x80 = 0)

theorem and_0x80_eq_zero_iff (b : UInt8) : b.toNat &&& 0x80 = 0 ↔ b.toNat < 0x80 := by
  have hb : b.toNat < 256 := b.toNat_lt
  rw [show (0x80 : Nat) = 2 ^ 7 by norm_num, Nat.and_two_pow, Nat.testBit_eq_decide_div_mod_eq]
  by_cases hx : b.toNat < 128
  · have hbit : b.toNat / 128 % 2 = 0 := by omega
    simp [hbit, hx]
  · have hbit : b.toNat / 128 % 2 = 1 := by omega
    simp [hbit, hx]

theorem getD_of_drop_eq {sig xs : List UInt8} {start : Nat} (h : sig.drop start = xs) (i : Nat) :
    sig.getD (start + i) 0 = xs.getD i 0 := by
  rw [← h]
  simp [List.getD_eq_getElem?_getD, List.getElem?_drop]

/-- The integer rule at `start` is minimality of the bytes there. -/
theorem derIntegerRule_iff {sig R rest : List UInt8} {start : Nat} (h : sig.drop start = R ++ rest) :
    derIntegerRule sig R.length start ↔ IsMinimalDERInteger R = true := by
  have hget := getD_of_drop_eq h
  unfold derIntegerRule
  match R with
  | [] => simp [IsMinimalDERInteger]
  | [b] =>
    have h0 : sig.getD start 0 = b := by simpa using hget 0
    rw [h0]
    simp [IsMinimalDERInteger, and_0x80_eq_zero_iff]
  | b :: c :: R' =>
    have h0 : sig.getD start 0 = b := by simpa using hget 0
    have h1 : sig.getD (start + 1) 0 = c := by simpa using hget 1
    rw [h0, h1]
    by_cases hb : b.toNat = 0 <;> simp [IsMinimalDERInteger, hb, and_0x80_eq_zero_iff]

theorem ite_false_eq_true {c : Prop} [Decidable c] {x : Bool} :
    ((if c then false else x) = true) ↔ (¬ c ∧ x = true) := by
  by_cases hc : c <;> simp [hc]

/-- The guards of the rule, one by one. -/
theorem IsValidSignatureEncoding_eq_true_iff (sig : valtype) :
    IsValidSignatureEncoding sig = true ↔
      9 ≤ sig.length ∧ sig.length ≤ 73 ∧ (sig.getD 0 0).toNat = 0x30 ∧
      (sig.getD 1 0).toNat = sig.length - 3 ∧ 5 + (sig.getD 3 0).toNat < sig.length ∧
      (sig.getD 3 0).toNat + (sig.getD (5 + (sig.getD 3 0).toNat) 0).toNat + 7 = sig.length ∧
      (sig.getD 2 0).toNat = 0x02 ∧ derIntegerRule sig (sig.getD 3 0).toNat 4 ∧
      (sig.getD ((sig.getD 3 0).toNat + 4) 0).toNat = 0x02 ∧
      derIntegerRule sig (sig.getD (5 + (sig.getD 3 0).toNat) 0).toNat ((sig.getD 3 0).toNat + 6) := by
  unfold IsValidSignatureEncoding derIntegerRule
  dsimp only
  simp only [ite_false_eq_true, bne_iff_ne, ne_eq, not_or, not_not, not_le, not_lt, and_true,
    and_assoc, Nat.add_assoc, Nat.reduceAdd]

theorem length_ne_zero_of_minimal {R : List UInt8} (h : IsMinimalDERInteger R = true) :
    R.length ≠ 0 := by
  intro h0
  rw [List.length_eq_zero_iff.mp h0] at h
  simp [IsMinimalDERInteger] at h

/-- Every signature of the grammar passes the rule. -/
theorem IsValidSignatureEncoding_DERSignature {R S : List UInt8} (h : UInt8)
    (hR : IsMinimalDERInteger R = true) (hS : IsMinimalDERInteger S = true)
    (hlen : R.length + S.length + 7 ≤ 73) :
    IsValidSignatureEncoding (DERSignature R S h) = true := by
  have hR0 := length_ne_zero_of_minimal hR
  have hS0 := length_ne_zero_of_minimal hS
  have hsize : (DERSignature R S h).length = R.length + S.length + 7 := by
    simp [DERSignature]
    omega
  have hdrop4 : (DERSignature R S h).drop 4 = R ++ ([0x02, UInt8.ofNat S.length] ++ S ++ [h]) := by
    simp [DERSignature]
  have hdropS : (DERSignature R S h).drop (R.length + 6) = S ++ [h] := by
    rw [show R.length + 6 = 4 + (R.length + 2) by omega, ← List.drop_drop, hdrop4]
    simp [List.drop_append]
  have hb3 : ((DERSignature R S h).getD 3 0).toNat = R.length := by
    simp [DERSignature]
    omega
  have hb4 : ((DERSignature R S h).getD (R.length + 4) 0).toNat = 0x02 := by
    have hget := getD_of_drop_eq hdrop4 R.length
    rw [Nat.add_comm 4] at hget
    rw [hget, List.getD_append_right _ _ _ _ le_rfl, Nat.sub_self]
    rfl
  have hb5 : ((DERSignature R S h).getD (5 + R.length) 0).toNat = S.length := by
    have hget := getD_of_drop_eq hdrop4 (R.length + 1)
    rw [show 4 + (R.length + 1) = 5 + R.length by omega] at hget
    rw [hget, List.getD_append_right _ _ _ _ (by omega), show R.length + 1 - R.length = 1 by omega]
    simp
    omega
  rw [IsValidSignatureEncoding_eq_true_iff, hb3, hb5, hsize]
  refine ⟨by omega, by omega, by simp [DERSignature], ?_, by omega, by omega,
    by simp [DERSignature], (derIntegerRule_iff hdrop4).mpr hR, hb4, (derIntegerRule_iff hdropS).mpr hS⟩
  simp [DERSignature]
  omega

theorem drop_eq_getD_cons {sig : List UInt8} {i : Nat} (h : i < sig.length) :
    sig.drop i = sig.getD i 0 :: sig.drop (i + 1) := by
  rw [List.drop_eq_getElem_cons h, List.getD_eq_getElem _ _ h]

/-- Every signature the rule accepts is one of the grammar. -/
theorem exists_DERSignature_of_IsValidSignatureEncoding {sig : valtype}
    (hv : IsValidSignatureEncoding sig = true) :
    ∃ R S h, sig = DERSignature R S h ∧ IsMinimalDERInteger R = true ∧
      IsMinimalDERInteger S = true ∧ R.length + S.length + 7 ≤ 73 := by
  obtain ⟨h9, h73, hb0, hb1, h5, hsum, hb2, hRrule, hb4, hSrule⟩ :=
    (IsValidSignatureEncoding_eq_true_iff sig).mp hv
  set lr := (sig.getD 3 0).toNat with hlr
  set ls := (sig.getD (5 + lr) 0).toNat with hls
  -- cut the signature at the offsets its length bytes give
  have hR : ((sig.drop 4).take lr).length = lr := by simp; omega
  have hS : ((sig.drop (lr + 6)).take ls).length = ls := by simp; omega
  have hdrop4 : sig.drop 4 = (sig.drop 4).take lr ++ sig.drop (4 + lr) := by
    have hsplit := List.take_append_drop lr (sig.drop 4)
    rw [List.drop_drop] at hsplit
    exact hsplit.symm
  have hmid : sig.drop (4 + lr) = sig.getD (lr + 4) 0 :: sig.getD (5 + lr) 0 :: sig.drop (lr + 6) := by
    rw [drop_eq_getD_cons (by omega), drop_eq_getD_cons (by omega),
      show 4 + lr + 1 = 5 + lr by omega, show 5 + lr + 1 = lr + 6 by omega,
      show 4 + lr = lr + 4 by omega]
  have hdropS : sig.drop (lr + 6) = (sig.drop (lr + 6)).take ls ++ [sig.getD (sig.length - 1) 0] := by
    have hlast : sig.drop (sig.length - 1) = [sig.getD (sig.length - 1) 0] := by
      rw [drop_eq_getD_cons (by omega), List.drop_eq_nil_of_le (by omega)]
    have hsplit := List.take_append_drop ls (sig.drop (lr + 6))
    rw [List.drop_drop, show lr + 6 + ls = sig.length - 1 by omega, hlast] at hsplit
    exact hsplit.symm
  have hfront : sig = sig.getD 0 0 :: sig.getD 1 0 :: sig.getD 2 0 :: sig.getD 3 0 :: sig.drop 4 := by
    match sig, h9 with
    | a0 :: a1 :: a2 :: a3 :: rest, _ => rfl
  have hRmin := derIntegerRule_iff hdrop4
  have hSmin := derIntegerRule_iff hdropS
  rw [hR] at hRmin
  rw [hS] at hSmin
  refine ⟨(sig.drop 4).take lr, (sig.drop (lr + 6)).take ls, sig.getD (sig.length - 1) 0, ?_,
    hRmin.mp hRrule, hSmin.mp hSrule, by rw [hR, hS]; omega⟩
  -- the bytes around the integers are the ones the guards checked
  have e0 : sig.getD 0 0 = 0x30 := UInt8.toNat_inj.mp hb0
  have e1 : sig.getD 1 0 = UInt8.ofNat (((sig.drop 4).take lr).length +
      ((sig.drop (lr + 6)).take ls).length + 4) := by
    apply UInt8.toNat_inj.mp
    rw [hR, hS, UInt8.toNat_ofNat', Nat.mod_eq_of_lt (by omega)]
    omega
  have e2 : sig.getD 2 0 = 0x02 := UInt8.toNat_inj.mp hb2
  have e3 : sig.getD 3 0 = UInt8.ofNat ((sig.drop 4).take lr).length := by
    rw [hR, hlr, UInt8.ofNat_toNat]
  have e4 : sig.getD (lr + 4) 0 = 0x02 := UInt8.toNat_inj.mp hb4
  have e5 : sig.getD (5 + lr) 0 = UInt8.ofNat ((sig.drop (lr + 6)).take ls).length := by
    rw [hS, hls, UInt8.ofNat_toNat]
  conv_lhs => rw [hfront, hdrop4, hmid, hdropS, e0, e1, e2, e3, e4, e5]
  simp [DERSignature]
/-- The strict DER rule reads only inside the signature, and it accepts exactly the
signatures `0x30 L 0x02 lr R 0x02 ls S h` of two minimal non-negative integers, of
at most 73 bytes. -/
theorem IsValidSignatureEncoding_iff_DERSignature (sig : valtype) :
    checkedIsValidSignatureEncoding sig = .ok (IsValidSignatureEncoding sig) ∧
    (IsValidSignatureEncoding sig = true ↔ ∃ R S h, sig = DERSignature R S h ∧
      IsMinimalDERInteger R = true ∧ IsMinimalDERInteger S = true ∧
      R.length + S.length + 7 ≤ 73) := by
  refine ⟨checkedIsValidSignatureEncoding_eq sig, exists_DERSignature_of_IsValidSignatureEncoding, ?_⟩
  rintro ⟨R, S, h, rfl, hR, hS, hlen⟩
  exact IsValidSignatureEncoding_DERSignature h hR hS hlen

/-- The nine-byte signature of `R = 0` and `S = 1`. -/
theorem IsValidSignatureEncoding_iff_DERSignature_zero :
    ∃ R S h, [0x30, 0x06, 0x02, 0x01, 0x00, 0x02, 0x01, 0x01, 0x01] = DERSignature R S h ∧
      IsMinimalDERInteger R = true ∧ IsMinimalDERInteger S = true ∧
      R.length + S.length + 7 ≤ 73 :=
  (IsValidSignatureEncoding_iff_DERSignature _).2.mp (by decide)

/-- The rule accepts `R = [0x00]`, a leading zero byte that no byte follows. -/
theorem IsValidSignatureEncoding_zero_integer :
    IsValidSignatureEncoding [0x30, 0x06, 0x02, 0x01, 0x00, 0x02, 0x01, 0x01, 0x01] = true ∧
      [0x30, 0x06, 0x02, 0x01, 0x00, 0x02, 0x01, 0x01, 0x01] = DERSignature [0x00] [0x01] 0x01 ∧
      ([0x00] : List UInt8)[1]? = none := by
  decide

end Cascoin
