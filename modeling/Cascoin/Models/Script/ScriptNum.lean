import Cascoin.Core.Bytes

/-!
# Script numbers

`CScriptNum` reads a stack element as a number: little-endian bytes with the sign in
the top bit of the last byte. Its constructor throws when the element is longer than
`nMaxNumSize` or, under `fRequireMinimal`, when the last byte carries no magnitude bit
and is not needed for the sign; `set_vch` computes the value and `serialize` writes a
number back.

The element is split as `init ++ [last]` throughout: `set_vch_concat` reads the value
that way, `scriptNumSerialize_eq` writes it, and `CScriptNum.ofVch_concat` is the
constructor's test on the two parts (`MinimalTail`). The results are the codec's two
directions: every number below the sign bit of `w ≤ 8` bytes is written in at most `w`
bytes that the constructor accepts and reads back (`scriptNumSerialize_spec`), and every
element that the constructor accepts under `fRequireMinimal` is the one `serialize`
writes for its value (`scriptNumSerialize_set_vch`).

The source computes the value in `int64_t`; up to eight bytes, the only lengths its
callers allow, that is the model's `Int`.
-/

namespace Cascoin

open Bytes

/-- `CScriptNum::serialize`'s loop over the magnitude, least significant byte first,
for at most `n` bytes. -/
def scriptNumBytes : Nat → Nat → List UInt8
  | 0, _ => []
  | n + 1, absvalue =>
    if absvalue = 0 then [] else UInt8.ofNat (absvalue % 256) :: scriptNumBytes n (absvalue / 256)

/-- `CScriptNum::serialize(value)`: the magnitude's bytes with the sign in the top
bit, and an extra byte when the top bit is taken. -/
def scriptNumSerialize (value : Int) : List UInt8 :=
  if value = 0 then []
  else
    let result := scriptNumBytes 8 value.natAbs
    match result.getLast? with
    | none => result
    | some last =>
      if last &&& 0x80 ≠ 0 then result ++ [if value < 0 then 0x80 else 0]
      else if value < 0 then result.dropLast ++ [last ||| 0x80]
      else result

/-! ## The magnitude's bytes -/

/-- With enough rounds the loop writes the base-256 digits of the magnitude. -/
theorem scriptNumBytes_eq_digits {n m : Nat} (h : m < 256 ^ n) :
    scriptNumBytes n m = (Nat.digits 256 m).map UInt8.ofNat := by
  induction n generalizing m with
  | zero =>
    have hm : m = 0 := by simpa using h
    simp [scriptNumBytes, hm]
  | succ n ih =>
    by_cases hm : m = 0
    · simp [scriptNumBytes, hm]
    · have hdiv : m / 256 < 256 ^ n := Nat.div_lt_of_lt_mul (by rwa [Nat.pow_succ, Nat.mul_comm] at h)
      rw [scriptNumBytes, if_neg hm, ih hdiv, Nat.digits_def' (n := m) (by norm_num) (by omega),
        List.map_cons]

/-- A nonzero magnitude of at most eight bytes is written as bytes `init ++ [top]` that
store it, with a nonzero last byte. -/
theorem scriptNumBytes_concat {m : Nat} (h0 : m ≠ 0) (hm : m < 256 ^ 8) :
    ∃ init top, scriptNumBytes 8 m = init ++ [top] ∧ top.toNat ≠ 0 ∧
      leValue init + 256 ^ init.length * top.toNat = m := by
  have hne : Nat.digits 256 m ≠ [] := Nat.digits_ne_nil_iff_ne_zero.mpr h0
  have hdig : ∀ d ∈ Nat.digits 256 m, d < 256 := fun d hd => Nat.digits_lt_base (by norm_num) hd
  have htop : (Nat.digits 256 m).getLast hne < 256 := hdig _ (List.getLast_mem hne)
  refine ⟨(Nat.digits 256 m).dropLast.map UInt8.ofNat,
    UInt8.ofNat ((Nat.digits 256 m).getLast hne), ?_, ?_, ?_⟩
  · rw [scriptNumBytes_eq_digits hm, ← List.map_singleton, ← List.map_append,
      List.dropLast_append_getLast hne]
  · rw [UInt8.toNat_ofNat', Nat.mod_eq_of_lt htop]
    exact Nat.getLast_digit_ne_zero 256 h0
  · have hval : leValue ((Nat.digits 256 m).map UInt8.ofNat) = m := by
      rw [leValue_map_ofNat hdig, Nat.ofDigits_digits]
    rw [← List.dropLast_append_getLast hne, List.map_append, leValue_append,
      List.map_singleton, leValue_cons, leValue_nil] at hval
    simpa using hval

/-- Bytes with a nonzero last byte, at most eight of them, are what the loop writes for
the number they store. -/
theorem scriptNumBytes_leValue (bs : List UInt8) (top : UInt8) (htop : top.toNat ≠ 0)
    (hlen : bs.length + 1 ≤ 8) : scriptNumBytes 8 (leValue (bs ++ [top])) = bs ++ [top] := by
  have hlt : leValue (bs ++ [top]) < 256 ^ 8 :=
    (leValue_lt _).trans_le (Nat.pow_le_pow_right (by norm_num) (by simpa using hlen))
  have hdigits : Nat.digits 256 (leValue (bs ++ [top])) = (bs ++ [top]).map UInt8.toNat := by
    rw [leValue_eq_ofDigits]
    refine Nat.digits_ofDigits 256 (by norm_num) _ (fun d hd => ?_) (fun _ => ?_)
    · obtain ⟨b, -, rfl⟩ := List.mem_map.mp hd
      exact b.toNat_lt
    · simpa using htop
  have hid : UInt8.ofNat ∘ UInt8.toNat = id := funext fun _ => UInt8.ofNat_toNat
  rw [scriptNumBytes_eq_digits hlt, hdigits, List.map_map, hid, List.map_id]

/-- `serialize` on a nonzero value whose magnitude's bytes are `init ++ [top]`: the sign
goes into the top bit of `top`, or into a byte of its own when that bit is taken. -/
theorem scriptNumSerialize_eq {value : Int} {init : List UInt8} {top : UInt8} (h0 : value ≠ 0)
    (hbytes : scriptNumBytes 8 value.natAbs = init ++ [top]) :
    scriptNumSerialize value =
      if top.toNat < 0x80 then init ++ [if value < 0 then top ||| 0x80 else top]
      else init ++ [top, if value < 0 then 0x80 else 0] := by
  simp only [scriptNumSerialize, if_neg h0, hbytes, List.getLast?_concat, List.dropLast_concat]
  by_cases htop : top.toNat < 0x80
  · have hbit : ¬top &&& 0x80 ≠ 0 := not_not.mpr ((and_0x80_eq_zero_iff top).mpr htop)
    rw [if_neg hbit, if_pos htop]
    by_cases hneg : value < 0 <;> simp [hneg]
  · have hbit : top &&& 0x80 ≠ 0 := fun h => htop ((and_0x80_eq_zero_iff top).mp h)
    rw [if_pos hbit, if_neg htop]
    simp

namespace CScriptNum

/-- `CScriptNum::nDefaultMaxNumSize`. -/
def nDefaultMaxNumSize : Nat := 4

/-- `CScriptNum::set_vch`: the bytes read little-endian; when the last byte's top bit
is set, the value without that bit, negated. -/
def set_vch (vch : List UInt8) : Int :=
  match vch.getLast? with
  | none => 0
  | some back =>
    let result := leValue vch
    -- `result & ~(0x80ULL << (8 * (vch.size() - 1)))` clears the bit this branch knows is set
    if back &&& 0x80 ≠ 0 then -((result - 0x80 <<< (8 * (vch.length - 1)) : Nat) : Int)
    else result

/-- The constructor `CScriptNum(vch, fRequireMinimal, nMaxNumSize)`: the number's
`m_value`, or the text of the `scriptnum_error` it throws. -/
def ofVch (vch : List UInt8) (fRequireMinimal : Bool) (nMaxNumSize : Nat) :
    Except String Int := do
  if vch.length > nMaxNumSize then
    throw "script number overflow"
  if fRequireMinimal && vch.length > 0 then
    if vch.getLastD 0 &&& 0x7f = 0 then
      if vch.length ≤ 1 || vch.getD (vch.length - 2) 0 &&& 0x80 = 0 then
        throw "non-minimally encoded script number"
  return set_vch vch

/-- What `fRequireMinimal` asks of an element `init ++ [last]`: the last byte carries a
magnitude bit, or the byte before it has its top bit set, so that the sign needs a
byte of its own. -/
def MinimalTail (init : List UInt8) (last : UInt8) : Prop :=
  last.toNat % 0x80 ≠ 0 ∨ 0x80 ≤ (init.getLastD 0).toNat

instance (init : List UInt8) (last : UInt8) : Decidable (MinimalTail init last) :=
  inferInstanceAs (Decidable (_ ∨ _))

/-! ## The two parts of an element -/

/-- `set_vch` on `init ++ [last]`: the magnitude is `init` with the last byte's low seven
bits above it, negated when the top bit is set. -/
theorem set_vch_concat (init : List UInt8) (last : UInt8) :
    set_vch (init ++ [last]) =
      if last.toNat < 0x80 then ((leValue init + 256 ^ init.length * last.toNat : Nat) : Int)
      else -((leValue init + 256 ^ init.length * (last.toNat - 0x80) : Nat) : Int) := by
  have hshift : 0x80 <<< (8 * init.length) = 256 ^ init.length * 0x80 := by
    rw [Nat.shiftLeft_eq, pow_mul, Nat.mul_comm]
    rfl
  simp only [set_vch, List.getLast?_concat, leValue_concat, List.length_append,
    List.length_singleton, Nat.add_sub_cancel, hshift]
  by_cases hlast : last.toNat < 0x80
  · simp [(and_0x80_eq_zero_iff last).mpr hlast, hlast]
  · have hbit : last &&& 0x80 ≠ 0 := fun h => hlast ((and_0x80_eq_zero_iff last).mp h)
    have hle : 256 ^ init.length * 0x80 ≤ 256 ^ init.length * last.toNat :=
      Nat.mul_le_mul_left _ (by omega)
    rw [if_pos hbit, if_neg hlast, Nat.add_sub_assoc hle, ← Nat.mul_sub]

theorem ofVch_nil (fRequireMinimal : Bool) (nMaxNumSize : Nat) :
    ofVch [] fRequireMinimal nMaxNumSize = .ok 0 := by
  simp [ofVch, set_vch]
  rfl

/-- The constructor on `init ++ [last]`: the length check, then the minimality check on
the last two bytes. -/
theorem ofVch_concat (init : List UInt8) (last : UInt8) (fRequireMinimal : Bool)
    (nMaxNumSize : Nat) :
    ofVch (init ++ [last]) fRequireMinimal nMaxNumSize =
      if nMaxNumSize < init.length + 1 then .error "script number overflow"
      else if fRequireMinimal = true ∧ ¬MinimalTail init last then
        .error "non-minimally encoded script number"
      else .ok (set_vch (init ++ [last])) := by
  have hback : (init ++ [last]).getLastD 0 &&& 0x7f = 0 ↔ last.toNat % 0x80 = 0 := by
    rw [List.getLastD_concat, ← UInt8.toNat_inj, and_0x7f_toNat]
    rfl
  have hprev : (init.length + 1 ≤ 1 ||
      (init ++ [last]).getD (init.length + 1 - 2) 0 &&& 0x80 = 0) = true ↔
      (init.getLastD 0).toNat < 0x80 := by
    rcases List.eq_nil_or_concat init with rfl | ⟨pre, t, rfl⟩
    · simp
    · simp [and_0x80_eq_zero_iff]
  by_cases hlen : nMaxNumSize < init.length + 1
  · simp only [ofVch, List.length_append, List.length_singleton, gt_iff_lt, if_pos hlen]
    rfl
  · simp only [ofVch, List.length_append, List.length_singleton, gt_iff_lt, if_neg hlen]
    have hpos : (fRequireMinimal && decide (0 < init.length + 1)) = fRequireMinimal := by simp
    rw [hpos]
    -- the source throws only when both the last byte and the top bit before it are empty
    by_cases hf : fRequireMinimal = true
    · by_cases hlow : last.toNat % 0x80 = 0
      · rw [if_pos hf, if_pos (hback.mpr hlow)]
        by_cases hhigh : (init.getLastD 0).toNat < 0x80
        · have hnot : ¬MinimalTail init last := by
            unfold MinimalTail
            omega
          rw [if_pos (hprev.mpr hhigh), if_pos ⟨hf, hnot⟩]
          rfl
        · rw [if_neg (mt hprev.mp hhigh), if_neg (fun h => h.2 (Or.inr (by omega)))]
          rfl
      · rw [if_pos hf, if_neg (mt hback.mp hlow), if_neg (fun h => h.2 (Or.inl hlow))]
        rfl
    · rw [if_neg hf, if_neg (fun h => hf h.1)]
      rfl

/-! ## The codec -/

/-- The length bound behind `serialize`: a magnitude below the sign bit of `w` bytes whose
top byte `t` stands at position `k` takes at most `w` bytes, and `k + 2` of them still
fit when the top bit of `t` is set. -/
theorem length_le_of_lt_signBit {L k t w : Nat} (ht : 0 < t) (hw : 1 ≤ w)
    (hlt : L + 256 ^ k * t < 2 ^ (8 * w - 1)) : k + 1 ≤ w ∧ (0x80 ≤ t → k + 2 ≤ w) := by
  have hsign : 2 ^ (8 * w - 1) = 256 ^ (w - 1) * 0x80 := by
    rw [show 8 * w - 1 = 8 * (w - 1) + 7 by omega, pow_add, pow_mul]
    rfl
  have hkt : 256 ^ k ≤ 256 ^ k * t := Nat.le_mul_of_pos_right _ ht
  have hk : k + 1 ≤ w := by
    by_contra hcon
    have hpow : 256 ^ (w - 1) * 256 ≤ 256 ^ k := by
      rw [← pow_succ]
      exact Nat.pow_le_pow_right (by norm_num) (by omega)
    omega
  refine ⟨hk, fun ht80 => ?_⟩
  by_contra hcon
  have hkw : k = w - 1 := by omega
  have hbig : 256 ^ (w - 1) * 0x80 ≤ 256 ^ k * t := by
    rw [hkw]
    exact Nat.mul_le_mul_left _ ht80
  omega

/-- `serialize` writes a nonzero number below the sign bit of `w ≤ 8` bytes as an element
of at most `w` bytes that passes the minimality test and reads back as the number. -/
theorem scriptNumSerialize_spec {n : Int} {w : Nat} (h0 : n ≠ 0) (hw : 1 ≤ w) (hw8 : w ≤ 8)
    (hlt : n.natAbs < 2 ^ (8 * w - 1)) :
    ∃ init last, scriptNumSerialize n = init ++ [last] ∧ init.length + 1 ≤ w ∧
      MinimalTail init last ∧ set_vch (init ++ [last]) = n := by
  have hm8 : n.natAbs < 256 ^ 8 :=
    hlt.trans_le ((Nat.pow_le_pow_right (by norm_num) (by omega : 8 * w - 1 ≤ 64)).trans_eq
      (by norm_num))
  obtain ⟨init, top, hbytes, htop, hval⟩ := scriptNumBytes_concat (Int.natAbs_ne_zero.mpr h0) hm8
  have hlen := length_le_of_lt_signBit (Nat.pos_of_ne_zero htop) hw (hval ▸ hlt)
  rw [scriptNumSerialize_eq h0 hbytes]
  by_cases hsmall : top.toNat < 0x80
  · -- the sign fits into the top bit of the magnitude's last byte
    rw [if_pos hsmall]
    refine ⟨init, if n < 0 then top ||| 0x80 else top, rfl, hlen.1, ?_, ?_⟩
    · left
      by_cases hneg : n < 0
      · rw [if_pos hneg, or_0x80_toNat top hsmall]
        omega
      · rw [if_neg hneg]
        omega
    · rw [set_vch_concat]
      by_cases hneg : n < 0
      · rw [if_pos hneg, or_0x80_toNat top hsmall, if_neg (by omega), Nat.add_sub_cancel, hval]
        omega
      · rw [if_neg hneg, if_pos hsmall, hval]
        omega
  · -- the sign takes a byte of its own after the magnitude
    rw [if_neg hsmall]
    refine ⟨init ++ [top], if n < 0 then 0x80 else 0, by simp, ?_, ?_, ?_⟩
    · have hlen2 := hlen.2 (by omega)
      rw [List.length_append, List.length_singleton]
      omega
    · right
      rw [List.getLastD_concat]
      omega
    · rw [set_vch_concat, leValue_concat, hval]
      by_cases hneg : n < 0
      · rw [if_pos hneg, if_neg (by decide)]
        simp only [UInt8.toNat_ofNat, Nat.sub_self, Nat.mul_zero, Nat.add_zero]
        omega
      · rw [if_neg hneg, if_pos (by decide), UInt8.toNat_zero, Nat.mul_zero, Nat.add_zero]
        omega

/-- `serialize` on `M` or `-M` for a magnitude `M` whose bytes are `init ++ [top]`, by the
sign. -/
theorem scriptNumSerialize_signed {M : Nat} {init : List UInt8} {top : UInt8} (neg : Bool)
    (hM : M ≠ 0) (hbytes : scriptNumBytes 8 M = init ++ [top]) :
    scriptNumSerialize (if neg then -(M : Int) else M) =
      if top.toNat < 0x80 then init ++ [if neg then top ||| 0x80 else top]
      else init ++ [top, if neg then 0x80 else 0] := by
  cases neg
  · have hpos : ¬(M : Int) < 0 := by omega
    rw [scriptNumSerialize_eq (by simpa using hM) (by simpa using hbytes)]
    simp [hpos]
  · rw [scriptNumSerialize_eq (by simpa using hM) (by simpa using hbytes)]
    simp [Nat.pos_of_ne_zero hM]

/-- An element of at most eight bytes that passes the minimality test is what `serialize`
writes for its value. -/
theorem scriptNumSerialize_set_vch {init : List UInt8} {last : UInt8} (hlen : init.length + 1 ≤ 8)
    (hmin : MinimalTail init last) :
    scriptNumSerialize (set_vch (init ++ [last])) = init ++ [last] := by
  have hl : last.toNat < 256 := last.toNat_lt
  by_cases hlow : last.toNat % 0x80 = 0
  · -- the last byte holds only the sign, so the byte before it is the magnitude's top
    have hhigh : 0x80 ≤ (init.getLastD 0).toNat := hmin.resolve_left (not_not.mpr hlow)
    rcases List.eq_nil_or_concat init with rfl | ⟨pre, t, rfl⟩
    · simp at hhigh
    · rw [List.concat_eq_append] at hhigh hlen ⊢
      rw [List.getLastD_concat] at hhigh
      have hlast : last.toNat = 0 ∨ last.toNat = 0x80 := by
        have := last.toNat_lt
        omega
      have hM : leValue (pre ++ [t]) ≠ 0 := by
        rw [leValue_concat]
        have : 0 < 256 ^ pre.length * t.toNat := Nat.mul_pos (by positivity) (by omega)
        omega
      have hbytes := scriptNumBytes_leValue pre t (by omega)
        (by rw [List.length_append, List.length_singleton] at hlen; omega)
      have hval : set_vch (pre ++ [t] ++ [last]) =
          if decide (0x80 ≤ last.toNat) then -(leValue (pre ++ [t]) : Int)
          else (leValue (pre ++ [t]) : Int) := by
        rw [set_vch_concat]
        rcases hlast with h | h <;> simp [h]
      rw [hval, scriptNumSerialize_signed _ hM hbytes, if_neg (by omega)]
      rcases hlast with h | h
      · have : last = 0 := UInt8.toNat_inj.mp h
        simp [this]
      · have : last = 0x80 := UInt8.toNat_inj.mp h
        simp [this]
  · -- the last byte carries the magnitude's top bits, and the sign in its top bit
    have hlt : last.toNat % 0x80 < 256 := by omega
    have htop : (UInt8.ofNat (last.toNat % 0x80)).toNat = last.toNat % 0x80 := by
      rw [UInt8.toNat_ofNat', Nat.mod_eq_of_lt hlt]
    have hM : leValue (init ++ [UInt8.ofNat (last.toNat % 0x80)]) ≠ 0 := by
      rw [leValue_concat, htop]
      have : 0 < 256 ^ init.length * (last.toNat % 0x80) := Nat.mul_pos (by positivity) (by omega)
      omega
    have hbytes := scriptNumBytes_leValue init (UInt8.ofNat (last.toNat % 0x80))
      (by omega) hlen
    have hval : set_vch (init ++ [last]) =
        if decide (0x80 ≤ last.toNat) then
          -(leValue (init ++ [UInt8.ofNat (last.toNat % 0x80)]) : Int)
        else (leValue (init ++ [UInt8.ofNat (last.toNat % 0x80)]) : Int) := by
      rw [set_vch_concat, leValue_concat, htop]
      by_cases hbig : 0x80 ≤ last.toNat
      · have hsub : last.toNat - 0x80 = last.toNat % 0x80 := by omega
        rw [if_neg (by omega), hsub, if_pos (decide_eq_true hbig)]
      · have hsame : last.toNat % 0x80 = last.toNat := by omega
        rw [if_pos (by omega), hsame, if_neg (by simpa using hbig)]
    rw [hval, scriptNumSerialize_signed _ hM hbytes, if_pos (by omega)]
    congr 2
    apply UInt8.toNat_inj.mp
    by_cases hbig : 0x80 ≤ last.toNat
    · rw [if_pos (decide_eq_true hbig), or_0x80_toNat _ (by omega), htop]
      omega
    · rw [if_neg (by simpa using hbig), htop]
      omega

/-- Every number below the sign bit of `w ≤ 8` bytes is written in at most `w` bytes, which
the constructor accepts, under either setting of `fRequireMinimal`, and reads back. -/
theorem ofVch_scriptNumSerialize {n : Int} {w : Nat} (hw : 1 ≤ w) (hw8 : w ≤ 8)
    (hlt : n.natAbs < 2 ^ (8 * w - 1)) (fRequireMinimal : Bool) :
    ofVch (scriptNumSerialize n) fRequireMinimal w = .ok n ∧ (scriptNumSerialize n).length ≤ w := by
  by_cases h0 : n = 0
  · subst h0
    simp [scriptNumSerialize, ofVch_nil]
  · obtain ⟨init, last, hser, hlen, hmin, hval⟩ := scriptNumSerialize_spec h0 hw hw8 hlt
    rw [hser, ofVch_concat, if_neg (by omega), if_neg (fun h => h.2 hmin), hval]
    simpa using hlen

example : scriptNumSerialize (-255) = [0xff, 0x80] ∧ ofVch [0xff, 0x80] true 4 = .ok (-255) ∧
    ofVch [0x80] true 4 = .error "non-minimally encoded script number" := by
  refine ⟨rfl, rfl, rfl⟩

/-- Without `fRequireMinimal` the constructor accepts every element within the size
limit. -/
theorem ofVch_of_length_le {vch : List UInt8} {nMaxNumSize : Nat} (hlen : vch.length ≤ nMaxNumSize) :
    ofVch vch false nMaxNumSize = .ok (set_vch vch) := by
  rcases List.eq_nil_or_concat vch with rfl | ⟨init, last, rfl⟩
  · exact ofVch_nil false nMaxNumSize
  · rw [List.concat_eq_append] at hlen ⊢
    rw [ofVch_concat, if_neg (by simpa using hlen), if_neg (by simp)]

/-- The value of `n` bytes lies below the sign bit of `n` bytes. -/
theorem natAbs_set_vch_lt (vch : List UInt8) : (set_vch vch).natAbs < 2 ^ (8 * vch.length - 1) := by
  rcases List.eq_nil_or_concat vch with rfl | ⟨init, last, rfl⟩
  · simp [set_vch]
  · rw [List.concat_eq_append, set_vch_concat, List.length_append, List.length_singleton]
    have hsign : 2 ^ (8 * (init.length + 1) - 1) = 256 ^ init.length * 0x80 := by
      rw [show 8 * (init.length + 1) - 1 = 8 * init.length + 7 by omega, pow_add, pow_mul]
      rfl
    have hinit := leValue_lt init
    have hl : last.toNat < 256 := last.toNat_lt
    -- the magnitude is `init` below a top byte of at most seven bits
    have hmag : ∀ low, low < 0x80 → leValue init + 256 ^ init.length * low < 256 ^ init.length * 0x80 := by
      intro low hlow
      have : 256 ^ init.length * low + 256 ^ init.length ≤ 256 ^ init.length * 0x80 := by
        rw [← Nat.mul_succ]
        exact Nat.mul_le_mul_left _ hlow
      omega
    rw [hsign]
    by_cases hsmall : last.toNat < 0x80
    · rw [if_pos hsmall, Int.natAbs_natCast]
      exact hmag _ hsmall
    · rw [if_neg hsmall, Int.natAbs_neg, Int.natAbs_natCast]
      exact hmag _ (by omega)

/-- Every element that the constructor accepts under `fRequireMinimal`, with a size limit of
at most eight bytes, is what `serialize` writes for its value. -/
theorem scriptNumSerialize_of_ofVch {vch : List UInt8} {nMaxNumSize : Nat} {value : Int}
    (hmax : nMaxNumSize ≤ 8) (h : ofVch vch true nMaxNumSize = .ok value) :
    scriptNumSerialize value = vch := by
  rcases List.eq_nil_or_concat vch with rfl | ⟨init, last, rfl⟩
  · rw [ofVch_nil] at h
    cases h
    simp [scriptNumSerialize]
  · rw [List.concat_eq_append] at h ⊢
    rw [ofVch_concat] at h
    by_cases hlen : nMaxNumSize < init.length + 1
    · simp [hlen] at h
    · by_cases hmin : MinimalTail init last
      · rw [if_neg hlen, if_neg (fun h => h.2 hmin)] at h
        cases h
        exact scriptNumSerialize_set_vch (by omega) hmin
      · simp [hlen, hmin] at h

theorem serialize_codec :
    (∀ n : Int, |n| ≤ 2 ^ 39 - 1 →
      ofVch (scriptNumSerialize n) true 5 = .ok n ∧ (scriptNumSerialize n).length ≤ 5) ∧
    (∀ (v : List UInt8) (m : Nat) (value : Int), m ≤ 8 → ofVch v true m = .ok value →
      scriptNumSerialize value = v) ∧
    (∀ v : List UInt8, v.length ≤ 4 → ∃ value, ofVch v false nDefaultMaxNumSize = .ok value ∧
      |value| ≤ 2 ^ 31 - 1 ∧
      ofVch (scriptNumSerialize value) true nDefaultMaxNumSize = .ok value) := by
  refine ⟨fun n hn => ?_, fun v m value hm h => scriptNumSerialize_of_ofVch hm h, fun v hv => ?_⟩
  · have hlt : n.natAbs < 2 ^ (8 * 5 - 1) := by
      have := abs_le.mp hn
      omega
    exact ofVch_scriptNumSerialize (by decide) (by decide) hlt true
  · have hlt : (set_vch v).natAbs < 2 ^ (8 * 4 - 1) :=
      (natAbs_set_vch_lt v).trans_le (Nat.pow_le_pow_right (by decide) (by omega))
    refine ⟨set_vch v, ofVch_of_length_le hv, ?_,
      (ofVch_scriptNumSerialize (by decide) (by decide) hlt true).1⟩
    rw [abs_le]
    omega

end CScriptNum

end Cascoin
