import Cascoin.Core.ShiftRegister
import Cascoin.Core.Radix
import Cascoin.Core.Limbs
import Cascoin.Core.Checked

/-!
# Bech32

`bech32::Encode` writes a human-readable part, a `1` and 5-bit values followed by a checksum
of six, each value a character of `CHARSET`; `bech32::Decode` reads such a text back, in
either case but not in both, and keeps it when its checksum holds. The checksum is the
remainder `PolyMod` of a BCH code over `GF(32)`, computed in a 30-bit register; the register
is linear for exclusive or (`polyModStep_xor`), so the six values that `CreateChecksum` reads
off the register of the message followed by six zeros are the only ones that make
`VerifyChecksum` hold (`VerifyChecksum_append_iff`). From that, `Decode` reads back what
`Encode` writes, and every text it accepts is, in lower case, what `Encode` writes for what
it returns.

`ConvertBits` of `utilstrencodings.h` regroups a string of bits from groups of one width into
groups of another; padded one way and checked the other, it is undone (`convertBits_pad_unpad`).
-/

namespace Cascoin

namespace bech32

/-- `CHARSET`, the Bech32 character set for encoding. -/
def CHARSET : List Char := "qpzry9x8gf2tvdw0s3jn54khce6mua7l".toList

/-- `CHARSET_REV`, the Bech32 character set for decoding: the value of each ASCII character,
in either case, and `-1` for one outside `CHARSET`. -/
def CHARSET_REV : List Int :=
  [-1, -1, -1, -1, -1, -1, -1, -1, -1, -1, -1, -1, -1, -1, -1, -1,
   -1, -1, -1, -1, -1, -1, -1, -1, -1, -1, -1, -1, -1, -1, -1, -1,
   -1, -1, -1, -1, -1, -1, -1, -1, -1, -1, -1, -1, -1, -1, -1, -1,
   15, -1, 10, 17, 21, 20, 26, 30, 7, 5, -1, -1, -1, -1, -1, -1,
   -1, 29, -1, 24, 13, 25, 9, 8, 23, -1, 18, 22, 31, 27, 19, -1,
   1, 0, 3, 16, 11, 28, 12, 14, 6, 4, 2, -1, -1, -1, -1, -1,
   -1, 29, -1, 24, 13, 25, 9, 8, 23, -1, 18, 22, 31, 27, 19, -1,
   1, 0, 3, 16, 11, 28, 12, 14, 6, 4, 2, -1, -1, -1, -1, -1]

/-- One pass of the loop of `PolyMod`: the register `c` of `f(x) mod g(x)` becomes that of
`(f(x) * x + v_i) mod g(x)`, where the coefficient `c0` shifted out adds `c0 * k(x)`,
`k(x) = x^6 mod g(x)`, one generator per bit of `c0`. -/
def polyModStep (c : UInt32) (v_i : UInt8) : UInt32 :=
  let c0 : UInt8 := (c >>> 25).toUInt8
  let c := ((c &&& 0x1ffffff) <<< 5) ^^^ v_i.toUInt32
  let c := if c0 &&& 1 != 0 then c ^^^ 0x3b6a57b2 else c
  let c := if c0 &&& 2 != 0 then c ^^^ 0x26508e6d else c
  let c := if c0 &&& 4 != 0 then c ^^^ 0x1ea119fa else c
  let c := if c0 &&& 8 != 0 then c ^^^ 0x3d4233dd else c
  if c0 &&& 16 != 0 then c ^^^ 0x2a1462b3 else c

/-- `PolyMod(v)`: the register after the values, from `1`, the implicit leading coefficient. -/
def PolyMod (v : List UInt8) : UInt32 := v.foldl polyModStep 1

/-- `LowerCase(c)`. -/
def LowerCase (c : Char) : Char :=
  if 'A' ≤ c ∧ c ≤ 'Z' then Char.ofNat (c.toNat - 'A'.toNat + 'a'.toNat) else c

/-- `ExpandHRP(hrp)`: the high bits of each character, a zero, then the low five bits of
each. -/
def ExpandHRP (hrp : List Char) : List UInt8 :=
  hrp.map (fun (c : Char) => c.toUInt8 >>> 5) ++ [0] ++
    hrp.map (fun (c : Char) => c.toUInt8 &&& 0x1f)

/-- `VerifyChecksum(hrp, values)`: the register of the expanded part and the values is `1`. -/
def VerifyChecksum (hrp : List Char) (values : List UInt8) : Bool :=
  PolyMod (ExpandHRP hrp ++ values) == 1

/-- `CreateChecksum(hrp, values)`: what to put in place of six zeros after the values, read
off the register of the expanded part, the values and the zeros, five bits at a time, the
high bits first. -/
def CreateChecksum (hrp : List Char) (values : List UInt8) : List UInt8 :=
  let enc := ExpandHRP hrp ++ values ++ List.replicate 6 0
  let mod := PolyMod enc ^^^ 1
  (List.range 6).map fun i => ((mod >>> (5 * (5 - i)).toUInt32) &&& 31).toUInt8

/-- `bech32::Encode(hrp, values)`. `CHARSET` is a C string: `CHARSET[32]` reads its
terminating NUL, and a value above 32 reads past it. -/
def Encode {ε : Type} (hrp : List Char) (values : List UInt8) : Checked ε (List Char) := do
  let checksum := CreateChecksum hrp values
  let combined := values ++ checksum
  let chars ← combined.mapM fun c => Checked.get (CHARSET ++ ['\x00']) c.toNat
  return hrp ++ ['1'] ++ chars

/-- The text `Encode` writes when every value has five bits: the part, the separator, and the
character of `CHARSET` for each value and each value of the checksum. -/
def encodedText (hrp : List Char) (values : List UInt8) : List Char :=
  hrp ++ '1' :: (values ++ CreateChecksum hrp values).map fun v => CHARSET.getD v.toNat '\x00'

/-- `str.rfind(c)`: the position of the last `c`. -/
def rfind (str : List Char) (c : Char) : Option ℕ :=
  (str.reverse.idxOf? c).map fun i => str.length - 1 - i

/-- The value `Decode` reads for a character: `-1` outside `33..126`, else `CHARSET_REV`. -/
def charRev (c : Char) : Int :=
  if c.toNat < 33 ∨ c.toNat > 126 then -1 else CHARSET_REV.getD c.toNat (-1)

/-- The loop of `Decode` over the characters after the separator: `none` at the first one
whose value is `-1`. -/
def decodeValues : List Char → Option (List UInt8)
  | [] => some []
  | c :: cs =>
    let rev := charRev c
    if rev = -1 then none else (decodeValues cs).map (rev.toNat.toUInt8 :: ·)

/-- `bech32::Decode(str)`: the human-readable part in lower case and the values without the
checksum, or `{}`, both empty. -/
def Decode (str : List Char) : List Char × List UInt8 :=
  -- the first loop: a character outside `33..126` fails at once
  if str.any (fun c => c.toNat < 33 ∨ c.toNat > 126) then ([], []) else
  let lower := str.any fun c => 'a' ≤ c ∧ c ≤ 'z'
  let upper := str.any fun c => 'A' ≤ c ∧ c ≤ 'Z'
  if lower && upper then ([], []) else
  match rfind str '1' with
  | none => ([], [])
  | some pos =>
    if str.length > 90 ∨ pos = 0 ∨ pos + 7 > str.length then ([], []) else
    match decodeValues (str.drop (pos + 1)) with
    | none => ([], [])
    | some values =>
      let hrp := (str.take pos).map LowerCase
      if !VerifyChecksum hrp values then ([], [])
      else (hrp, values.take (values.length - 6))

/-! ## The checksum register -/

/-- An `if` that adds a generator is the register plus the generator or zero. -/
theorem ite_xor_eq (p : Bool) (c g : UInt32) :
    (if p then c ^^^ g else c) = c ^^^ (if p then g else 0) := by
  cases p <;> simp

theorem and_xor_distrib_right (a b m : UInt32) : (a ^^^ b) &&& m = (a &&& m) ^^^ (b &&& m) :=
  UInt32.toNat_inj.mp (by simp [Nat.and_xor_distrib_right])

/-- The step of the register is linear for exclusive or, in the register and the value. -/
theorem polyModStep_xor (a b : UInt32) (x y : UInt8) :
    polyModStep (a ^^^ b) (x ^^^ y) = polyModStep a x ^^^ polyModStep b y := by
  simp only [polyModStep, ite_xor_eq, and_xor_distrib_right, UInt32.shiftLeft_xor,
    UInt8.toUInt32_xor, UInt32.shiftRight_xor, UInt32.toUInt8_xor,
    ShiftRegister.ite_and_ne_zero_xor (m := 1) (i := 0) rfl,
    ShiftRegister.ite_and_ne_zero_xor (m := 2) (i := 1) rfl,
    ShiftRegister.ite_and_ne_zero_xor (m := 4) (i := 2) rfl,
    ShiftRegister.ite_and_ne_zero_xor (m := 8) (i := 3) rfl,
    ShiftRegister.ite_and_ne_zero_xor (m := 16) (i := 4) rfl]
  ac_rfl

theorem toNat_xor_lt {x y : UInt32} {n : ℕ} (hx : x.toNat < 2 ^ n) (hy : y.toNat < 2 ^ n) :
    (x ^^^ y).toNat < 2 ^ n := by
  rw [UInt32.toNat_xor]
  exact Nat.xor_lt_two_pow hx hy

theorem toNat_ite_lt {p : Bool} {g : UInt32} {n : ℕ} (hg : g.toNat < 2 ^ n) :
    (if p then g else 0).toNat < 2 ^ n := by
  cases p
  · exact Nat.two_pow_pos n
  · exact hg

/-- On a value of five bits, the register keeps thirty bits, whatever it held. -/
theorem polyModStep_lt (c : UInt32) {v : UInt8} (hv : v.toNat < 32) :
    (polyModStep c v).toNat < 2 ^ 30 := by
  simp only [polyModStep, ite_xor_eq]
  have hshift : ((c &&& 0x1ffffff) <<< 5).toNat < 2 ^ 30 := by
    have hmask : (c &&& 0x1ffffff).toNat < 2 ^ 25 := by
      rw [UInt32.toNat_and]
      exact Nat.and_lt_two_pow _ (by decide)
    rw [UInt32.toNat_shiftLeft, show (5 : UInt32).toNat % 32 = 5 from rfl, Nat.shiftLeft_eq]
    calc _ ≤ (c &&& 0x1ffffff).toNat * 2 ^ 5 := Nat.mod_le _ _
      _ < 2 ^ 25 * 2 ^ 5 := Nat.mul_lt_mul_of_pos_right hmask (by norm_num)
      _ = 2 ^ 30 := by norm_num
  have hv' : v.toUInt32.toNat < 2 ^ 30 := by simp; omega
  refine toNat_xor_lt (toNat_xor_lt (toNat_xor_lt (toNat_xor_lt (toNat_xor_lt
    (toNat_xor_lt hshift hv') ?_) ?_) ?_) ?_) ?_ <;> exact toNat_ite_lt (by decide)

/-- Below `2 ^ 25` nothing is shifted out: the register moves up five bits and takes the
value. -/
theorem polyModStep_of_lt {c : UInt32} (hc : c.toNat < 2 ^ 25) (v : UInt8) :
    polyModStep c v = (c <<< 5) ^^^ v.toUInt32 := by
  have hc0 : (c >>> 25).toUInt8 = 0 := by
    apply UInt8.toNat_inj.mp
    rw [UInt32.toNat_toUInt8, UInt32.toNat_shiftRight, show (25 : UInt32).toNat % 32 = 25 from rfl,
      Nat.shiftRight_eq_div_pow, Nat.div_eq_of_lt hc]
    rfl
  have hmask : c &&& 0x1ffffff = c := by
    apply UInt32.toNat_inj.mp
    rw [UInt32.toNat_and, show (0x1ffffff : UInt32).toNat = 2 ^ 25 - 1 from rfl,
      Nat.and_two_pow_sub_one_eq_mod, Nat.mod_eq_of_lt hc]
  simp only [polyModStep, hc0, hmask]
  rfl

/-- From zero, six values or fewer of five bits fill the register with their bits, the first
value highest. -/
theorem toNat_foldl_polyModStep_zero {cs : List UInt8} (hlen : cs.length ≤ 6)
    (hcs : ∀ x ∈ cs, x.toNat < 32) :
    (cs.foldl polyModStep 0).toNat = Nat.ofDigits 32 (cs.map UInt8.toNat).reverse := by
  induction cs using List.reverseRecOn with
  | nil => rfl
  | append_singleton l x ih =>
    have hl : l.length ≤ 5 := by simp at hlen; omega
    have hlx : ∀ y ∈ l, y.toNat < 32 := fun y hy => hcs y (List.mem_append_left _ hy)
    have hx : x.toNat < 32 := hcs x (by simp)
    have hval := ih (by omega) hlx
    -- the register of the first values is below `32 ^ 5 = 2 ^ 25`
    have hlt : (l.foldl polyModStep 0).toNat < 2 ^ 25 := by
      rw [hval]
      calc Nat.ofDigits 32 (l.map UInt8.toNat).reverse < 32 ^ (l.map UInt8.toNat).reverse.length :=
            Nat.ofDigits_lt_base_pow_length (by norm_num) (by simpa using hlx)
        _ ≤ 2 ^ 25 := by
          rw [List.length_reverse, List.length_map, show (32 : ℕ) = 2 ^ 5 by rfl, ← pow_mul]
          exact Nat.pow_le_pow_right (by norm_num) (by omega)
    have hshift : ((l.foldl polyModStep 0) <<< 5).toNat =
        2 ^ 5 * (l.foldl polyModStep 0).toNat := by
      rw [UInt32.toNat_shiftLeft, show (5 : UInt32).toNat % 32 = 5 from rfl, Nat.shiftLeft_eq,
        Nat.mod_eq_of_lt (by omega), Nat.mul_comm]
    rw [List.foldl_append, List.foldl_cons, List.foldl_nil, polyModStep_of_lt hlt,
      UInt32.toNat_xor, hshift, UInt8.toNat_toUInt32, ← ShiftRegister.two_pow_mul_add_eq_xor hx,
      List.map_append, List.reverse_append, List.map_singleton, List.reverse_singleton,
      List.singleton_append, Nat.ofDigits_cons, ← hval]
    ring

/-- The register after six values: that after six zeros plus the six values' own bits. -/
theorem foldl_polyModStep_six (d : UInt32) {cs : List UInt8} (hlen : cs.length = 6) :
    cs.foldl polyModStep d =
      (List.replicate 6 0).foldl polyModStep d ^^^ cs.foldl polyModStep 0 := by
  have hzip : List.zipWith (· ^^^ ·) (List.replicate 6 (0 : UInt8)) cs = cs := by
    apply List.ext_getElem (by simp [hlen])
    intro i _ _
    simp only [List.getElem_zipWith, List.getElem_replicate, UInt8.zero_xor]
  have hlin : (List.zipWith (· ^^^ ·) (List.replicate 6 0) cs).foldl polyModStep (d ^^^ 0) =
      (List.replicate 6 0).foldl polyModStep d ^^^ cs.foldl polyModStep 0 :=
    ShiftRegister.foldl_zipWith_of_step (· ^^^ ·) (· ^^^ ·) polyModStep_xor
      (by rw [List.length_replicate, hlen]) d 0
  rwa [hzip, UInt32.xor_zero] at hlin

/-- The register of a message followed by six zeros keeps thirty bits, whatever the message:
the last step takes a zero. -/
theorem toNat_PolyMod_append_zeros_lt (E : List UInt8) :
    (PolyMod (E ++ List.replicate 6 0)).toNat < 2 ^ 30 := by
  rw [PolyMod, show List.replicate 6 (0 : UInt8) = List.replicate 5 0 ++ [0] from rfl,
    ← List.append_assoc, List.foldl_append, List.foldl_cons, List.foldl_nil]
  exact polyModStep_lt _ (by decide)

theorem xor_eq_one_iff (a b : UInt32) : a ^^^ b = 1 ↔ b = a ^^^ 1 := by
  constructor
  · intro h
    rw [← h, ← UInt32.xor_assoc, UInt32.xor_self, UInt32.zero_xor]
  · intro h
    rw [h, ← UInt32.xor_assoc, UInt32.xor_self, UInt32.zero_xor]

/-- The values `CreateChecksum` writes, most significant last: the register's bits, five at
a time. -/
theorem reverse_map_toNat_CreateChecksum (hrp : List Char) (values : List UInt8) :
    ((CreateChecksum hrp values).map UInt8.toNat).reverse = (List.range 6).map fun j =>
      (PolyMod (ExpandHRP hrp ++ values ++ List.replicate 6 0) ^^^ 1).toNat / 32 ^ j % 32 := by
  apply List.ext_getElem (by simp [CreateChecksum])
  intro j hj _
  have hj6 : j < 6 := by simpa [CreateChecksum] using hj
  simp only [CreateChecksum, List.getElem_reverse, List.getElem_map, List.getElem_range,
    List.length_map, List.length_range]
  have hshift : 5 * (5 - (6 - 1 - j)) = 5 * j := by omega
  rw [UInt32.toNat_toUInt8, UInt32.toNat_and, UInt32.toNat_shiftRight,
    show (31 : UInt32).toNat = 2 ^ 5 - 1 from rfl, Nat.and_two_pow_sub_one_eq_mod,
    Nat.shiftRight_eq_div_pow, UInt32.toNat_ofNat', hshift,
    Nat.mod_eq_of_lt (show 5 * j < 2 ^ 32 by omega), Nat.mod_eq_of_lt (show 5 * j < 32 by omega),
    Nat.mod_eq_of_lt (lt_of_lt_of_le (Nat.mod_lt _ (by norm_num)) (by norm_num)), pow_mul]
  norm_num

/-- Six values of five bits make `VerifyChecksum` hold after a message exactly when they are
the ones `CreateChecksum` writes for it. -/
theorem VerifyChecksum_append_iff (hrp : List Char) (values : List UInt8) {cs : List UInt8}
    (hlen : cs.length = 6) (hcs : ∀ x ∈ cs, x.toNat < 32) :
    VerifyChecksum hrp (values ++ cs) = true ↔ cs = CreateChecksum hrp values := by
  set P := PolyMod (ExpandHRP hrp ++ values ++ List.replicate 6 0) with hP
  have hmod : (P ^^^ 1).toNat < 32 ^ 6 :=
    toNat_xor_lt (toNat_PolyMod_append_zeros_lt _) (by decide)
  have hreg : PolyMod (ExpandHRP hrp ++ (values ++ cs)) = P ^^^ cs.foldl polyModStep 0 := by
    rw [PolyMod, ← List.append_assoc, List.foldl_append, foldl_polyModStep_six _ hlen,
      ← List.foldl_append, hP, PolyMod]
  have hL : ∀ x ∈ (cs.map UInt8.toNat).reverse, x < 32 := by simpa using hcs
  rw [VerifyChecksum, beq_iff_eq, hreg, xor_eq_one_iff, ← UInt32.toNat_inj,
    toNat_foldl_polyModStep_zero (by omega) hcs,
    Radix.ofDigits_eq_iff_eq_map_range (by norm_num) hmod (by simp [hlen]) hL,
    ← reverse_map_toNat_CreateChecksum, List.reverse_inj]
  exact List.map_inj_right (fun _ _ h => UInt8.toNat_inj.mp h)

/-! ## Encoding and decoding -/

/-- Each value of five bits is written as a character that `Decode` reads back as it. -/
theorem charRev_CHARSET : ∀ v < 32, charRev (CHARSET.getD v '\x00') = v := by
  decide +kernel

/-- The characters of `CHARSET` are printable, not upper case, and none is the separator. -/
theorem CHARSET_printable :
    ∀ c ∈ CHARSET, 33 ≤ c.toNat ∧ c.toNat ≤ 126 ∧ ¬('A' ≤ c ∧ c ≤ 'Z') ∧ c ≠ '1' := by
  have h : CHARSET.all (fun c =>
      decide (33 ≤ c.toNat ∧ c.toNat ≤ 126 ∧ ¬('A' ≤ c ∧ c ≤ 'Z') ∧ c ≠ '1')) = true := by
    decide +kernel
  intro c hc
  exact of_decide_eq_true (List.all_eq_true.mp h c hc)

theorem charRev_ofNat : ∀ n < 127, charRev (Char.ofNat n) ≠ -1 →
    0 ≤ charRev (Char.ofNat n) ∧ charRev (Char.ofNat n) < 32 ∧
      CHARSET.getD (charRev (Char.ofNat n)).toNat '\x00' = LowerCase (Char.ofNat n) := by
  decide +kernel

/-- A character with a value has five bits, and is in lower case the character of `CHARSET`
for it. -/
theorem charRev_spec {c : Char} (hc : charRev c ≠ -1) :
    0 ≤ charRev c ∧ charRev c < 32 ∧ CHARSET.getD (charRev c).toNat '\x00' = LowerCase c := by
  have hlt : c.toNat < 127 := by
    by_contra hge
    exact hc (if_pos (Or.inr (by omega)))
  have hspec := charRev_ofNat c.toNat hlt
  rw [Char.ofNat_toNat] at hspec
  exact hspec hc

theorem getD_CHARSET_mem {v : ℕ} (hv : v < 32) : CHARSET.getD v '\x00' ∈ CHARSET := by
  rw [List.getD_eq_getElem _ _ (by rw [show CHARSET.length = 32 from rfl]; exact hv)]
  exact List.getElem_mem _

theorem toNat_CreateChecksum_lt (hrp : List Char) (values : List UInt8) :
    ∀ x ∈ CreateChecksum hrp values, x.toNat < 32 := by
  simp only [CreateChecksum, List.mem_map]
  rintro x ⟨i, -, rfl⟩
  rw [UInt32.toNat_toUInt8, UInt32.toNat_and]
  exact lt_of_le_of_lt (Nat.mod_le _ _) (lt_of_le_of_lt Nat.and_le_right (by decide))

theorem length_CreateChecksum (hrp : List Char) (values : List UInt8) :
    (CreateChecksum hrp values).length = 6 := by
  simp [CreateChecksum]

/-- The loop of `Decode` reads back the characters written for values of five bits. -/
theorem decodeValues_map_CHARSET {vs : List UInt8} (hvs : ∀ v ∈ vs, v.toNat < 32) :
    decodeValues (vs.map fun v => CHARSET.getD v.toNat '\x00') = some vs := by
  induction vs with
  | nil => rfl
  | cons v vs ih =>
    have hv : charRev (CHARSET.getD v.toNat '\x00') = v.toNat :=
      charRev_CHARSET v.toNat (hvs v List.mem_cons_self)
    simp only [List.map_cons, decodeValues, hv, ih (fun x hx => hvs x (List.mem_cons_of_mem v hx))]
    rw [if_neg (by omega)]
    simp

/-- What the loop of `Decode` reads: values of five bits, written back as the characters in
lower case. -/
theorem decodeValues_spec {cs : List Char} {vs : List UInt8} (h : decodeValues cs = some vs) :
    (∀ v ∈ vs, v.toNat < 32) ∧ vs.length = cs.length ∧
      vs.map (fun v => CHARSET.getD v.toNat '\x00') = cs.map LowerCase := by
  induction cs generalizing vs with
  | nil =>
    cases h
    simp
  | cons c cs ih =>
    simp only [decodeValues] at h
    split_ifs at h with hc
    obtain ⟨vs', hvs', rfl⟩ := Option.map_eq_some_iff.mp h
    obtain ⟨hlt', hlen', hmap'⟩ := ih hvs'
    obtain ⟨h0, h32, hchar⟩ := charRev_spec hc
    have hbyte : (charRev c).toNat.toUInt8.toNat = (charRev c).toNat := by
      rw [Nat.toUInt8_eq, UInt8.toNat_ofNat', Nat.mod_eq_of_lt (by omega)]
    refine ⟨?_, by simp [hlen'], ?_⟩
    · intro v hv
      rcases List.mem_cons.mp hv with rfl | hv
      · rw [hbyte]
        omega
      · exact hlt' v hv
    · rw [List.map_cons, List.map_cons, hmap', hbyte, hchar]

/-- The last separator of a text is the one with none after it. -/
theorem rfind_append_cons {l t : List Char} {c : Char} (ht : c ∉ t) :
    rfind (l ++ c :: t) c = some l.length := by
  have hnone : t.reverse.idxOf? c = none := List.idxOf?_eq_none_iff.mpr (by simpa using ht)
  have hidx : (l ++ c :: t).reverse.idxOf? c = some t.length := by
    rw [List.reverse_append, List.reverse_cons, List.append_assoc, List.idxOf?, List.findIdx?_append]
    rw [List.idxOf?] at hnone
    simp [hnone, List.findIdx?_cons]
  rw [rfind, hidx, Option.map_some]
  simp
/-- A text holding a character is cut at its last one. -/
theorem exists_append_cons_not_mem {str : List Char} {c : Char} (h : c ∈ str) :
    ∃ a b, str = a ++ c :: b ∧ c ∉ b := by
  induction str using List.reverseRecOn with
  | nil => simp at h
  | append_singleton init x ih =>
    by_cases hx : x = c
    · exact ⟨init, [], by rw [hx], by simp⟩
    · have hinit : c ∈ init := by
        rcases List.mem_append.mp h with h | h
        · exact h
        · exact absurd (List.mem_singleton.mp h).symm hx
      obtain ⟨a, b, rfl, hb⟩ := ih hinit
      exact ⟨a, b ++ [x], by simp, by simp [hb, Ne.symm hx]⟩
/-- Where `rfind` finds a character, the text is cut there, with none of it after. -/
theorem rfind_eq_some {str : List Char} {c : Char} {pos : ℕ} (h : rfind str c = some pos) :
    str = str.take pos ++ c :: str.drop (pos + 1) ∧ c ∉ str.drop (pos + 1) := by
  have hmem : c ∈ str := by
    by_contra hc
    have hnone : str.reverse.idxOf? c = none := List.idxOf?_eq_none_iff.mpr (by simpa using hc)
    rw [rfind, hnone] at h
    cases h
  obtain ⟨a, b, rfl, hb⟩ := exists_append_cons_not_mem hmem
  rw [rfind_append_cons hb] at h
  cases h
  simp [hb]

/-- A human-readable part `Encode` can write and `Decode` read back: not empty, printable and
not upper case. -/
structure ValidHRP (hrp : List Char) : Prop where
  ne_nil : hrp ≠ []
  printable : ∀ c ∈ hrp, 33 ≤ c.toNat ∧ c.toNat ≤ 126
  not_upper : ∀ c ∈ hrp, ¬('A' ≤ c ∧ c ≤ 'Z')

/-- A part whose characters all pass the check is valid. -/
theorem ValidHRP.of_all {hrp : List Char} (hne : hrp ≠ [])
    (h : hrp.all (fun c => decide (33 ≤ c.toNat ∧ c.toNat ≤ 126 ∧ ¬('A' ≤ c ∧ c ≤ 'Z'))) = true) :
    ValidHRP hrp where
  ne_nil := hne
  printable c hc := (of_decide_eq_true (List.all_eq_true.mp h c hc)).imp_right And.left
  not_upper c hc := (of_decide_eq_true (List.all_eq_true.mp h c hc)).2.2

theorem LowerCase_of_not_upper {c : Char} (hc : ¬('A' ≤ c ∧ c ≤ 'Z')) : LowerCase c = c :=
  if_neg hc


/-- The values `Encode` writes, the checksum after them, have five bits. -/
theorem toNat_lt_of_mem_append_CreateChecksum {hrp : List Char} {values : List UInt8}
    (hvalues : ∀ v ∈ values, v.toNat < 32) :
    ∀ v ∈ values ++ CreateChecksum hrp values, v.toNat < 32 := by
  intro v hv
  rcases List.mem_append.mp hv with hv | hv
  · exact hvalues v hv
  · exact toNat_CreateChecksum_lt hrp values v hv

/-- For values of five bits every read of `CHARSET` is one of its 32 characters, and
`Encode` writes `encodedText`. -/
theorem Encode_eq {ε : Type} {hrp : List Char} {values : List UInt8}
    (hvalues : ∀ v ∈ values, v.toNat < 32) :
    (Encode hrp values : Checked ε (List Char)) = .ok (encodedText hrp values) := by
  have hread : ∀ v ∈ values ++ CreateChecksum hrp values,
      (Checked.get (CHARSET ++ ['\x00']) v.toNat : Checked ε Char) =
        .ok (CHARSET.getD v.toNat '\x00') := by
    intro v hv
    have hlt := toNat_lt_of_mem_append_CreateChecksum hvalues v hv
    have hlen : CHARSET.length = 32 := rfl
    rw [Checked.get_of_lt (by simp [hlen]; omega), List.getElem_append_left (by omega),
      List.getD_eq_getElem _ _ (by omega)]
  simp only [Encode, Checked.mapM_eq_ok hread, Checked.ok_bind, Checked.pure_eq, encodedText,
    List.append_assoc, List.singleton_append]

theorem length_encodedText (hrp : List Char) (values : List UInt8) :
    (encodedText hrp values).length = hrp.length + values.length + 7 := by
  rw [encodedText, List.length_append, List.length_cons, List.length_map, List.length_append,
    length_CreateChecksum]
  omega

/-- The characters `Encode` writes for a valid part and values of five bits are printable and
not upper case. -/
theorem mem_encodedText {hrp : List Char} (hhrp : ValidHRP hrp) {values : List UInt8}
    (hvalues : ∀ v ∈ values, v.toNat < 32) :
    ∀ c ∈ encodedText hrp values, (33 ≤ c.toNat ∧ c.toNat ≤ 126) ∧ ¬('A' ≤ c ∧ c ≤ 'Z') := by
  rw [encodedText]
  intro c hc
  rcases List.mem_append.mp hc with hc | hc
  · exact ⟨hhrp.printable c hc, hhrp.not_upper c hc⟩
  · rcases List.mem_cons.mp hc with rfl | hc
    · decide
    · obtain ⟨v, hv, rfl⟩ := List.mem_map.mp hc
      have hchar := CHARSET_printable _
        (getD_CHARSET_mem (toNat_lt_of_mem_append_CreateChecksum hvalues v hv))
      exact ⟨⟨hchar.1, hchar.2.1⟩, hchar.2.2.1⟩

/-- `Decode` reads back what `Encode` writes for a valid part and values of five bits, up to
90 characters in all. -/
theorem Decode_encodedText {hrp : List Char} (hhrp : ValidHRP hrp) {values : List UInt8}
    (hvalues : ∀ v ∈ values, v.toNat < 32) (hlen : hrp.length + values.length + 7 ≤ 90) :
    Decode (encodedText hrp values) = (hrp, values) := by
  have hchars := mem_encodedText hhrp hvalues
  have hlenE := length_encodedText hrp values
  set T := (values ++ CreateChecksum hrp values).map fun v => CHARSET.getD v.toNat '\x00' with hT
  have hstr : encodedText hrp values = hrp ++ '1' :: T := rfl
  rw [hstr] at hchars hlenE ⊢
  -- the text passes the scan: printable, and never upper case
  have hrange : (hrp ++ '1' :: T).any (fun c => decide (c.toNat < 33 ∨ c.toNat > 126)) = false := by
    rw [List.any_eq_false]
    intro c hc
    have := (hchars c hc).1
    simp only [decide_eq_true_eq]
    omega
  have hupper : (hrp ++ '1' :: T).any (fun c => decide ('A' ≤ c ∧ c ≤ 'Z')) = false := by
    rw [List.any_eq_false]
    intro c hc
    simpa using (hchars c hc).2
  have hsep : '1' ∉ T := by
    intro h
    obtain ⟨v, hv, hv1⟩ := List.mem_map.mp h
    exact (CHARSET_printable _ (getD_CHARSET_mem
      (toNat_lt_of_mem_append_CreateChecksum hvalues v hv))).2.2.2 hv1
  have hpos : ¬((hrp ++ '1' :: T).length > 90 ∨ hrp.length = 0 ∨
      hrp.length + 7 > (hrp ++ '1' :: T).length) := by
    have := List.length_pos_iff.mpr hhrp.ne_nil
    omega
  have hverify : VerifyChecksum hrp (values ++ CreateChecksum hrp values) = true :=
    (VerifyChecksum_append_iff hrp values (length_CreateChecksum hrp values)
      (toNat_CreateChecksum_lt hrp values)).mpr rfl
  have hlower : hrp.map LowerCase = hrp :=
    (List.map_congr_left (g := id) fun c hc => LowerCase_of_not_upper (hhrp.not_upper c hc)).trans
      (List.map_id hrp)
  have hdrop : (hrp ++ '1' :: T).drop (hrp.length + 1) = T := by simp
  have htake : (hrp ++ '1' :: T).take hrp.length = hrp := by simp
  simp only [Decode, hrange, hupper, Bool.and_false, Bool.false_eq_true, if_false,
    rfind_append_cons hsep, if_neg hpos, hdrop]
  rw [decodeValues_map_CHARSET (toNat_lt_of_mem_append_CreateChecksum hvalues)]
  simp only [htake, hlower, hverify, Bool.not_true, Bool.false_eq_true, if_false]
  rw [List.length_append, length_CreateChecksum, Nat.add_sub_cancel, List.take_left' rfl]

/-- Every text `Decode` accepts is, in lower case, what `Encode` writes for the part and the
values it returns: the checksum it checked is the one `CreateChecksum` makes. -/
theorem Encode_Decode {ε : Type} {str hrp : List Char} {data : List UInt8}
    (h : Decode str = (hrp, data)) (hne : hrp ≠ []) :
    (Encode hrp data : Checked ε (List Char)) = .ok (str.map LowerCase) := by
  have hfail : ([], []) ≠ (hrp, data) := fun h' => hne (Prod.mk.inj h').1.symm
  simp only [Decode] at h
  split at h
  · exact absurd h hfail
  split at h
  · exact absurd h hfail
  split at h
  · exact absurd h hfail
  rename_i pos hpos
  split at h
  · exact absurd h hfail
  rename_i hlen
  split at h
  · exact absurd h hfail
  rename_i values hvals
  split at h
  · exact absurd h hfail
  rename_i hverify
  obtain ⟨rfl, rfl⟩ := Prod.mk.inj h
  obtain ⟨hsplit, -⟩ := rfind_eq_some hpos
  obtain ⟨hlt, hvlen, hmap⟩ := decodeValues_spec hvals
  -- the last six values are the checksum, and the only one that holds
  have hcs_len : (values.drop (values.length - 6)).length = 6 := by
    rw [List.length_drop, hvlen, List.length_drop]
    omega
  have hcs : values.drop (values.length - 6) =
      CreateChecksum ((str.take pos).map LowerCase) (values.take (values.length - 6)) := by
    refine (VerifyChecksum_append_iff _ _ hcs_len
      (fun x hx => hlt x (List.mem_of_mem_drop hx))).mp ?_
    rw [List.take_append_drop]
    simpa using hverify
  rw [Encode_eq fun v hv => hlt v (List.mem_of_mem_take hv), encodedText, ← hcs,
    List.take_append_drop, hmap]
  conv_rhs => rw [hsplit]
  rw [List.map_append, List.map_cons]
  rfl

theorem Encode_Decode_a12uel5l : Decode "A12UEL5L".toList = ("a".toList, []) ∧
    (Encode "a".toList [] : Checked Unit (List Char)) = .ok ("A12UEL5L".toList.map LowerCase) :=
  ⟨by decide +kernel, Encode_Decode (by decide +kernel) (by decide)⟩

end bech32

/-! ## `ConvertBits` -/

/-- The inner loop of `ConvertBits`: while `bits >= tobits`, `bits -= tobits` and the group of
`tobits` bits of `acc` below its top `bits` is written. -/
def convertBitsEmit (tobits : ℕ) [NeZero tobits] (acc bits : ℕ) (out : List UInt8) :
    List UInt8 × ℕ :=
  if tobits ≤ bits then
    convertBitsEmit tobits acc (bits - tobits)
      (out ++ [UInt8.ofNat ((acc >>> (bits - tobits)) &&& ((1 <<< tobits) - 1))])
  else (out, bits)
termination_by bits
decreasing_by have := NeZero.pos tobits; omega

/-- The outer loop of `ConvertBits`: each input value goes into `acc`, cut to its low
`frombits + tobits - 1` bits, and the groups it completes are written. -/
def convertBitsLoop (frombits tobits : ℕ) [NeZero tobits] :
    List UInt8 → ℕ → ℕ → List UInt8 → List UInt8 × ℕ × ℕ
  | [], acc, bits, out => (out, acc, bits)
  | x :: it, acc, bits, out =>
    let acc := ((acc <<< frombits) ||| x.toNat) &&& ((1 <<< (frombits + tobits - 1)) - 1)
    let emitted := convertBitsEmit tobits acc (bits + frombits) out
    convertBitsLoop frombits tobits it acc emitted.2 emitted.1

/-- `ConvertBits<frombits, tobits, pad>(out, it, end)`: what it returns, and `out` with the
groups appended. The template's `tobits` is never zero. -/
def ConvertBits (frombits tobits : ℕ) [NeZero tobits] (pad : Bool) (out input : List UInt8) :
    Bool × List UInt8 :=
  let (out, acc, bits) := convertBitsLoop frombits tobits input 0 0 out
  let maxv := (1 <<< tobits) - 1
  if pad then
    (true, if bits ≠ 0 then out ++ [UInt8.ofNat ((acc <<< (tobits - bits)) &&& maxv)] else out)
  else if bits ≥ frombits ∨ (acc <<< (tobits - bits)) &&& maxv ≠ 0 then (false, out)
  else (true, out)

/-- The number a string of `w`-bit groups writes, the first group most significant. -/
def groupsValue (w : ℕ) (l : List UInt8) : ℕ :=
  Nat.ofDigits (2 ^ w) (l.map UInt8.toNat).reverse

theorem groupsValue_append (w : ℕ) (l₁ l₂ : List UInt8) :
    groupsValue w (l₁ ++ l₂) = groupsValue w l₁ * 2 ^ (w * l₂.length) + groupsValue w l₂ := by
  rw [groupsValue, List.map_append, List.reverse_append, Nat.ofDigits_append, List.length_reverse,
    List.length_map, ← pow_mul]
  simp only [groupsValue]
  ring

theorem groupsValue_singleton (w : ℕ) (x : UInt8) : groupsValue w [x] = x.toNat := by
  simp [groupsValue]

/-- Strings of groups of one length and width are equal when they write one number. -/
theorem groupsValue_inj {w : ℕ} (hw : 0 < w) {l₁ l₂ : List UInt8}
    (hlen : l₁.length = l₂.length) (h₁ : ∀ x ∈ l₁, x.toNat < 2 ^ w)
    (h₂ : ∀ x ∈ l₂, x.toNat < 2 ^ w) (h : groupsValue w l₁ = groupsValue w l₂) : l₁ = l₂ := by
  have hrev := Nat.ofDigits_inj_of_len_eq (Nat.one_lt_two_pow (by omega)) (by simp [hlen])
    (by simpa using h₁) (by simpa using h₂) h
  rw [List.reverse_inj] at hrev
  exact (List.map_inj_right fun _ _ e => UInt8.toNat_inj.mp e).mp hrev

/-- The bits the loops have read and written: the groups written and the low `bits` bits of
`acc` are the input read, with fewer than `tobits` bits waiting. -/
structure ConvertBitsInv (frombits tobits : ℕ) (xs ys : List UInt8) (acc bits : ℕ) : Prop where
  bits_lt : bits < tobits
  value_eq : groupsValue frombits xs = groupsValue tobits ys * 2 ^ bits + acc % 2 ^ bits
  length_eq : xs.length * frombits = ys.length * tobits + bits
  group_lt : ∀ y ∈ ys, y.toNat < 2 ^ tobits

section ConvertBits

variable {frombits tobits : ℕ}

/-- A group of `w ≤ 8` bits cut by `maxv` is stored in a byte as it is. -/
theorem toNat_ofNat_and_maxv {w : ℕ} (hw : w ≤ 8) (n : ℕ) :
    (UInt8.ofNat (n &&& ((1 <<< w) - 1))).toNat = n % 2 ^ w := by
  rw [Nat.one_shiftLeft, Nat.and_two_pow_sub_one_eq_mod]
  apply UInt8.toNat_ofNat_of_lt'
  exact lt_of_lt_of_le (Nat.mod_lt _ (Nat.two_pow_pos w))
    (Nat.pow_le_pow_right Nat.two_pos hw)

/-- The inner loop writes the groups of `tobits` bits of the low `bits` bits of `acc`, the
highest first, and leaves fewer than `tobits` bits. -/
theorem convertBitsEmit_spec [NeZero tobits] (h8 : tobits ≤ 8) (acc : ℕ) :
    ∀ bits out, ∃ gs r, convertBitsEmit tobits acc bits out = (out ++ gs, r) ∧ r < tobits ∧
      gs.length * tobits + r = bits ∧
      groupsValue tobits gs * 2 ^ r + acc % 2 ^ r = acc % 2 ^ bits ∧
      ∀ g ∈ gs, g.toNat < 2 ^ tobits := by
  intro bits
  induction bits using Nat.strong_induction_on with
  | _ bits ih =>
    intro out
    rw [convertBitsEmit]
    split_ifs with hle
    · set g := UInt8.ofNat ((acc >>> (bits - tobits)) &&& ((1 <<< tobits) - 1)) with hg
      have hgval : g.toNat = acc / 2 ^ (bits - tobits) % 2 ^ tobits := by
        rw [hg, toNat_ofNat_and_maxv h8, Nat.shiftRight_eq_div_pow]
      obtain ⟨gs, r, heq, hr, hlen, hval, hlt⟩ :=
        ih (bits - tobits) (Nat.sub_lt (by have := NeZero.pos tobits; omega) (NeZero.pos tobits))
          (out ++ [g])
      refine ⟨g :: gs, r, by rw [heq, List.append_assoc, List.singleton_append], hr, ?_, ?_, ?_⟩
      · rw [List.length_cons, Nat.succ_mul]
        omega
      · -- the group written is the bits of `acc` just below the top `bits`
        have hsplit : acc % 2 ^ bits =
            acc % 2 ^ (bits - tobits) + 2 ^ (bits - tobits) * (acc / 2 ^ (bits - tobits) % 2 ^ tobits) := by
          rw [← Nat.mod_mul, ← pow_add, Nat.sub_add_cancel hle]
        rw [← List.singleton_append, groupsValue_append, groupsValue_singleton, hsplit, ← hval,
          hgval, ← hlen]
        ring
      · intro y hy
        rcases List.mem_cons.mp hy with rfl | hy
        · rw [hgval]
          exact Nat.mod_lt _ (Nat.two_pow_pos _)
        · exact hlt y hy
    · exact ⟨[], bits, by simp, by omega, by simp, by simp [groupsValue], by simp⟩

/-- The loops start from nothing read and nothing written. -/
theorem ConvertBitsInv.start [NeZero tobits] : ConvertBitsInv frombits tobits [] [] 0 0 :=
  ⟨NeZero.pos tobits, by simp [groupsValue], by simp, by simp⟩

/-- One input value: `acc` takes its bits below its own, cut to `frombits + tobits - 1` bits,
which hold the bits waiting and the new ones, and the inner loop writes what it completes. -/
theorem ConvertBitsInv.step [NeZero tobits] (h8 : tobits ≤ 8) {xs ys : List UInt8}
    {acc bits : ℕ} (hinv : ConvertBitsInv frombits tobits xs ys acc bits) {x : UInt8}
    (hx : x.toNat < 2 ^ frombits) (out : List UInt8) :
    let acc' := ((acc <<< frombits) ||| x.toNat) &&& ((1 <<< (frombits + tobits - 1)) - 1)
    ∃ ys' bits', convertBitsEmit tobits acc' (bits + frombits) (out ++ ys) = (out ++ ys', bits') ∧
      ConvertBitsInv frombits tobits (xs ++ [x]) ys' acc' bits' := by
  intro acc'
  have hbits := hinv.bits_lt
  have hacc' : acc' = (2 ^ frombits * acc + x.toNat) % 2 ^ (frombits + tobits - 1) := by
    simp only [acc']
    rw [← Nat.shiftLeft_add_eq_or_of_lt hx, Nat.one_shiftLeft, Nat.and_two_pow_sub_one_eq_mod,
      Nat.shiftLeft_eq, Nat.mul_comm]
  -- the bits waiting and the new value fit in what is kept of `acc`
  have hlow : ∀ k ≤ bits + frombits, acc' % 2 ^ k = (2 ^ frombits * acc + x.toNat) % 2 ^ k := by
    intro k hk
    rw [hacc', Nat.mod_mod_of_dvd _ (Nat.pow_dvd_pow 2 (by omega))]
  have hwait : acc' % 2 ^ (bits + frombits) = acc % 2 ^ bits * 2 ^ frombits + x.toNat := by
    rw [hlow _ le_rfl, Nat.add_comm, pow_add, Nat.mul_comm (2 ^ bits), ←
      Limbs.add_mul_mod_mul hx]
    ring
  obtain ⟨gs, r, heq, hr, hlen, hval, hlt⟩ := convertBitsEmit_spec h8 acc' (bits + frombits) (out ++ ys)
  refine ⟨ys ++ gs, r, by rw [heq, List.append_assoc], hr, ?_, ?_, ?_⟩
  · calc groupsValue frombits (xs ++ [x])
        = groupsValue frombits xs * 2 ^ frombits + x.toNat := by
          rw [groupsValue_append, groupsValue_singleton, List.length_singleton, Nat.mul_one]
      _ = groupsValue tobits ys * 2 ^ (bits + frombits) + (acc % 2 ^ bits * 2 ^ frombits + x.toNat) := by
          rw [hinv.value_eq]
          ring
      _ = groupsValue tobits ys * 2 ^ (gs.length * tobits + r) + (groupsValue tobits gs * 2 ^ r + acc' % 2 ^ r) := by
          rw [← hwait, hval, hlen]
      _ = groupsValue tobits (ys ++ gs) * 2 ^ r + acc' % 2 ^ r := by
          rw [groupsValue_append]
          ring
  · rw [List.length_append, List.length_append, List.length_singleton, Nat.add_mul, Nat.add_mul,
      hinv.length_eq]
    omega
  · intro y hy
    rcases List.mem_append.mp hy with hy | hy
    · exact hinv.group_lt y hy
    · exact hlt y hy

/-- The outer loop over the rest of the input keeps the invariant. -/
theorem convertBitsLoop_spec [NeZero tobits] (h8 : tobits ≤ 8) (out : List UInt8) :
    ∀ (rest xs ys : List UInt8) (acc bits : ℕ), ConvertBitsInv frombits tobits xs ys acc bits →
      (∀ x ∈ rest, x.toNat < 2 ^ frombits) → ∃ ys' acc' bits',
        convertBitsLoop frombits tobits rest acc bits (out ++ ys) = (out ++ ys', acc', bits') ∧
        ConvertBitsInv frombits tobits (xs ++ rest) ys' acc' bits'
  | [], xs, ys, acc, bits, hinv, _ => ⟨ys, acc, bits, rfl, by rwa [List.append_nil]⟩
  | x :: rest, xs, ys, acc, bits, hinv, hrest => by
    obtain ⟨ys', bits', heq, hinv'⟩ := hinv.step h8 (hrest x List.mem_cons_self) out
    obtain ⟨ys'', acc'', bits'', heq', hinv''⟩ := convertBitsLoop_spec h8 out rest _ _ _ _ hinv'
      (fun y hy => hrest y (List.mem_cons_of_mem x hy))
    refine ⟨ys'', acc'', bits'', ?_, by rwa [List.append_assoc, List.singleton_append] at hinv''⟩
    rw [convertBitsLoop, heq]
    exact heq'

/-- The last group, padded with zeros: the `bits` bits waiting, moved to the top. -/
theorem shiftLeft_and_maxv {w bits : ℕ} (hbits : bits ≤ w) (acc : ℕ) :
    (acc <<< (w - bits)) &&& ((1 <<< w) - 1) = acc % 2 ^ bits * 2 ^ (w - bits) := by
  have hw : 2 ^ w = 2 ^ bits * 2 ^ (w - bits) := by rw [← pow_add, Nat.add_sub_cancel' hbits]
  rw [Nat.one_shiftLeft, Nat.and_two_pow_sub_one_eq_mod, Nat.shiftLeft_eq, hw,
    Nat.mul_mod_mul_right]

theorem mod_two_pow_mul_lt {w bits : ℕ} (hbits : bits ≤ w) (acc : ℕ) :
    acc % 2 ^ bits * 2 ^ (w - bits) < 2 ^ w := by
  calc acc % 2 ^ bits * 2 ^ (w - bits) < 2 ^ bits * 2 ^ (w - bits) :=
        Nat.mul_lt_mul_of_pos_right (Nat.mod_lt _ (Nat.two_pow_pos _)) (Nat.two_pow_pos _)
    _ = 2 ^ w := by rw [← pow_add, Nat.add_sub_cancel' hbits]

/-- Padded, `ConvertBits` writes the input's bits and fewer than `tobits` zeros. -/
theorem ConvertBits_pad_spec [NeZero tobits] (h8 : tobits ≤ 8) {xs : List UInt8}
    (hxs : ∀ x ∈ xs, x.toNat < 2 ^ frombits) (out : List UInt8) :
    ∃ ys P, ConvertBits frombits tobits true out xs = (true, out ++ ys) ∧ P < tobits ∧
      groupsValue tobits ys = groupsValue frombits xs * 2 ^ P ∧
      ys.length * tobits = xs.length * frombits + P ∧ ∀ y ∈ ys, y.toNat < 2 ^ tobits := by
  obtain ⟨ys, acc, bits, heq, hinv⟩ :=
    convertBitsLoop_spec h8 out xs [] [] 0 0 ConvertBitsInv.start hxs
  rw [List.append_nil] at heq
  rw [List.nil_append] at hinv
  have hval := hinv.value_eq
  have hlen := hinv.length_eq
  by_cases hb : bits = 0
  · refine ⟨ys, 0, ?_, NeZero.pos tobits, ?_, ?_, hinv.group_lt⟩
    · simp only [ConvertBits, heq, hb]
      simp
    · rw [hval, hb]
      simp [Nat.mod_one]
    · omega
  · have hlt := hinv.bits_lt
    set last := UInt8.ofNat ((acc <<< (tobits - bits)) &&& ((1 <<< tobits) - 1)) with hlast
    have hlastval : last.toNat = acc % 2 ^ bits * 2 ^ (tobits - bits) := by
      rw [hlast, shiftLeft_and_maxv hlt.le]
      exact UInt8.toNat_ofNat_of_lt' (lt_of_lt_of_le (mod_two_pow_mul_lt hlt.le acc)
        (Nat.pow_le_pow_right Nat.two_pos h8))
    refine ⟨ys ++ [last], tobits - bits, ?_, by omega, ?_, ?_, ?_⟩
    · simp only [ConvertBits, heq, if_true, if_pos hb, List.append_assoc, hlast]
    · have ht : 2 ^ tobits = 2 ^ bits * 2 ^ (tobits - bits) := by
        rw [← pow_add, Nat.add_sub_cancel' hlt.le]
      rw [groupsValue_append, groupsValue_singleton, hlastval, hval, List.length_singleton,
        Nat.mul_one, ht]
      ring
    · rw [List.length_append, List.length_singleton, Nat.add_mul, Nat.one_mul]
      omega
    · intro y hy
      rcases List.mem_append.mp hy with hy | hy
      · exact hinv.group_lt y hy
      · rw [List.mem_singleton.mp hy, hlastval]
        exact mod_two_pow_mul_lt hlt.le acc

/-- Regrouped with padding into groups no wider, and back without, a string of bits is
unchanged: the padding is fewer bits than a group and all zeros, which the check accepts. -/
theorem convertBits_pad_unpad [NeZero frombits] [NeZero tobits] (hle : tobits ≤ frombits)
    (h8 : frombits ≤ 8) {xs : List UInt8} (hxs : ∀ x ∈ xs, x.toNat < 2 ^ frombits)
    (out : List UInt8) :
    ∃ ys, ConvertBits frombits tobits true out xs = (true, out ++ ys) ∧
      (∀ y ∈ ys, y.toNat < 2 ^ tobits) ∧ xs.length * frombits ≤ ys.length * tobits ∧
      ys.length * tobits < xs.length * frombits + tobits ∧
      ConvertBits tobits frombits false [] ys = (true, xs) := by
  obtain ⟨ys, P, hpad, hP, hval, hlen, hys⟩ := ConvertBits_pad_spec (le_trans hle h8) hxs out
  refine ⟨ys, hpad, hys, by omega, by omega, ?_⟩
  obtain ⟨zs, acc, bits, heq, hinv⟩ :=
    convertBitsLoop_spec h8 [] ys [] [] 0 0 ConvertBitsInv.start hys
  simp only [List.nil_append] at heq hinv
  have hbits := hinv.bits_lt
  -- as many groups back as bytes in, and the padding is what waits at the end
  have hsplit : xs.length = zs.length ∧ P = bits := by
    have hsum : P + frombits * xs.length = bits + frombits * zs.length := by
      have := hinv.length_eq
      rw [hlen] at this
      linarith
    exact (Limbs.add_mul_inj (lt_of_lt_of_le hP hle) hbits).mp hsum
  obtain ⟨hlenxz, rfl⟩ := hsplit
  have hvalue : groupsValue frombits xs = groupsValue frombits zs ∧ 0 = acc % 2 ^ P := by
    have hsum : 0 + 2 ^ P * groupsValue frombits xs =
        acc % 2 ^ P + 2 ^ P * groupsValue frombits zs := by
      have := hinv.value_eq
      rw [hval] at this
      linarith
    exact (Limbs.add_mul_inj (Nat.two_pow_pos P) (Nat.mod_lt _ (Nat.two_pow_pos P))).mp hsum
  have hzs : zs = xs := groupsValue_inj (NeZero.pos frombits) hlenxz.symm hinv.group_lt hxs
    hvalue.1.symm
  have hcheck : ¬(P ≥ tobits ∨ (acc <<< (frombits - P)) &&& ((1 <<< frombits) - 1) ≠ 0) := by
    rw [shiftLeft_and_maxv (le_trans hP.le hle), ← hvalue.2, Nat.zero_mul]
    omega
  simp only [ConvertBits, heq, Bool.false_eq_true, if_false, if_neg hcheck, hzs]

end ConvertBits

end Cascoin
