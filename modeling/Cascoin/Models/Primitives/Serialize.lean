import Cascoin.Models.Primitives.Transaction

/-!
# Integer serialisation

The two variable-length integer formats of `serialize.h`, read from a `CDataStream`.
A read returns the value and the bytes after it; `CDataStream::read` throws at the end
of the data, and the readers throw on the encodings they refuse, so every failure is a
thrown `ios_base::failure` (`Checked.raise`).

`WriteCompactSize` writes a size in one byte below 253 and otherwise as a marker byte
and two, four or eight little-endian bytes; `ReadCompactSize` refuses a marker form whose
value a shorter form holds and a size above `MAX_SIZE`. `WriteVarInt` writes a number
in base 128, most significant digit first, with the top bit set on every byte but the
last and one subtracted from every digit but the last, so that each number has one
encoding; `ReadVarInt<I>` reads it into an unsigned `I` of `w` bits and throws when
the value would not fit.

The results are each format's round trip, with the bytes consumed, and that every
accepted byte string is the writer's encoding of the value read
(`ReadCompactSize_canonical`, `ReadVarInt_canonical`).
-/

namespace Cascoin

open Bytes

/-- `MAX_SIZE`. -/
def MAX_SIZE : Nat := 0x02000000

/-! ## Stream reads -/

/-- `ser_readdata8/16/32/64`: `width` bytes of the stream read little-endian, and the
bytes after them. -/
def ser_readdata {ε : Type} (width : Nat) (s : List UInt8) : Checked ε (Nat × List UInt8) :=
  if s.length < width then Checked.raise "CDataStream::read(): end of data"
  else .ok (leValue (s.take width), s.drop width)

/-- `ser_readdata8`. -/
def ser_readdata8 {ε : Type} : List UInt8 → Checked ε (Nat × List UInt8) := ser_readdata 1

/-- `ser_readdata16`. -/
def ser_readdata16 {ε : Type} : List UInt8 → Checked ε (Nat × List UInt8) := ser_readdata 2

/-- `ser_readdata32`. -/
def ser_readdata32 {ε : Type} : List UInt8 → Checked ε (Nat × List UInt8) := ser_readdata 4

/-- `ser_readdata64`. -/
def ser_readdata64 {ε : Type} : List UInt8 → Checked ε (Nat × List UInt8) := ser_readdata 8

/-! ## Compact sizes -/

/-- A marker form of `ReadCompactSize`: the payload read by `readPayload`, refused as
non-canonical below `minValue`, the least value the form is written for. -/
def readCompactPayload {ε : Type} (readPayload : List UInt8 → Checked ε (Nat × List UInt8))
    (minValue : Nat) (s : List UInt8) : Checked ε (Nat × List UInt8) := do
  let (nSizeRet, s) ← readPayload s
  if nSizeRet < minValue then Checked.raise "non-canonical ReadCompactSize()"
  return (nSizeRet, s)

/-- `ReadCompactSize(is)`. -/
def ReadCompactSize {ε : Type} (s : List UInt8) : Checked ε (Nat × List UInt8) := do
  let (chSize, s) ← ser_readdata8 s
  let (nSizeRet, s) ←
    (if chSize < 253 then pure (chSize, s)
      else if chSize = 253 then readCompactPayload ser_readdata16 253 s
      else if chSize = 254 then readCompactPayload ser_readdata32 0x10000 s
      else readCompactPayload ser_readdata64 0x100000000 s)
  if nSizeRet > MAX_SIZE then Checked.raise "ReadCompactSize(): size too large"
  return (nSizeRet, s)

section CompactSize

variable {ε : Type}

theorem ser_readdata_append (bs rest : List UInt8) :
    (ser_readdata bs.length (bs ++ rest) : Checked ε _) = .ok (leValue bs, rest) := by
  simp [ser_readdata]

/-- What a read accepts: `width` bytes storing the value, then the rest. -/
theorem ser_readdata_eq_ok {width v : Nat} {s rest : List UInt8}
    (h : (ser_readdata width s : Checked ε _) = .ok (v, rest)) :
    ∃ bs, s = bs ++ rest ∧ bs.length = width ∧ v = leValue bs := by
  unfold ser_readdata at h
  by_cases hs : s.length < width
  · simp [hs] at h
  · rw [if_neg hs] at h
    simp only [Except.ok.injEq, Prod.mk.injEq] at h
    obtain ⟨rfl, rfl⟩ := h
    exact ⟨s.take width, (List.take_append_drop _ _).symm, by simp; omega, rfl⟩

theorem ser_readdata8_cons (b : UInt8) (s : List UInt8) :
    (ser_readdata8 (b :: s) : Checked ε _) = .ok (b.toNat, s) := by
  unfold ser_readdata8
  simpa using ser_readdata_append (ε := ε) [b] s

/-- A marker form reads back every value it is written for. -/
theorem readCompactPayload_leBytes {width minValue n : Nat} (hlo : minValue ≤ n)
    (hhi : n < 256 ^ width) (rest : List UInt8) :
    (readCompactPayload (ser_readdata width) minValue (leBytes n width ++ rest) : Checked ε _) =
      .ok (n, rest) := by
  have hread := ser_readdata_append (ε := ε) (leBytes n width) rest
  rw [length_leBytes, leValue_leBytes, Nat.mod_eq_of_lt hhi] at hread
  simp [readCompactPayload, hread, Nat.not_lt.mpr hlo]

/-- What a marker form accepts is the payload it writes for a value of its range. -/
theorem readCompactPayload_eq_ok {width minValue n : Nat} {s rest : List UInt8}
    (h : (readCompactPayload (ser_readdata width) minValue s : Checked ε _) = .ok (n, rest)) :
    minValue ≤ n ∧ n < 256 ^ width ∧ s = leBytes n width ++ rest := by
  obtain ⟨⟨v, s'⟩, hread, hnext⟩ := Checked.bind_eq_ok h
  obtain ⟨bs, rfl, hlen, rfl⟩ := ser_readdata_eq_ok hread
  by_cases hv : leValue bs < minValue
  · simp [hv] at hnext
  · simp only [hv, if_false, Checked.pure_eq, Except.ok.injEq, Prod.mk.injEq] at hnext
    obtain ⟨rfl, rfl⟩ := hnext
    refine ⟨Nat.not_lt.mp hv, hlen ▸ leValue_lt bs, ?_⟩
    rw [← hlen, leBytes_leValue]

theorem length_WriteCompactSize (n : Nat) :
    (WriteCompactSize n).length = GetSizeOfCompactSize n := by
  unfold WriteCompactSize GetSizeOfCompactSize
  split_ifs <;> simp

/-- A size up to `MAX_SIZE` reads back from its compact size. -/
theorem ReadCompactSize_WriteCompactSize {n : Nat} (hn : n ≤ MAX_SIZE) (rest : List UInt8) :
    (ReadCompactSize (WriteCompactSize n ++ rest) : Checked ε _) = .ok (n, rest) := by
  have hmax : ¬n > MAX_SIZE := by omega
  unfold WriteCompactSize
  by_cases h1 : n < 253
  · have hb : (UInt8.ofNat n).toNat = n := by
      rw [UInt8.toNat_ofNat']
      omega
    simp [ReadCompactSize, h1, hb, ser_readdata8_cons, hmax]
  · by_cases h2 : n ≤ 0xffff
    · have hpay : (readCompactPayload (ser_readdata 2) 253 (leBytes n 2 ++ rest) : Checked ε _) =
          .ok (n, rest) := readCompactPayload_leBytes (by omega) (by norm_num; omega) rest
      simp [ReadCompactSize, h1, h2, ser_readdata8_cons, ser_readdata16, hpay, hmax]
    · have h3 : n ≤ 0xffffffff := by
        unfold MAX_SIZE at hn
        omega
      have hpay : (readCompactPayload (ser_readdata 4) 0x10000 (leBytes n 4 ++ rest) :
          Checked ε _) = .ok (n, rest) := readCompactPayload_leBytes (by omega) (by norm_num; omega) rest
      simp [ReadCompactSize, h1, h2, h3, ser_readdata8_cons, ser_readdata32, hpay, hmax]

/-- Every byte string `ReadCompactSize` accepts is the compact size of the value it
returns, followed by the rest: a marker form of a value that a shorter form holds is
thrown out, and so is a size above `MAX_SIZE`. -/
theorem ReadCompactSize_canonical {s rest : List UInt8} {n : Nat}
    (h : (ReadCompactSize s : Checked ε _) = .ok (n, rest)) :
    s = WriteCompactSize n ++ rest ∧ n ≤ MAX_SIZE := by
  obtain ⟨⟨ch, s1⟩, h1, h2⟩ := Checked.bind_eq_ok h
  obtain ⟨bs, rfl, hlen, rfl⟩ := ser_readdata_eq_ok h1
  obtain ⟨b, rfl⟩ : ∃ b, bs = [b] := List.length_eq_one_iff.mp hlen
  obtain ⟨⟨v, s2⟩, h3, h4⟩ := Checked.bind_eq_ok h2
  have hv : v ≤ MAX_SIZE ∧ v = n ∧ s2 = rest := by
    by_cases hbig : v > MAX_SIZE
    · simp [hbig] at h4
    · simp only [hbig, if_false, Checked.pure_eq, Except.ok.injEq, Prod.mk.injEq] at h4
      exact ⟨Nat.not_lt.mp hbig, h4⟩
  obtain ⟨hvmax, rfl, rfl⟩ := hv
  refine ⟨?_, hvmax⟩
  have hmax : MAX_SIZE < 0x10000 * 0x10000 := by decide
  simp only [leValue_cons, leValue_nil, Nat.mul_zero, Nat.add_zero] at h3
  -- the marker byte decides the form
  by_cases c1 : b.toNat < 253
  · simp only [c1, ↓reduceIte, Checked.pure_eq, Except.ok.injEq, Prod.mk.injEq] at h3
    obtain ⟨rfl, rfl⟩ := h3
    have hb : UInt8.ofNat b.toNat = b := UInt8.ofNat_toNat
    simp [WriteCompactSize, c1, hb]
  · by_cases c2 : b.toNat = 253
    · simp only [c2, ↓reduceIte] at h3
      obtain ⟨hlo, hhi, rfl⟩ := readCompactPayload_eq_ok h3
      have hb : b = 253 := UInt8.toNat_inj.mp c2
      simp [WriteCompactSize, hb, show ¬v < 253 by omega, show v ≤ 0xffff by omega]
    · by_cases c3 : b.toNat = 254
      · simp only [c3, ↓reduceIte] at h3
        obtain ⟨hlo, hhi, rfl⟩ := readCompactPayload_eq_ok h3
        have hb : b = 254 := UInt8.toNat_inj.mp c3
        simp [WriteCompactSize, hb, show ¬v < 253 by omega, show ¬v ≤ 0xffff by omega,
          show v ≤ 0xffffffff by omega]
      · simp only [c1, c2, c3, ↓reduceIte] at h3
        obtain ⟨hlo, -, -⟩ := readCompactPayload_eq_ok h3
        omega

end CompactSize

/-! ## Variable-length integers -/

/-- `GetSizeOfVarInt(n)`: one byte per base-128 digit. -/
def GetSizeOfVarInt (n : Nat) : Nat :=
  if n ≤ 0x7f then 1 else GetSizeOfVarInt ((n >>> 7) - 1) + 1
termination_by n
decreasing_by
  rw [Nat.shiftRight_eq_div_pow]
  omega

/-- The bytes `WriteVarInt` stores in `tmp`, from `tmp[len]` on: the low seven bits of
`n`, with the top bit set unless `len` is `0`, then those of `(n >> 7) - 1`. -/
def varIntTmp (n len : Nat) : List UInt8 :=
  let byte := UInt8.ofNat ((n &&& 0x7f) ||| (if len ≠ 0 then 0x80 else 0))
  if n ≤ 0x7f then [byte] else byte :: varIntTmp ((n >>> 7) - 1) (len + 1)
termination_by n
decreasing_by
  rw [Nat.shiftRight_eq_div_pow]
  omega

/-- `WriteVarInt(os, n)`: `tmp[len]` down to `tmp[0]`. -/
def WriteVarInt (n : Nat) : List UInt8 := (varIntTmp n 0).reverse

/-- `ReadVarInt<I>`'s loop, for an unsigned `I` of `w` bits, with `n` read so far. The
stream's end is `ser_readdata8`'s throw. -/
def ReadVarIntFrom {ε : Type} (w n : Nat) : List UInt8 → Checked ε (Nat × List UInt8)
  | [] => Checked.raise "CDataStream::read(): end of data"
  | chData :: s =>
    if n > (2 ^ w - 1) >>> 7 then Checked.raise "ReadVarInt(): size too large"
    else
      -- the test above keeps `n << 7` within `I`
      let n := (n <<< 7) ||| (chData &&& 0x7f).toNat
      if chData &&& 0x80 ≠ 0 then
        if n = 2 ^ w - 1 then Checked.raise "ReadVarInt(): size too large"
        else ReadVarIntFrom w (n + 1) s
      else .ok (n, s)

/-- `ReadVarInt<I>(is)` for an unsigned `I` of `w` bits. -/
def ReadVarInt {ε : Type} (w : Nat) (s : List UInt8) : Checked ε (Nat × List UInt8) :=
  ReadVarIntFrom w 0 s

section VarInt

variable {ε : Type}

/-- A byte of `WriteVarInt`: seven bits of `n`, with the top bit when more bytes follow. -/
def varIntByte (n : Nat) (more : Bool) : UInt8 := UInt8.ofNat (n % 128 + if more then 0x80 else 0)

/-- The bytes `WriteVarInt` writes before the last one, for the digits above it: those of
`q`, each with the top bit set. -/
def varIntPrefix (q : Nat) : List UInt8 := (varIntTmp q 1).reverse

theorem lor_0x80_of_lt {x : Nat} (h : x < 0x80) : x ||| 0x80 = x + 0x80 := by
  rw [Nat.lor_comm, show (0x80 : Nat) = 2 ^ 7 * 1 from rfl, ← Nat.two_pow_add_eq_or_of_lt h]
  omega

/-- One round of `WriteVarInt`'s first loop. -/
theorem varIntTmp_eq (n len : Nat) :
    varIntTmp n len = varIntByte n (len != 0) ::
      if n ≤ 0x7f then [] else varIntTmp ((n >>> 7) - 1) (len + 1) := by
  have hlow : n &&& 0x7f = n % 128 := Nat.and_two_pow_sub_one_eq_mod n 7
  have hbyte : UInt8.ofNat ((n &&& 0x7f) ||| (if len ≠ 0 then 0x80 else 0)) =
      varIntByte n (len != 0) := by
    rw [varIntByte, hlow]
    by_cases hlen : len = 0
    · simp [hlen]
    · simp [hlen, lor_0x80_of_lt (Nat.mod_lt n (by decide : 128 > 0))]
  rw [varIntTmp, hbyte]
  split <;> rfl

/-- Only `tmp[0]` lacks the top bit. -/
theorem varIntTmp_succ (n len : Nat) : varIntTmp n (len + 1) = varIntTmp n 1 := by
  induction n using Nat.strongRecOn generalizing len with
  | ind n ih =>
    rw [varIntTmp_eq, varIntTmp_eq n 1]
    by_cases hn : n ≤ 0x7f
    · simp [hn]
    · have hlt : (n >>> 7) - 1 < n := by
        rw [Nat.shiftRight_eq_div_pow]
        omega
      simp [hn, ih _ hlt (len + 1), ih _ hlt 1]

theorem length_varIntTmp (n len : Nat) : (varIntTmp n len).length = GetSizeOfVarInt n := by
  induction n using Nat.strongRecOn generalizing len with
  | ind n ih =>
    rw [varIntTmp_eq, GetSizeOfVarInt]
    by_cases hn : n ≤ 0x7f
    · simp [hn]
    · have hlt : (n >>> 7) - 1 < n := by
        rw [Nat.shiftRight_eq_div_pow]
        omega
      simp [hn, ih _ hlt (len + 1)]

theorem length_WriteVarInt (n : Nat) : (WriteVarInt n).length = GetSizeOfVarInt n := by
  rw [WriteVarInt, List.length_reverse, length_varIntTmp]

/-- `tmp` written from `tmp[len]` down: the digits above `n`'s lowest, then the lowest. -/
theorem reverse_varIntTmp (n len : Nat) :
    (varIntTmp n len).reverse =
      (if n ≤ 0x7f then [] else varIntPrefix ((n >>> 7) - 1)) ++ [varIntByte n (len != 0)] := by
  rw [varIntTmp_eq, List.reverse_cons]
  by_cases hn : n ≤ 0x7f
  · simp [hn]
  · simp [hn, varIntPrefix, varIntTmp_succ]

theorem WriteVarInt_eq (n : Nat) :
    WriteVarInt n =
      (if n ≤ 0x7f then [] else varIntPrefix ((n >>> 7) - 1)) ++ [varIntByte n false] :=
  reverse_varIntTmp n 0

example : WriteVarInt 255 = [0x80, 0x7f] ∧ WriteVarInt 16384 = [0xff, 0x00] := by
  decide +kernel

theorem varIntPrefix_eq (q : Nat) :
    varIntPrefix q =
      (if q ≤ 0x7f then [] else varIntPrefix ((q >>> 7) - 1)) ++ [varIntByte q true] :=
  reverse_varIntTmp q 1

theorem varIntByte_toNat (n : Nat) (more : Bool) :
    (varIntByte n more).toNat = n % 128 + if more then 0x80 else 0 := by
  have hlt := Nat.mod_lt n (by decide : 128 > 0)
  rw [varIntByte, UInt8.toNat_ofNat']
  cases more <;> simp <;> omega

/-- One round of `ReadVarInt`'s loop, on numbers: the value so far shifted by seven bits,
with the byte's low seven bits below. -/
theorem ReadVarIntFrom_cons (w n : Nat) (ch : UInt8) (s : List UInt8) :
    (ReadVarIntFrom w n (ch :: s) : Checked ε _) =
      if n > (2 ^ w - 1) / 128 then Checked.raise "ReadVarInt(): size too large"
      else if 0x80 ≤ ch.toNat then
        if n * 128 + ch.toNat % 128 = 2 ^ w - 1 then Checked.raise "ReadVarInt(): size too large"
        else ReadVarIntFrom w (n * 128 + ch.toNat % 128 + 1) s
      else .ok (n * 128 + ch.toNat % 128, s) := by
  have hshift : (2 ^ w - 1) >>> 7 = (2 ^ w - 1) / 128 := Nat.shiftRight_eq_div_pow _ 7
  have hor : n <<< 7 ||| (ch &&& 0x7f).toNat = n * 128 + ch.toNat % 128 := by
    rw [and_0x7f_toNat, ← Nat.shiftLeft_add_eq_or_of_lt
      (show ch.toNat % 0x80 < 2 ^ 7 from Nat.mod_lt _ (by decide)), Nat.shiftLeft_eq]
  have htop : ch &&& 0x80 ≠ 0 ↔ 0x80 ≤ ch.toNat := by
    rw [ne_eq, and_0x80_eq_zero_iff]
    omega
  simp only [ReadVarIntFrom, hshift, hor]
  by_cases hmore : 0x80 ≤ ch.toNat
  · rw [if_pos (htop.mpr hmore), if_pos hmore]
  · rw [if_neg (mt htop.mp hmore), if_neg hmore]

/-- The bytes before the last read as the number they stand for plus one. -/
theorem ReadVarIntFrom_varIntPrefix {w q : Nat} (hq : q < 2 ^ w - 1) (s : List UInt8) :
    (ReadVarIntFrom w 0 (varIntPrefix q ++ s) : Checked ε _) = ReadVarIntFrom w (q + 1) s := by
  induction q using Nat.strongRecOn generalizing s with
  | ind q ih =>
    have hbyte := varIntByte_toNat q true
    rw [if_pos rfl] at hbyte
    rw [varIntPrefix_eq]
    by_cases hq7 : q ≤ 0x7f
    · -- the top digit: read into the value zero
      rw [if_pos hq7, List.nil_append, List.singleton_append, ReadVarIntFrom_cons, hbyte,
        if_neg (by omega), if_pos (by omega), show 0 * 128 + (q % 128 + 0x80) % 128 = q by omega,
        if_neg (by omega)]
    · -- a lower digit: read after the digits above it, which stand for `q / 128`
      have hlt : (q >>> 7) - 1 < q := by
        rw [Nat.shiftRight_eq_div_pow]
        omega
      have hdiv : (q >>> 7) - 1 + 1 = q / 128 := by
        rw [Nat.shiftRight_eq_div_pow]
        omega
      have hguard : ¬q / 128 > (2 ^ w - 1) / 128 := Nat.not_lt.mpr (Nat.div_le_div_right hq.le)
      rw [if_neg hq7, List.append_assoc, ih _ hlt (by omega), List.singleton_append, hdiv,
        ReadVarIntFrom_cons, hbyte, if_neg hguard, if_pos (by omega),
        show q / 128 * 128 + (q % 128 + 0x80) % 128 = q by omega, if_neg (by omega)]

/-- Every value of an unsigned type of `w` bits reads back from its `WriteVarInt` bytes. -/
theorem ReadVarInt_WriteVarInt {w n : Nat} (hn : n < 2 ^ w) (rest : List UInt8) :
    (ReadVarInt w (WriteVarInt n ++ rest) : Checked ε _) = .ok (n, rest) := by
  have hbyte := varIntByte_toNat n false
  rw [if_neg Bool.false_ne_true, Nat.add_zero] at hbyte
  have hguard : ¬n / 128 > (2 ^ w - 1) / 128 := Nat.not_lt.mpr (Nat.div_le_div_right (by omega))
  rw [ReadVarInt, WriteVarInt_eq]
  by_cases hn7 : n ≤ 0x7f
  · rw [if_pos hn7, List.nil_append, List.singleton_append, ReadVarIntFrom_cons, hbyte,
      if_neg (by omega), if_neg (by omega), show 0 * 128 + n % 128 % 128 = n by omega]
  · have hlt : (n >>> 7) - 1 < 2 ^ w - 1 := by
      rw [Nat.shiftRight_eq_div_pow]
      omega
    have hdiv : (n >>> 7) - 1 + 1 = n / 128 := by
      rw [Nat.shiftRight_eq_div_pow]
      omega
    rw [if_neg hn7, List.append_assoc, ReadVarIntFrom_varIntPrefix hlt, List.singleton_append,
      hdiv, ReadVarIntFrom_cons, hbyte, if_neg hguard, if_neg (by omega),
      show n / 128 * 128 + n % 128 % 128 = n by omega]

/-- What the loop accepts: from the value zero, the encoding of the value it returns; from
the value `q + 1`, the rest of an encoding that the prefix of `q` starts. -/
theorem ReadVarIntFrom_canonical {w : Nat} {s rest : List UInt8} :
    ∀ {acc n : Nat}, (ReadVarIntFrom w acc s : Checked ε _) = .ok (n, rest) →
      (acc = 0 → s = WriteVarInt n ++ rest) ∧
      (∀ q, acc = q + 1 → varIntPrefix q ++ s = WriteVarInt n ++ rest) := by
  induction s with
  | nil =>
    intro acc n h
    simp [ReadVarIntFrom] at h
  | cons ch s ih =>
    intro acc n h
    have hch : ch.toNat < 256 := ch.toNat_lt
    rw [ReadVarIntFrom_cons] at h
    by_cases hguard : acc > (2 ^ w - 1) / 128
    · simp [hguard] at h
    rw [if_neg hguard] at h
    by_cases hmore : 0x80 ≤ ch.toNat
    · -- a byte with more to follow: the value read so far is the prefix's
      rw [if_pos hmore] at h
      by_cases hmax : acc * 128 + ch.toNat % 128 = 2 ^ w - 1
      · simp [hmax] at h
      rw [if_neg hmax] at h
      have hrec := (ih h).2 _ rfl
      have hbyte : varIntByte (acc * 128 + ch.toNat % 128) true = ch := by
        apply UInt8.toNat_inj.mp
        rw [varIntByte_toNat, if_pos rfl]
        omega
      rw [varIntPrefix_eq, hbyte] at hrec
      constructor
      · rintro rfl
        rw [if_pos (by omega), List.nil_append, List.singleton_append] at hrec
        exact hrec
      · rintro q rfl
        have hdiv : ((q + 1) * 128 + ch.toNat % 128) >>> 7 - 1 = q := by
          rw [Nat.shiftRight_eq_div_pow]
          omega
        rw [if_neg (by omega), hdiv, List.append_assoc, List.singleton_append] at hrec
        exact hrec
    · -- the last byte: the value is complete
      rw [if_neg hmore, Except.ok.injEq, Prod.mk.injEq] at h
      obtain ⟨rfl, rfl⟩ := h
      have hbyte : varIntByte (acc * 128 + ch.toNat % 128) false = ch := by
        apply UInt8.toNat_inj.mp
        rw [varIntByte_toNat, if_neg Bool.false_ne_true]
        omega
      rw [WriteVarInt_eq, hbyte]
      constructor
      · rintro rfl
        rw [if_pos (by omega), List.nil_append, List.singleton_append]
      · rintro q rfl
        have hdiv : ((q + 1) * 128 + ch.toNat % 128) >>> 7 - 1 = q := by
          rw [Nat.shiftRight_eq_div_pow]
          omega
        rw [if_neg (by omega), hdiv, List.append_assoc, List.singleton_append]

/-- Every byte string `ReadVarInt<I>` accepts is the `WriteVarInt` encoding of the value
it returns, followed by the rest. -/
theorem ReadVarInt_canonical {w n : Nat} {s rest : List UInt8}
    (h : (ReadVarInt w s : Checked ε _) = .ok (n, rest)) : s = WriteVarInt n ++ rest :=
  (ReadVarIntFrom_canonical h).1 rfl

theorem serialize_integer_codecs {ε : Type} :
    (∀ (n : Nat) (rest : List UInt8), n ≤ MAX_SIZE →
      (ReadCompactSize (WriteCompactSize n ++ rest) : Checked ε _) = .ok (n, rest) ∧
      (WriteCompactSize n).length = GetSizeOfCompactSize n) ∧
    (∀ (s rest : List UInt8) (n : Nat), (ReadCompactSize s : Checked ε _) = .ok (n, rest) →
      s = WriteCompactSize n ++ rest) ∧
    (∀ (w n : Nat) (rest : List UInt8), n < 2 ^ w →
      (ReadVarInt w (WriteVarInt n ++ rest) : Checked ε _) = .ok (n, rest) ∧
      (WriteVarInt n).length = GetSizeOfVarInt n) ∧
    (∀ (w n : Nat) (s rest : List UInt8), (ReadVarInt w s : Checked ε _) = .ok (n, rest) →
      s = WriteVarInt n ++ rest) :=
  ⟨fun n rest hn => ⟨ReadCompactSize_WriteCompactSize hn rest, length_WriteCompactSize n⟩,
    fun _ _ _ h => (ReadCompactSize_canonical h).1,
    fun _ n rest hn => ⟨ReadVarInt_WriteVarInt hn rest, length_WriteVarInt n⟩,
    fun _ _ _ _ h => ReadVarInt_canonical h⟩

end VarInt

end Cascoin
