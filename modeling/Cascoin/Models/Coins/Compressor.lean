import Cascoin.Models.Crypto.Secp256k1

/-!
# Compression of coins

The coin database stores every output through `CTxOutCompressor`: the amount by
`CompressAmount`, which strips up to nine trailing decimal zeros and packs the
last digit and the count of zeros into one number, and the script by
`CScriptCompressor`, which writes the five standard forms (pay to key hash, pay to
script hash, pay to a compressed or an uncompressed key) as a size byte and 20 or
32 bytes. An uncompressed key is kept by its `x` and the parity of `y`, and
`Decompress` rebuilds `y` with libsecp256k1.

Up to `MAX_MONEY` the amount comes back and the encoding is one-to-one
(`DecompressAmount_CompressAmount`); every script `Compress` accepts comes back
from its size byte and the bytes after it (`Decompress_Compress`), and the scripts it
accepts are exactly the special forms (`Compress_isSome_iff`).
-/

namespace Cascoin

/-! ## Amounts -/

/-- The loop `while ((n % 10) == 0 && e < 9) { n /= 10; e++; }` of
`CompressAmount`, from the amount and `e`, as `(n, e)`; `fuel` is how many more
zeros `e < 9` lets it strip. -/
def stripZeros : ℕ → ℕ → ℕ → ℕ × ℕ
  | 0, n, e => (n, e)
  | fuel + 1, n, e => if n % 10 = 0 then stripZeros fuel (n / 10) (e + 1) else (n, e)

/-- `CTxOutCompressor::CompressAmount(n)` on `uint64_t`. -/
def CompressAmount {ε : Type} (n : ℕ) : Checked ε ℕ :=
  if n = 0 then .ok 0
  else
    let (n, e) := stripZeros 9 n 0
    if e < 9 then do
      let d := n % 10
      Checked.assert (d ≥ 1 && d ≤ 9)
      return (1 + (n / 10 * 9 + d - 1) * 10 + e) % 2 ^ 64
    else .ok ((1 + (n - 1) * 10 + 9) % 2 ^ 64)

/-- The loop `while (e) { n *= 10; e--; }` of `DecompressAmount`. -/
def timesTen : ℕ → ℕ → ℕ
  | 0, n => n
  | e + 1, n => timesTen e (n * 10 % 2 ^ 64)

/-- `CTxOutCompressor::DecompressAmount(x)`. The mantissa `x * 10 + d` or `x + 1`
is computed from `x ≤ (2^64 - 1) / 10`, where `uint64_t` does not wrap. -/
def DecompressAmount (x : ℕ) : ℕ :=
  if x = 0 then 0
  else
    let e := (x - 1) % 10
    let x := (x - 1) / 10
    let n := if e < 9 then x / 9 * 10 + (x % 9 + 1) else x + 1
    timesTen e n

/-- The loop takes off zeros only: the amount is what is left times ten to the
count, and a last digit left at zero means the loop ran out. -/
theorem stripZeros_spec (fuel : ℕ) : ∀ (n e : ℕ), n ≠ 0 →
    ∃ m k, stripZeros fuel n e = (m, e + k) ∧ n = m * 10 ^ k ∧ k ≤ fuel ∧
      (k < fuel → m % 10 ≠ 0) := by
  induction fuel with
  | zero => exact fun n e _ => ⟨n, 0, rfl, by simp, le_rfl, fun h => absurd h (lt_irrefl 0)⟩
  | succ fuel ih =>
    intro n e hn
    by_cases hzero : n % 10 = 0
    · obtain ⟨m, k, hstrip, hnm, hk, hlast⟩ := ih (n / 10) (e + 1) (by omega)
      refine ⟨m, k + 1, ?_, ?_, by omega, fun hlt => hlast (by omega)⟩
      · rw [stripZeros, if_pos hzero, hstrip, Nat.add_assoc, Nat.add_comm 1 k]
      · rw [pow_succ, ← Nat.mul_assoc, ← hnm]
        omega
    · exact ⟨n, 0, by rw [stripZeros, if_neg hzero, Nat.add_zero], by simp, Nat.zero_le _,
        fun _ => hzero⟩

/-- Without wrapping, the loop multiplies by ten to the count. -/
theorem timesTen_eq : ∀ (e n : ℕ), n * 10 ^ e < 2 ^ 64 → timesTen e n = n * 10 ^ e := by
  intro e
  induction e with
  | zero => exact fun n _ => by simp [timesTen]
  | succ e ih =>
    intro n h
    have hpow : 1 ≤ 10 ^ e := Nat.one_le_pow _ _ (by norm_num)
    have hten : n * 10 < 2 ^ 64 := by
      rw [pow_succ, Nat.mul_comm (10 ^ e) 10, ← Nat.mul_assoc] at h
      exact lt_of_le_of_lt (Nat.le_mul_of_pos_right _ hpow) h
    rw [timesTen, Nat.mod_eq_of_lt hten, ih _ (by rwa [Nat.mul_assoc, ← pow_succ']), Nat.mul_assoc,
      ← pow_succ']

/-- Below `2^60` an amount comes back from its compressed form: the compressed
number does not wrap, nor does the loop that restores the zeros. -/
theorem DecompressAmount_CompressAmount {ε : Type} {n : ℕ} (hn : n < 2 ^ 60) :
    ∃ c, (CompressAmount n : Checked ε ℕ) = .ok c ∧ DecompressAmount c = n := by
  by_cases h0 : n = 0
  · subst h0
    exact ⟨0, rfl, rfl⟩
  obtain ⟨m, k, hstrip, hnm, hk, hlast⟩ := stripZeros_spec 9 n 0 h0
  rw [Nat.zero_add] at hstrip
  have hpow : 1 ≤ 10 ^ k := Nat.one_le_pow _ _ (by norm_num)
  have hmn : m ≤ n := hnm ▸ Nat.le_mul_of_pos_right _ hpow
  have hm0 : m ≠ 0 := by
    rintro rfl
    simp at hnm
    exact h0 hnm
  have hrestore : timesTen k m = n := by
    rw [timesTen_eq _ _ (by rw [← hnm]; omega), hnm]
  by_cases hk9 : k < 9
  · -- the last digit is kept apart from the rest
    have hd := hlast hk9
    refine ⟨1 + (m / 10 * 9 + m % 10 - 1) * 10 + k, ?_, ?_⟩
    · have hassert : (m % 10 ≥ 1 && m % 10 ≤ 9) = true := by
        simp only [Bool.and_eq_true, decide_eq_true_eq]
        omega
      rw [CompressAmount, if_neg h0, hstrip]
      simp only [if_pos hk9, hassert, Checked.assert_true, Checked.ok_bind, Checked.pure_eq]
      rw [Nat.mod_eq_of_lt (by omega)]
    · have he : (1 + (m / 10 * 9 + m % 10 - 1) * 10 + k - 1) % 10 = k := by omega
      have hx : (1 + (m / 10 * 9 + m % 10 - 1) * 10 + k - 1) / 10 = m / 10 * 9 + m % 10 - 1 := by
        omega
      have hmant : (m / 10 * 9 + m % 10 - 1) / 9 * 10 + ((m / 10 * 9 + m % 10 - 1) % 9 + 1) = m := by
        omega
      rw [DecompressAmount, if_neg (by omega)]
      simp only [he, hx, if_pos hk9, hmant, hrestore]
  · -- nine zeros: the rest is kept whole
    have hk9' : k = 9 := by omega
    subst hk9'
    refine ⟨1 + (m - 1) * 10 + 9, ?_, ?_⟩
    · rw [CompressAmount, if_neg h0, hstrip]
      simp only [if_neg hk9]
      rw [Nat.mod_eq_of_lt (by omega)]
    · have he : (1 + (m - 1) * 10 + 9 - 1) % 10 = 9 := by omega
      have hx : (1 + (m - 1) * 10 + 9 - 1) / 10 + 1 = m := by omega
      rw [DecompressAmount, if_neg (by omega)]
      simp only [he, lt_irrefl, if_false, hx, hrestore]

/-! ## Scripts -/

/-- `CScriptCompressor::IsToKeyID`: the hash of
`OP_DUP OP_HASH160 <20 bytes> OP_EQUALVERIFY OP_CHECKSIG`. -/
def IsToKeyID : CScript → Option (List UInt8)
  | op0 :: op1 :: op2 :: rest =>
    if rest.length = 22 ∧ op0 = OP_DUP ∧ op1 = OP_HASH160 ∧ op2 = 20 ∧
        rest.drop 20 = [OP_EQUALVERIFY, OP_CHECKSIG] then some (rest.take 20)
    else none
  | _ => none

/-- `CScriptCompressor::IsToScriptID`: the hash of `OP_HASH160 <20 bytes> OP_EQUAL`. -/
def IsToScriptID : CScript → Option (List UInt8)
  | op0 :: op1 :: rest =>
    if rest.length = 21 ∧ op0 = OP_HASH160 ∧ op1 = 20 ∧ rest.drop 20 = [OP_EQUAL] then
      some (rest.take 20)
    else none
  | _ => none

/-- `CScriptCompressor::IsToPubKey`: the key of `<33 bytes> OP_CHECKSIG` with a
compressed header, or of `<65 bytes> OP_CHECKSIG` with the uncompressed header when
the key is fully valid. -/
def IsToPubKey : CScript → Option (List UInt8)
  | [] => none
  | size :: rest =>
    if rest.length = 34 ∧ size = 33 ∧ rest.drop 33 = [OP_CHECKSIG] ∧
        (rest.head? = some 0x02 ∨ rest.head? = some 0x03) then
      some (CPubKey.ofBytes (rest.take 33))
    else if rest.length = 66 ∧ size = 65 ∧ rest.drop 65 = [OP_CHECKSIG] ∧
        rest.head? = some 0x04 then
      if CPubKey.IsFullyValid (CPubKey.ofBytes (rest.take 65)) then
        some (CPubKey.ofBytes (rest.take 65))
      else none
    else none

/-- `CScriptCompressor::Compress(out)`: the size byte and the hash or the key's `x`;
`none` when it returns false. -/
def CScriptCompressor.Compress (script : CScript) : Option (List UInt8) :=
  match IsToKeyID script, IsToScriptID script, IsToPubKey script with
  | some hash, _, _ => some (0x00 :: hash)
  | none, some hash, _ => some (0x01 :: hash)
  | none, none, some pubkey =>
    let body := (pubkey.drop 1).take 32
    if pubkey.head? = some 0x02 ∨ pubkey.head? = some 0x03 then some (pubkey.getD 0 0 :: body)
    else if pubkey.head? = some 0x04 then
      some ((0x04 ||| (pubkey.getD 64 0 &&& 0x01)) :: body)
    else none
  | none, none, none => none

/-- `CScriptCompressor::GetSpecialSize(nSize)`: the bytes that follow a size byte. -/
def GetSpecialSize (nSize : ℕ) : ℕ :=
  if nSize = 0 ∨ nSize = 1 then 20
  else if nSize = 2 ∨ nSize = 3 ∨ nSize = 4 ∨ nSize = 5 then 32
  else 0

/-- `CScriptCompressor::Decompress(nSize, in)`: the script, `none` when it returns
false. -/
def CScriptCompressor.Decompress {ε : Type} (nSize : ℕ) (input : List UInt8) :
    Checked ε (Option CScript) :=
  match nSize with
  | 0 => do
    let hash ← Checked.slice input 0 20
    return some ([OP_DUP, OP_HASH160, 20] ++ hash ++ [OP_EQUALVERIFY, OP_CHECKSIG])
  | 1 => do
    let hash ← Checked.slice input 0 20
    return some ([OP_HASH160, 20] ++ hash ++ [OP_EQUAL])
  | 2 | 3 => do
    let x ← Checked.slice input 0 32
    return some ([33, UInt8.ofNat nSize] ++ x ++ [OP_CHECKSIG])
  | 4 | 5 => do
    let x ← Checked.slice input 0 32
    match ← CPubKey.Decompress (CPubKey.ofBytes (UInt8.ofNat (nSize - 2) :: x)) with
    | none => return none
    | some pubkey =>
      Checked.assert (pubkey.length == 65)
      return some ([65] ++ pubkey ++ [OP_CHECKSIG])
  | _ => .ok none

/-! ## The script round trip -/

section RoundTrip

variable {ε : Type}

theorem slice_of_length {input : List UInt8} {w : ℕ} (hlen : input.length = w) :
    (Checked.slice input 0 w : Checked ε (List UInt8)) = .ok input := by
  rw [Checked.slice_of_le (Nat.zero_le _) hlen.ge, List.drop_zero, Nat.sub_zero,
    List.take_of_length_le hlen.le]

/-- A list of `n + k` bytes whose last `k` are `tail` is its first `n` and `tail`. -/
theorem eq_take_append_of_drop {rest tail : List UInt8} {n : ℕ} (htail : rest.drop n = tail) :
    rest = rest.take n ++ tail := by
  rw [← htail, List.take_append_drop]

theorem IsToKeyID_eq {script hash : List UInt8} (h : IsToKeyID script = some hash) :
    hash.length = 20 ∧ script = [OP_DUP, OP_HASH160, 20] ++ hash ++ [OP_EQUALVERIFY, OP_CHECKSIG] := by
  match script, h with
  | op0 :: op1 :: op2 :: rest, h =>
    simp only [IsToKeyID] at h
    split_ifs at h with hform
    cases h
    obtain ⟨hlen, rfl, rfl, rfl, htail⟩ := hform
    refine ⟨by simp [hlen], ?_⟩
    conv_lhs => rw [eq_take_append_of_drop htail]
    simp

theorem IsToScriptID_eq {script hash : List UInt8} (h : IsToScriptID script = some hash) :
    hash.length = 20 ∧ script = [OP_HASH160, 20] ++ hash ++ [OP_EQUAL] := by
  match script, h with
  | op0 :: op1 :: rest, h =>
    simp only [IsToScriptID] at h
    split_ifs at h with hform
    cases h
    obtain ⟨hlen, rfl, rfl, htail⟩ := hform
    refine ⟨by simp [hlen], ?_⟩
    conv_lhs => rw [eq_take_append_of_drop htail]
    simp

/-- The two scripts `IsToPubKey` accepts: a compressed key, or an uncompressed key of
a point of the curve. -/
theorem IsToPubKey_eq {script pubkey : List UInt8} (h : IsToPubKey script = some pubkey) :
    (∃ tag x, (tag = 0x02 ∨ tag = 0x03) ∧ x.length = 32 ∧ pubkey = tag :: x ∧
      script = [33, tag] ++ x ++ [OP_CHECKSIG]) ∨
    (∃ x y : ZMod fieldP, y ^ 2 = x ^ 3 + 7 ∧ pubkey = 0x04 :: feGetB32 x ++ feGetB32 y ∧
      script = [65, 0x04] ++ feGetB32 x ++ feGetB32 y ++ [OP_CHECKSIG]) := by
  cases script with
  | nil => simp [IsToPubKey] at h
  | cons size rest =>
    simp only [IsToPubKey] at h
    split_ifs at h with hcomp huncomp hvalid
    · -- a compressed key: the header gives the 33 bytes their length
      cases h
      obtain ⟨hlen, rfl, htail, htag⟩ := hcomp
      cases rest with
      | nil => simp at htag
      | cons tag x =>
        have htag' : tag = 0x02 ∨ tag = 0x03 := by simpa using htag
        have hx : (x.take 32).length = 32 := by simp at hlen ⊢; omega
        have hkey : CPubKey.ofBytes ((tag :: x).take 33) = tag :: x.take 32 := by
          rcases htag' with rfl | rfl <;> simp [CPubKey.ofBytes, CPubKey.GetLen, hx]
        refine .inl ⟨tag, x.take 32, htag', hx, hkey, ?_⟩
        have htail' : x.drop 32 = [OP_CHECKSIG] := by simpa using htail
        conv_lhs => rw [eq_take_append_of_drop htail']
        simp
    · -- an uncompressed key, which `IsFullyValid` puts on the curve
      cases h
      obtain ⟨hlen, rfl, htail, htag⟩ := huncomp
      cases rest with
      | nil => simp at htag
      | cons tag body =>
        have htag' : tag = 0x04 := by simpa using htag
        subst htag'
        have hbody : (body.take 64).length = 64 := by simp at hlen ⊢; omega
        have hkey : CPubKey.ofBytes ((0x04 :: body).take 65) = 0x04 :: body.take 64 := by
          simp [CPubKey.ofBytes, CPubKey.GetLen, hbody]
        rw [hkey] at hvalid ⊢
        obtain ⟨x, y, hcurve, hxy⟩ := eq_of_IsFullyValid_uncompressed hbody hvalid
        refine .inr ⟨x, y, hcurve, by rw [hxy, List.cons_append], ?_⟩
        have htail' : body.drop 64 = [OP_CHECKSIG] := by simpa using htail
        conv_lhs => rw [eq_take_append_of_drop htail', hxy]
        simp

/-- The size byte of an uncompressed key is `4` or `5` by the parity of `y`, the low
bit of its last byte. -/
theorem uncompressedSize (x y : ZMod fieldP) :
    ((0x04 : UInt8) ||| ((0x04 :: feGetB32 x ++ feGetB32 y).getD 64 0 &&& 0x01)) =
      if feIsOdd y then 0x05 else 0x04 := by
  have hlast : (0x04 :: feGetB32 x ++ feGetB32 y).getD 64 0 = UInt8.ofNat (y.val % 256) := by
    simp [feGetB32, Bytes.leBytes, List.getD_eq_getElem?_getD]
  have hbit : (UInt8.ofNat (y.val % 256) &&& 0x01) = UInt8.ofNat (y.val % 2) := by
    apply UInt8.toNat_inj.mp
    simp [UInt8.toNat_and, Nat.and_one_is_mod]
    omega
  rw [hlast, hbit, feIsOdd]
  by_cases hodd : y.val % 2 = 1
  · simp [hodd]
    rfl
  · have heven : y.val % 2 = 0 := by omega
    simp [heven]

/-- Every script `Compress` accepts comes back from its size byte and the bytes
after it, as many as `GetSpecialSize` says a reader takes. -/
theorem Decompress_Compress {script out : List UInt8}
    (h : CScriptCompressor.Compress script = some out) :
    ∃ nSize rest, out = nSize :: rest ∧ rest.length = GetSpecialSize nSize.toNat ∧
      (CScriptCompressor.Decompress nSize.toNat rest : Checked ε _) = .ok (some script) := by
  unfold CScriptCompressor.Compress at h
  cases hkey : IsToKeyID script with
  | some hash =>
    obtain ⟨hlen, rfl⟩ := IsToKeyID_eq hkey
    simp only [hkey, Option.some.injEq] at h
    subst h
    refine ⟨0x00, hash, rfl, by simp [hlen, GetSpecialSize], ?_⟩
    simp [CScriptCompressor.Decompress, slice_of_length hlen]
  | none =>
    cases hscript : IsToScriptID script with
    | some hash =>
      obtain ⟨hlen, rfl⟩ := IsToScriptID_eq hscript
      simp only [hkey, hscript, Option.some.injEq] at h
      subst h
      refine ⟨0x01, hash, rfl, by simp [hlen, GetSpecialSize], ?_⟩
      simp [CScriptCompressor.Decompress, slice_of_length hlen]
    | none =>
      cases hpub : IsToPubKey script with
      | none => simp [hkey, hscript, hpub] at h
      | some pubkey =>
        simp only [hkey, hscript, hpub] at h
        rcases IsToPubKey_eq hpub with ⟨tag, x, htag, hlen, rfl, rfl⟩ | ⟨x, y, hcurve, rfl, rfl⟩
        · have hhead : (tag :: x).head? = some 0x02 ∨ (tag :: x).head? = some 0x03 := by
            simpa using htag
          rw [if_pos hhead] at h
          cases h
          refine ⟨tag, x, by simp [List.take_of_length_le hlen.le], ?_, ?_⟩
          · rcases htag with rfl | rfl <;> simp [hlen, GetSpecialSize]
          · rcases htag with rfl | rfl <;>
              simp [CScriptCompressor.Decompress, slice_of_length hlen]
        · rw [if_neg (by simp), if_pos (by simp), uncompressedSize] at h
          cases h
          have hx : ((feGetB32 x ++ feGetB32 y).take 32) = feGetB32 x := by simp
          refine ⟨if feIsOdd y then 0x05 else 0x04, feGetB32 x, by simp [hx], ?_, ?_⟩
          · by_cases hodd : feIsOdd y <;> simp [hodd, GetSpecialSize]
          · -- the size byte less two is the compressed header of the same point
            have hdecomp := CPubKey.Decompress_compressedKey (ε := ε) hcurve
            have hkey : ∀ tag : UInt8, tag = (if feIsOdd y then 0x03 else 0x02) →
                CPubKey.ofBytes (tag :: feGetB32 x) = compressedKey x y := by
              rintro tag rfl
              by_cases hodd : feIsOdd y <;> simp [hodd, compressedKey, CPubKey.ofBytes, CPubKey.GetLen]
            cases hodd : feIsOdd y
            · simp [CScriptCompressor.Decompress, List.take_of_length_le]
              rw [hkey 0x02 (by simp [hodd]), hdecomp]
              simp
            · simp [CScriptCompressor.Decompress, List.take_of_length_le]
              rw [hkey 0x03 (by simp [hodd]), hdecomp]
              simp

end RoundTrip

/-! ## The scripts `Compress` accepts -/

/-- The special forms of `CScriptCompressor`: pay to a key hash, pay to a script hash,
pay to a compressed key, and pay to an uncompressed key that is fully valid. -/
inductive CompressibleScript : CScript → Prop where
  | keyID {hash : List UInt8} : hash.length = 20 →
      CompressibleScript ([OP_DUP, OP_HASH160, 20] ++ hash ++ [OP_EQUALVERIFY, OP_CHECKSIG])
  | scriptID {hash : List UInt8} : hash.length = 20 →
      CompressibleScript ([OP_HASH160, 20] ++ hash ++ [OP_EQUAL])
  | compressedPubKey {tag : UInt8} {x : List UInt8} : (tag = 0x02 ∨ tag = 0x03) → x.length = 32 →
      CompressibleScript ([33, tag] ++ x ++ [OP_CHECKSIG])
  | uncompressedPubKey {body : List UInt8} : body.length = 64 →
      CPubKey.IsFullyValid (0x04 :: body) = true →
      CompressibleScript ([65, 0x04] ++ body ++ [OP_CHECKSIG])

section Accepts

variable {hash body x : List UInt8}

/-- `IsToKeyID` reads only scripts of 25 bytes. -/
theorem IsToKeyID_of_length {script : CScript} (h : script.length ≠ 25) : IsToKeyID script = none := by
  match script with
  | [] | [_] | [_, _] => rfl
  | op0 :: op1 :: op2 :: rest =>
    rw [IsToKeyID, if_neg]
    rintro ⟨hlen, -⟩
    simp [hlen] at h

/-- `IsToScriptID` reads only scripts of 23 bytes. -/
theorem IsToScriptID_of_length {script : CScript} (h : script.length ≠ 23) :
    IsToScriptID script = none := by
  match script with
  | [] | [_] => rfl
  | op0 :: op1 :: rest =>
    rw [IsToScriptID, if_neg]
    rintro ⟨hlen, -⟩
    simp [hlen] at h

theorem IsToKeyID_keyID (hlen : hash.length = 20) :
    IsToKeyID ([OP_DUP, OP_HASH160, 20] ++ hash ++ [OP_EQUALVERIFY, OP_CHECKSIG]) = some hash := by
  simp only [List.cons_append, List.nil_append, IsToKeyID, List.take_left' hlen, List.drop_left' hlen]
  simp [hlen]

theorem IsToScriptID_scriptID (hlen : hash.length = 20) :
    IsToScriptID ([OP_HASH160, 20] ++ hash ++ [OP_EQUAL]) = some hash := by
  simp only [List.cons_append, List.nil_append, IsToScriptID, List.take_left' hlen, List.drop_left' hlen]
  simp [hlen]

theorem IsToPubKey_compressed {tag : UInt8} (htag : tag = 0x02 ∨ tag = 0x03) (hlen : x.length = 32) :
    IsToPubKey ([33, tag] ++ x ++ [OP_CHECKSIG]) = some (tag :: x) := by
  have hkey : CPubKey.ofBytes (tag :: x) = tag :: x := by
    rcases htag with rfl | rfl <;> simp [CPubKey.ofBytes, CPubKey.GetLen, hlen]
  have hlen' : (tag :: x).length = 33 := by simp [hlen]
  have hshape : (tag :: (x ++ [OP_CHECKSIG])).length = 34 ∧ (33 : UInt8) = 33 ∧
      (tag :: (x ++ [OP_CHECKSIG])).drop 33 = [OP_CHECKSIG] ∧
      ((tag :: (x ++ [OP_CHECKSIG])).head? = some 0x02 ∨
        (tag :: (x ++ [OP_CHECKSIG])).head? = some 0x03) := by
    refine ⟨by simp [hlen], rfl, List.drop_left' hlen, ?_⟩
    simpa using htag
  simp only [List.cons_append, List.nil_append]
  rw [IsToPubKey, if_pos hshape, ← List.cons_append, List.take_left' hlen', hkey]

theorem IsToPubKey_uncompressed (hlen : body.length = 64)
    (hvalid : CPubKey.IsFullyValid (0x04 :: body) = true) :
    IsToPubKey ([65, 0x04] ++ body ++ [OP_CHECKSIG]) = some (0x04 :: body) := by
  have hkey : CPubKey.ofBytes (0x04 :: body) = 0x04 :: body := by
    simp [CPubKey.ofBytes, CPubKey.GetLen, hlen]
  have hlen' : (0x04 :: body).length = 65 := by simp [hlen]
  have hnot : ¬((0x04 :: (body ++ [OP_CHECKSIG])).length = 34 ∧ (65 : UInt8) = 33 ∧
      (0x04 :: (body ++ [OP_CHECKSIG])).drop 33 = [OP_CHECKSIG] ∧
      ((0x04 :: (body ++ [OP_CHECKSIG])).head? = some 0x02 ∨
        (0x04 :: (body ++ [OP_CHECKSIG])).head? = some 0x03)) := by
    simp [hlen]
  have hshape : (0x04 :: (body ++ [OP_CHECKSIG])).length = 66 ∧ (65 : UInt8) = 65 ∧
      (0x04 :: (body ++ [OP_CHECKSIG])).drop 65 = [OP_CHECKSIG] ∧
      (0x04 :: (body ++ [OP_CHECKSIG])).head? = some 0x04 :=
    ⟨by simp [hlen], rfl, List.drop_left' hlen, rfl⟩
  simp only [List.cons_append, List.nil_append]
  rw [IsToPubKey, if_neg hnot, if_pos hshape, ← List.cons_append, List.take_left' hlen', hkey,
    if_pos hvalid]

/-- `Compress` accepts a script exactly when it has one of the special forms. -/
theorem Compress_isSome_iff {script : CScript} :
    (CScriptCompressor.Compress script).isSome = true ↔ CompressibleScript script := by
  constructor
  · intro h
    unfold CScriptCompressor.Compress at h
    cases hkey : IsToKeyID script with
    | some hash =>
      obtain ⟨hlen, rfl⟩ := IsToKeyID_eq hkey
      exact .keyID hlen
    | none =>
      cases hscript : IsToScriptID script with
      | some hash =>
        obtain ⟨hlen, rfl⟩ := IsToScriptID_eq hscript
        exact .scriptID hlen
      | none =>
        cases hpub : IsToPubKey script with
        | none => simp [hkey, hscript, hpub] at h
        | some pubkey =>
          rcases IsToPubKey_eq hpub with ⟨tag, x, htag, hlen, -, rfl⟩ | ⟨x, y, hcurve, -, rfl⟩
          · exact .compressedPubKey htag hlen
          · rw [List.append_assoc [65, 0x04]]
            exact .uncompressedPubKey (by simp) (IsFullyValid_uncompressed hcurve)
  · intro h
    cases h with
    | @keyID hash hlen =>
      simp only [CScriptCompressor.Compress, IsToKeyID_keyID hlen, Option.isSome_some]
    | @scriptID hash hlen =>
      have hkey : IsToKeyID ([OP_HASH160, 20] ++ hash ++ [OP_EQUAL]) = none :=
        IsToKeyID_of_length (by simp [hlen])
      simp only [CScriptCompressor.Compress, hkey, IsToScriptID_scriptID hlen, Option.isSome_some]
    | @compressedPubKey tag x htag hlen =>
      have hkey : IsToKeyID ([33, tag] ++ x ++ [OP_CHECKSIG]) = none :=
        IsToKeyID_of_length (by simp [hlen])
      have hscript : IsToScriptID ([33, tag] ++ x ++ [OP_CHECKSIG]) = none :=
        IsToScriptID_of_length (by simp [hlen])
      have hhead : (tag :: x).head? = some 0x02 ∨ (tag :: x).head? = some 0x03 := by simpa using htag
      simp only [CScriptCompressor.Compress, hkey, hscript, IsToPubKey_compressed htag hlen, if_pos hhead,
        Option.isSome_some]
    | @uncompressedPubKey body hlen hvalid =>
      have hkey : IsToKeyID ([65, 0x04] ++ body ++ [OP_CHECKSIG]) = none :=
        IsToKeyID_of_length (by simp [hlen])
      have hscript : IsToScriptID ([65, 0x04] ++ body ++ [OP_CHECKSIG]) = none :=
        IsToScriptID_of_length (by simp [hlen])
      have hhead : ¬((0x04 :: body).head? = some 0x02 ∨ (0x04 :: body).head? = some 0x03) := by simp
      have hhead4 : (0x04 :: body).head? = some 0x04 := rfl
      simp only [CScriptCompressor.Compress, hkey, hscript, IsToPubKey_uncompressed hlen hvalid,
        if_neg hhead, if_pos hhead4, Option.isSome_some]

end Accepts

/-! ## Outputs -/

/-- Amounts up to `MAX_MONEY` lie below `2^60`. -/
theorem lt_of_le_MAX_MONEY {n : ℕ} (hn : (n : ℤ) ≤ MAX_MONEY) : n < 2 ^ 60 := by
  have hmax : MAX_MONEY = 840000000000000 := by decide
  omega

/-- `CompressAmount` is one-to-one where it comes back. -/
theorem CompressAmount_injective {ε : Type} {n₁ n₂ c : ℕ} (hn₁ : n₁ < 2 ^ 60) (hn₂ : n₂ < 2 ^ 60)
    (h₁ : (CompressAmount n₁ : Checked ε ℕ) = .ok c) (h₂ : (CompressAmount n₂ : Checked ε ℕ) = .ok c) :
    n₁ = n₂ := by
  obtain ⟨c₁, hc₁, hback₁⟩ := DecompressAmount_CompressAmount (ε := ε) hn₁
  obtain ⟨c₂, hc₂, hback₂⟩ := DecompressAmount_CompressAmount (ε := ε) hn₂
  rw [h₁, Except.ok.injEq] at hc₁
  rw [h₂, Except.ok.injEq] at hc₂
  rw [← hback₁, ← hback₂, ← hc₁, ← hc₂]

/-- `CTxOutCompressor` loses nothing: every amount up to `MAX_MONEY` comes back from
its compressed form, which no other such amount shares; every script `Compress`
accepts comes back from the size byte and the bytes it writes; and `Compress` accepts
exactly the special forms: pay to a key hash, pay to a script hash, and pay to a
compressed or a fully valid uncompressed key. -/
theorem CTxOutCompressor_round_trip {ε : Type} :
    (∀ n : ℕ, (n : ℤ) ≤ MAX_MONEY →
      ∃ c, (CompressAmount n : Checked ε ℕ) = .ok c ∧ DecompressAmount c = n) ∧
    (∀ n₁ n₂ c : ℕ, (n₁ : ℤ) ≤ MAX_MONEY → (n₂ : ℤ) ≤ MAX_MONEY →
      (CompressAmount n₁ : Checked ε ℕ) = .ok c → (CompressAmount n₂ : Checked ε ℕ) = .ok c →
        n₁ = n₂) ∧
    (∀ script out, CScriptCompressor.Compress script = some out →
      ∃ nSize rest, out = nSize :: rest ∧ rest.length = GetSpecialSize nSize.toNat ∧
        (CScriptCompressor.Decompress nSize.toNat rest : Checked ε _) = .ok (some script)) ∧
    (∀ script, (CScriptCompressor.Compress script).isSome = true ↔ CompressibleScript script) := by
  refine ⟨fun n hn => ?_, fun n₁ n₂ c hn₁ hn₂ h₁ h₂ => ?_, fun script out h => ?_, fun script => ?_⟩
  · exact DecompressAmount_CompressAmount (lt_of_le_MAX_MONEY hn)
  · exact CompressAmount_injective (lt_of_le_MAX_MONEY hn₁) (lt_of_le_MAX_MONEY hn₂) h₁ h₂
  · exact Decompress_Compress h
  · exact Compress_isSome_iff

/-- One coin paid to a key hash: the amount and the script both come back. -/
theorem CTxOutCompressor_round_trip_coin :
    ((100000000 : ℕ) : ℤ) ≤ MAX_MONEY ∧
      (∃ c, (@CompressAmount Empty 100000000) = .ok c ∧ DecompressAmount c = 100000000) ∧
      (CScriptCompressor.Compress
        ([OP_DUP, OP_HASH160, 20] ++ List.replicate 20 0 ++ [OP_EQUALVERIFY, OP_CHECKSIG])).isSome = true ∧
      ∃ nSize rest, CScriptCompressor.Compress
          ([OP_DUP, OP_HASH160, 20] ++ List.replicate 20 0 ++ [OP_EQUALVERIFY, OP_CHECKSIG]) =
          some (nSize :: rest) ∧
        (@CScriptCompressor.Decompress Empty nSize.toNat rest) =
          .ok (some ([OP_DUP, OP_HASH160, 20] ++ List.replicate 20 0 ++ [OP_EQUALVERIFY, OP_CHECKSIG])) := by
  have h := @CTxOutCompressor_round_trip Empty
  have hform : CompressibleScript
      ([OP_DUP, OP_HASH160, 20] ++ List.replicate 20 0 ++ [OP_EQUALVERIFY, OP_CHECKSIG]) :=
    .keyID (List.length_replicate)
  have hsome := (h.2.2.2 _).mpr hform
  obtain ⟨out, hout⟩ := Option.isSome_iff_exists.mp hsome
  obtain ⟨nSize, rest, rfl, -, hdec⟩ := h.2.2.1 _ out hout
  exact ⟨by decide, h.1 100000000 (by decide), hsome, nSize, rest, hout, hdec⟩

end Cascoin
