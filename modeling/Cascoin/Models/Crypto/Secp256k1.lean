import Cascoin.Core.ModPrime
import Cascoin.Models.Rialto.Envelope

/-!
# Public keys on secp256k1

What of libsecp256k1 the key code reads: a field element is a number below the
field prime `fieldP`, read from and written to 32 big-endian bytes
(`feSetB32`, `feGetB32`); `secp256k1_eckey_pubkey_parse` accepts a compressed key
when `x^3 + 7` has a square root, which `secp256k1_fe_sqrt` takes as the
`(p + 1) / 4`-th power, and an uncompressed or hybrid key when the point is on the
curve; `secp256k1_ec_pubkey_serialize` writes the point back, after the
`ARG_CHECK` of `secp256k1_pubkey_load` that aborts on `x = 0`.

`fieldP` is prime by a Pratt certificate (`fieldP_prime`), so `ZMod fieldP` is a
field. Then the square root of `y^2` is `y` or `-y`, and the parity byte picks `y`;
and no point of the curve has `x = 0`, since `7` is no square. So decompressing
the compressed form of any key on the curve gives the key back
(`CPubKey.Decompress_compressed`).
-/

namespace Cascoin

/-! ## The field -/

/-- The field prime of secp256k1. -/
def fieldP : ℕ := 2 ^ 256 - 2 ^ 32 - 977

/-- A Pratt certificate of `fieldP`: each entry's base and the factorization of
the entry less one, its primes certified by earlier entries. -/
def fieldPCertificate : List ModPrime.Entry := [
  ⟨2, 1, []⟩,
  ⟨3, 2, [(2, 1)]⟩,
  ⟨7, 3, [(2, 1), (3, 1)]⟩,
  ⟨5, 2, [(2, 2)]⟩,
  ⟨13441, 11, [(2, 7), (3, 1), (5, 1), (7, 1)]⟩,
  ⟨29, 2, [(2, 2), (7, 1)]⟩,
  ⟨31, 3, [(2, 1), (3, 1), (5, 1)]⟩,
  ⟨11, 2, [(2, 1), (5, 1)]⟩,
  ⟨13, 2, [(2, 2), (3, 1)]⟩,
  ⟨7723, 3, [(2, 1), (3, 3), (11, 1), (13, 1)]⟩,
  ⟨17, 3, [(2, 4)]⟩,
  ⟨443, 2, [(2, 1), (13, 1), (17, 1)]⟩,
  ⟨887, 5, [(2, 1), (443, 1)]⟩,
  ⟨5323, 5, [(2, 1), (3, 1), (887, 1)]⟩,
  ⟨131, 2, [(2, 1), (5, 1), (13, 1)]⟩,
  ⟨2621, 2, [(2, 2), (5, 1), (131, 1)]⟩,
  ⟨24809, 6, [(2, 3), (7, 1), (443, 1)]⟩,
  ⟨97, 5, [(2, 5), (3, 1)]⟩,
  ⟨971, 6, [(2, 1), (5, 1), (97, 1)]⟩,
  ⟨1373, 2, [(2, 2), (7, 3)]⟩,
  ⟨13331831, 13, [(2, 1), (5, 1), (971, 1), (1373, 1)]⟩,
  ⟨173378833005251801, 6, [(2, 3), (5, 2), (2621, 1), (24809, 1), (13331831, 1)]⟩,
  ⟨22149492674086928081353, 5, [(2, 3), (3, 1), (5323, 1), (173378833005251801, 1)]⟩,
  ⟨132896956044521568488119, 6, [(2, 1), (3, 1), (22149492674086928081353, 1)]⟩,
  ⟨271, 6, [(2, 1), (3, 3), (5, 1)]⟩,
  ⟨1627, 3, [(2, 1), (3, 1), (271, 1)]⟩,
  ⟨41, 6, [(2, 3), (5, 1)]⟩,
  ⟨83, 2, [(2, 1), (41, 1)]⟩,
  ⟨2657, 3, [(2, 5), (83, 1)]⟩,
  ⟨67, 2, [(2, 1), (3, 1), (11, 1)]⟩,
  ⟨4423, 3, [(2, 1), (3, 1), (11, 1), (67, 1)]⟩,
  ⟨103, 5, [(2, 1), (3, 1), (17, 1)]⟩,
  ⟨41201, 3, [(2, 4), (5, 2), (103, 1)]⟩,
  ⟨101, 2, [(2, 2), (5, 2)]⟩,
  ⟨239, 7, [(2, 1), (7, 1), (17, 1)]⟩,
  ⟨96557, 2, [(2, 2), (101, 1), (239, 1)]⟩,
  ⟨19, 2, [(2, 1), (3, 2)]⟩,
  ⟨419, 2, [(2, 1), (11, 1), (19, 1)]⟩,
  ⟨20113, 10, [(2, 4), (3, 1), (419, 1)]⟩,
  ⟨1206781, 10, [(2, 2), (3, 1), (5, 1), (20113, 1)]⟩,
  ⟨7240687, 3, [(2, 1), (3, 1), (1206781, 1)]⟩,
  ⟨53, 2, [(2, 2), (13, 1)]⟩,
  ⟨107590001, 3, [(2, 4), (5, 4), (7, 1), (29, 1), (53, 1)]⟩,
  ⟨255515944373312847190720520512484175977, 3,
    [(2, 3), (7, 2), (11, 1), (1627, 1), (2657, 1), (4423, 1), (41201, 1), (96557, 1),
     (7240687, 1), (107590001, 1)]⟩,
  ⟨205115282021455665897114700593932402728804164701536103180137503955397371, 10,
    [(2, 1), (3, 1), (5, 1), (29, 2), (31, 1), (7723, 1), (132896956044521568488119, 1),
     (255515944373312847190720520512484175977, 1)]⟩,
  ⟨115792089237316195423570985008687907853269984665640564039457584007908834671663, 3,
    [(2, 1), (3, 1), (7, 1), (13441, 1),
     (205115282021455665897114700593932402728804164701536103180137503955397371, 1)]⟩
]

theorem fieldP_prime : fieldP.Prime :=
  @ModPrime.prime_of_check 256 fieldPCertificate (by decide +kernel) fieldP (by decide +kernel)

instance : Fact fieldP.Prime := ⟨fieldP_prime⟩

theorem fieldP_lt : fieldP < 2 ^ 256 := by
  unfold fieldP
  omega

/-- `secp256k1_fe_set_b32`: the number of 32 big-endian bytes, when below the
prime. -/
def feSetB32 (a : List UInt8) : Option (ZMod fieldP) :=
  if Bytes.leValue a.reverse < fieldP then some (Bytes.leValue a.reverse : ZMod fieldP) else none

/-- `secp256k1_fe_get_b32` of a normalized element: 32 big-endian bytes. -/
def feGetB32 (x : ZMod fieldP) : List UInt8 := (Bytes.leBytes x.val 32).reverse

/-- `secp256k1_fe_is_odd` of a normalized element. -/
def feIsOdd (x : ZMod fieldP) : Bool := x.val % 2 == 1

/-- `secp256k1_fe_sqrt`: the `(p + 1) / 4`-th power, which its addition chain
computes, and whether it squares back. -/
def feSqrt (a : ZMod fieldP) : ZMod fieldP × Bool :=
  let r : ZMod fieldP := ModPrime.powMod fieldP 256 a.val ((fieldP + 1) / 4)
  (r, r ^ 2 == a)

/-- `secp256k1_ge_set_xo_var(x, odd)`: the point over `x` whose `y` has the given
parity, when `x^3 + 7` is a square. -/
def geSetXoVar (x : ZMod fieldP) (odd : Bool) : Option (ZMod fieldP × ZMod fieldP) :=
  let (y, ok) := feSqrt (x ^ 3 + 7)
  if ok then some (x, if feIsOdd y != odd then -y else y) else none

/-- `secp256k1_ge_is_valid_var`: the point is on `y^2 = x^3 + 7`. -/
def geIsValidVar (x y : ZMod fieldP) : Bool := y ^ 2 == x ^ 3 + 7

/-- `secp256k1_eckey_pubkey_parse(pub, size)`. -/
def eckeyPubkeyParse (pub : List UInt8) : Option (ZMod fieldP × ZMod fieldP) :=
  match pub with
  | [] => none
  | tag :: rest =>
    if pub.length = 33 ∧ (tag = 0x02 ∨ tag = 0x03) then
      (feSetB32 rest).bind fun x => geSetXoVar x (tag == 0x03)
    else if pub.length = 65 ∧ (tag = 0x04 ∨ tag = 0x06 ∨ tag = 0x07) then
      match feSetB32 (rest.take 32), feSetB32 (rest.drop 32) with
      | some x, some y =>
        if (tag == 0x06 || tag == 0x07) && feIsOdd y != (tag == 0x07) then none
        else if geIsValidVar x y then some (x, y) else none
      | _, _ => none
    else none

/-- `secp256k1_ec_pubkey_serialize(..., SECP256K1_EC_UNCOMPRESSED)` of a parsed
key: `secp256k1_pubkey_load` first aborts on `x = 0`. -/
def ecPubkeySerializeUncompressed {ε : Type} (q : ZMod fieldP × ZMod fieldP) :
    Checked ε (List UInt8) :=
  if q.1 = 0 then .error (.fault .assertFailure)
  else .ok (0x04 :: feGetB32 q.1 ++ feGetB32 q.2)

/-! ## Bytes of field elements -/

@[simp] theorem length_feGetB32 (x : ZMod fieldP) : (feGetB32 x).length = 32 := by
  simp [feGetB32]

theorem feSetB32_feGetB32 (x : ZMod fieldP) : feSetB32 (feGetB32 x) = some x := by
  have hlt : x.val < fieldP := ZMod.val_lt x
  have hvalue : Bytes.leValue (feGetB32 x).reverse = x.val := by
    rw [feGetB32, List.reverse_reverse, Bytes.leValue_leBytes,
      Nat.mod_eq_of_lt (hlt.trans (fieldP_lt.trans_eq (by norm_num)))]
  rw [feSetB32, hvalue, if_pos hlt, ZMod.natCast_zmod_val]

/-- Bytes that read as an element are that element's bytes. -/
theorem feGetB32_of_feSetB32 {a : List UInt8} {x : ZMod fieldP} (hlen : a.length = 32)
    (h : feSetB32 a = some x) : feGetB32 x = a := by
  unfold feSetB32 at h
  split_ifs at h with hlt
  cases h
  rw [feGetB32, ZMod.val_cast_of_lt hlt, ← hlen, ← List.length_reverse, Bytes.leBytes_leValue,
    List.reverse_reverse]

/-- The last byte is the low byte of the element, so its low bit is the parity. -/
theorem getLast_feGetB32 (x : ZMod fieldP) :
    (feGetB32 x).getLast? = some (UInt8.ofNat (x.val % 256)) := by
  simp [feGetB32, Bytes.leBytes]

/-! ## Square roots and the curve -/

theorem fieldP_mod_four : fieldP % 4 = 3 := by
  unfold fieldP
  norm_num

/-- What `secp256k1_fe_sqrt` computes, as a power in the field. -/
theorem feSqrt_eq (a : ZMod fieldP) :
    feSqrt a = (a ^ ((fieldP + 1) / 4), (a ^ ((fieldP + 1) / 4)) ^ 2 == a) := by
  have hbits : (fieldP + 1) / 4 < 2 ^ 256 := by
    have := fieldP_lt
    omega
  rw [feSqrt, ModPrime.powMod_eq _ _ _ _ hbits, ZMod.natCast_mod, Nat.cast_pow,
    ZMod.natCast_zmod_val]

/-- Negation flips the parity of a nonzero element. -/
theorem feIsOdd_neg {y : ZMod fieldP} (hy : y ≠ 0) : feIsOdd (-y) = !feIsOdd y := by
  have hflip := ModPrime.val_neg_odd_iff (by have := fieldP_mod_four; omega) hy
  unfold feIsOdd
  by_cases hodd : y.val % 2 = 1
  · simp only [hodd, beq_self_eq_true, Bool.not_true, beq_eq_false_iff_ne, ne_eq]
    exact fun h => hflip.mp h hodd
  · simp only [hflip.mpr hodd, beq_self_eq_true, Bool.true_eq, Bool.not_eq_true', beq_eq_false_iff_ne,
      ne_eq, hodd, not_false_eq_true]

/-- The root `secp256k1_fe_sqrt` takes of a square squares back to it. -/
theorem feSqrt_sq (y : ZMod fieldP) :
    feSqrt (y ^ 2) = ((y ^ 2) ^ ((fieldP + 1) / 4), true) := by
  rw [feSqrt_eq, ModPrime.sq_pow_quarter fieldP_mod_four y, beq_self_eq_true]

/-- Over the `x` of a point on the curve, `secp256k1_ge_set_xo_var` with the
parity of `y` finds `y`: the root it takes is `y` or `-y`, and the parity decides. -/
theorem geSetXoVar_of_curve {x y : ZMod fieldP} (hcurve : y ^ 2 = x ^ 3 + 7) :
    geSetXoVar x (feIsOdd y) = some (x, y) := by
  rw [geSetXoVar, ← hcurve, feSqrt_sq]
  simp only [if_true]
  rcases sq_eq_sq_iff_eq_or_eq_neg.mp (ModPrime.sq_pow_quarter fieldP_mod_four y) with
    hroot | hroot <;> rw [hroot]
  · simp
  · by_cases hy : y = 0
    · subst hy
      simp
    · rw [feIsOdd_neg hy]
      simp

/-- No point of the curve has `x = 0`: `7` is no square, its `p / 2`-th power being
`-1`. -/
theorem seven_not_isSquare : ¬IsSquare (7 : ZMod fieldP) := by
  intro hsq
  have h7 : (7 : ZMod fieldP) ≠ 0 := by
    intro h
    have hdvd := (ZMod.natCast_eq_zero_iff 7 fieldP).mp (by exact_mod_cast h)
    have := Nat.le_of_dvd (by norm_num) hdvd
    unfold fieldP at this
    omega
  have hpow : ((7 : ℕ) : ZMod fieldP) ^ (fieldP / 2) = 1 := by
    exact_mod_cast (ZMod.euler_criterion fieldP h7).mp hsq
  have hbits : fieldP / 2 < 2 ^ 256 := by
    have := fieldP_lt
    omega
  have hcomp : ModPrime.powMod fieldP 256 7 (fieldP / 2) = fieldP - 1 := by decide +kernel
  rw [ModPrime.natCast_pow_eq_one_iff (by unfold fieldP; omega), ← ModPrime.powMod_eq _ _ _ _ hbits,
    hcomp] at hpow
  unfold fieldP at hpow
  omega

theorem x_ne_zero_of_curve {x y : ZMod fieldP} (hcurve : y ^ 2 = x ^ 3 + 7) : x ≠ 0 := by
  rintro rfl
  apply seven_not_isSquare
  exact ⟨y, by rw [← sq, hcurve]; ring⟩

/-! ## Keys -/

/-- The compressed key of a point: the parity tag and `x`. -/
def compressedKey (x y : ZMod fieldP) : List UInt8 :=
  (if feIsOdd y then 0x03 else 0x02) :: feGetB32 x

/-- `CPubKey::IsFullyValid()` of the key's bytes. -/
def CPubKey.IsFullyValid (vch : List UInt8) : Bool :=
  !vch.isEmpty && (eckeyPubkeyParse vch).isSome

/-- `CPubKey::Decompress()`: the key's new bytes, `none` when it returns false. -/
def CPubKey.Decompress {ε : Type} (vch : List UInt8) : Checked ε (Option (List UInt8)) :=
  if vch.isEmpty then .ok none
  else
    match eckeyPubkeyParse vch with
    | none => .ok none
    | some q => do
      let pub ← ecPubkeySerializeUncompressed q
      return some (CPubKey.ofBytes pub)

theorem eckeyPubkeyParse_compressedKey {x y : ZMod fieldP} (hcurve : y ^ 2 = x ^ 3 + 7) :
    eckeyPubkeyParse (compressedKey x y) = some (x, y) := by
  have htag : ((if feIsOdd y then (0x03 : UInt8) else 0x02) == 0x03) = feIsOdd y := by
    cases feIsOdd y <;> rfl
  have hshape : (compressedKey x y).length = 33 ∧
      ((if feIsOdd y then (0x03 : UInt8) else 0x02) = 0x02 ∨
        (if feIsOdd y then (0x03 : UInt8) else 0x02) = 0x03) := by
    refine ⟨by simp [compressedKey], ?_⟩
    cases feIsOdd y <;> simp
  unfold compressedKey at hshape ⊢
  rw [eckeyPubkeyParse, if_pos hshape, feSetB32_feGetB32, Option.bind_some, htag]
  exact geSetXoVar_of_curve hcurve

/-- Decompressing the compressed key of a point of the curve gives its
uncompressed key: the `ARG_CHECK` on `x` passes and the header makes a valid key. -/
theorem CPubKey.Decompress_compressedKey {ε : Type} {x y : ZMod fieldP}
    (hcurve : y ^ 2 = x ^ 3 + 7) :
    (CPubKey.Decompress (compressedKey x y) : Checked ε _) =
      .ok (some (0x04 :: feGetB32 x ++ feGetB32 y)) := by
  have hofBytes : CPubKey.ofBytes (0x04 :: feGetB32 x ++ feGetB32 y) =
      0x04 :: feGetB32 x ++ feGetB32 y := by
    simp [CPubKey.ofBytes, CPubKey.GetLen]
  rw [CPubKey.Decompress, if_neg (by simp [compressedKey]), eckeyPubkeyParse_compressedKey hcurve]
  simp only [ecPubkeySerializeUncompressed, if_neg (x_ne_zero_of_curve hcurve), Checked.ok_bind,
    hofBytes, Checked.pure_eq]

/-- A fully valid key with the uncompressed header is the header, `x` and `y` of a
point of the curve. -/
theorem eq_of_IsFullyValid_uncompressed {rest : List UInt8} (hlen : rest.length = 64)
    (hvalid : CPubKey.IsFullyValid (0x04 :: rest) = true) :
    ∃ x y : ZMod fieldP, y ^ 2 = x ^ 3 + 7 ∧ rest = feGetB32 x ++ feGetB32 y := by
  simp only [CPubKey.IsFullyValid, List.isEmpty_cons, Bool.not_false, Bool.true_and,
    Option.isSome_iff_exists] at hvalid
  obtain ⟨q, hq⟩ := hvalid
  have hnot33 : ¬((0x04 :: rest).length = 33 ∧ ((0x04 : UInt8) = 0x02 ∨ (0x04 : UInt8) = 0x03)) := by
    simp [hlen]
  have h65 : (0x04 :: rest).length = 65 ∧
      ((0x04 : UInt8) = 0x04 ∨ (0x04 : UInt8) = 0x06 ∨ (0x04 : UInt8) = 0x07) := by
    simp [hlen]
  rw [eckeyPubkeyParse, if_neg hnot33, if_pos h65] at hq
  cases hx : feSetB32 (rest.take 32) with
  | none => simp [hx] at hq
  | some x =>
    cases hy : feSetB32 (rest.drop 32) with
    | none => simp [hx, hy] at hq
    | some y =>
      simp only [hx, hy] at hq
      have hcurve : geIsValidVar x y = true := by
        by_contra hinvalid
        simp [hinvalid] at hq
      refine ⟨x, y, by simpa [geIsValidVar] using hcurve, ?_⟩
      rw [feGetB32_of_feSetB32 (by simp [hlen]) hx, feGetB32_of_feSetB32 (by simp [hlen]) hy,
        List.take_append_drop]

/-- The header, `x` and `y` of a point of the curve make a fully valid key. -/
theorem IsFullyValid_uncompressed {x y : ZMod fieldP} (hcurve : y ^ 2 = x ^ 3 + 7) :
    CPubKey.IsFullyValid (0x04 :: (feGetB32 x ++ feGetB32 y)) = true := by
  have hnot33 : ¬((0x04 :: (feGetB32 x ++ feGetB32 y)).length = 33 ∧
      ((0x04 : UInt8) = 0x02 ∨ (0x04 : UInt8) = 0x03)) := by
    simp
  have h65 : (0x04 :: (feGetB32 x ++ feGetB32 y)).length = 65 ∧
      ((0x04 : UInt8) = 0x04 ∨ (0x04 : UInt8) = 0x06 ∨ (0x04 : UInt8) = 0x07) := by
    simp
  have hx : (feGetB32 x ++ feGetB32 y).take 32 = feGetB32 x := List.take_left' (length_feGetB32 x)
  have hy : (feGetB32 x ++ feGetB32 y).drop 32 = feGetB32 y := List.drop_left' (length_feGetB32 x)
  rw [CPubKey.IsFullyValid, eckeyPubkeyParse, if_neg hnot33, if_pos h65, hx, hy, feSetB32_feGetB32,
    feSetB32_feGetB32]
  simp [geIsValidVar, hcurve]

/-- A fully valid key has the length its header gives, so `CPubKey(vch)` keeps all of it. -/
theorem CPubKey.IsFullyValid_sized {vch : List UInt8} (h : CPubKey.IsFullyValid vch = true) :
    vch ≠ [] ∧ CPubKey.ofBytes vch = vch := by
  match vch, h with
  | tag :: rest, h =>
    refine ⟨List.cons_ne_nil _ _, ?_⟩
    simp only [CPubKey.IsFullyValid, List.isEmpty_cons, Bool.not_false, Bool.true_and,
      Option.isSome_iff_exists] at h
    obtain ⟨q, hq⟩ := h
    rw [eckeyPubkeyParse] at hq
    -- the parse reads only the two sizes, each with the headers `GetLen` gives it
    split_ifs at hq with h33 h65
    · obtain ⟨hlen, htag⟩ := h33
      have hrest : rest.length = 32 := by simpa using hlen
      rcases htag with rfl | rfl <;> simp [CPubKey.ofBytes, CPubKey.GetLen, hrest]
    · obtain ⟨hlen, htag⟩ := h65
      have hrest : rest.length = 64 := by simpa using hlen
      rcases htag with rfl | rfl | rfl <;> simp [CPubKey.ofBytes, CPubKey.GetLen, hrest]

/-- The node's `CPubKey::IsFullyValid`: libsecp256k1's parse of the key. -/
def ChainEnv.withSecp256k1 (env : ChainEnv) : ChainEnv :=
  { env with pubKeyIsFullyValid := CPubKey.IsFullyValid }

/-- The `x` of the generator `G` of secp256k1. -/
def secp256k1Gx : ZMod fieldP := 0x79BE667EF9DCBBAC55A06295CE870B07029BFCDB2DCE28D959F2815B16F81798

/-- The `y` of the generator `G` of secp256k1. -/
def secp256k1Gy : ZMod fieldP := 0x483ADA7726A3C4655DA4FBFC0E1108A8FD17B448A68554199C47D08FFB10D4B8

theorem secp256k1G_on_curve : secp256k1Gy ^ 2 = secp256k1Gx ^ 3 + 7 := by
  decide +kernel

end Cascoin
