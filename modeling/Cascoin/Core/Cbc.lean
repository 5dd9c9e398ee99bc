import Mathlib

/-!
# Cipher block chaining with padding

A block cipher in CBC mode with PKCS#7 padding on blocks of 16 bytes: each
cipher block is the cipher of a data block xored with the cipher block before
it (the IV for the first), and the last block is filled with copies of the
number of filling bytes, a whole block of them when the data fills its blocks
exactly. The cipher text of `n` bytes is `16 * (n / 16 + 1)` bytes
(`length_encrypt`), and decryption with the inverse block cipher returns the
data (`decrypt_encrypt`).

The block cipher is a function on byte strings, applied to blocks of 16 bytes
only; what is assumed of it is stated where it is used: that it keeps the
length of a block, and that the decryption inverts it on blocks.
-/

namespace Cbc

/-- Bytewise exclusive or. -/
def xorBytes (a b : List UInt8) : List UInt8 := List.zipWith (· ^^^ ·) a b

/-- The filling of a last block holding `r < 16` bytes. -/
def padding (r : Nat) : List UInt8 := List.replicate (16 - r) (UInt8.ofNat (16 - r))

/-- The cipher blocks of `data` chained from `mixed`, the last one padded. -/
def encryptBlocks (enc : List UInt8 → List UInt8) (mixed data : List UInt8) : List UInt8 :=
  if 16 ≤ data.length then
    let out := enc (xorBytes mixed (data.take 16))
    out ++ encryptBlocks enc out (data.drop 16)
  else enc (xorBytes mixed (data ++ padding data.length))
termination_by data.length

/-- Encryption with padding from the IV; no data gives no output. -/
def encrypt (enc : List UInt8 → List UInt8) (iv data : List UInt8) : List UInt8 :=
  if data.isEmpty then [] else encryptBlocks enc iv data

/-- The data blocks of whole cipher blocks chained from `prev`. -/
def decryptBlocks (dec : List UInt8 → List UInt8) (prev data : List UInt8) : List UInt8 :=
  if 16 ≤ data.length then
    xorBytes (dec (data.take 16)) prev ++ decryptBlocks dec (data.take 16) (data.drop 16)
  else []
termination_by data.length

/-- Decryption with padding from the IV: no output for data that is empty or not
whole blocks, or whose padding is malformed. -/
def decrypt (dec : List UInt8 → List UInt8) (iv data : List UInt8) : List UInt8 :=
  if data.isEmpty || data.length % 16 != 0 then [] else
    let out := decryptBlocks dec iv data
    -- the padding size is the last byte, and the bytes it counts must all equal it
    let padsize := (out.getLast?.getD 0).toNat
    if padsize = 0 || padsize > 16 ||
        (out.drop (out.length - padsize)).any (· != UInt8.ofNat padsize) then []
    else out.take (out.length - padsize)

@[simp] theorem length_xorBytes (a b : List UInt8) :
    (xorBytes a b).length = min a.length b.length := by
  simp [xorBytes]

/-- Xoring with the same bytes twice gives the bytes back. -/
theorem xorBytes_xorBytes_cancel {a b : List UInt8} (h : a.length = b.length) :
    xorBytes (xorBytes a b) a = b := by
  induction a generalizing b with
  | nil => cases b <;> simp_all [xorBytes]
  | cons x a ih =>
    cases b with
    | nil => simp at h
    | cons y b =>
      simp only [List.length_cons, Nat.add_right_cancel_iff] at h
      have hy : x ^^^ y ^^^ x = y := by
        rw [UInt8.xor_comm x y, UInt8.xor_assoc, UInt8.xor_self, UInt8.xor_zero]
      simpa [xorBytes, hy] using ih h

@[simp] theorem length_padding (r : Nat) : (padding r).length = 16 - r := by
  simp [padding]

section Cipher

variable {enc dec : List UInt8 → List UInt8}

/-- The cipher text is one block more than the whole blocks of the data. -/
theorem length_encryptBlocks (h16 : ∀ b, b.length = 16 → (enc b).length = 16)
    {mixed : List UInt8} (hm : mixed.length = 16) (data : List UInt8) :
    (encryptBlocks enc mixed data).length = 16 * (data.length / 16 + 1) := by
  induction mixed, data using encryptBlocks.induct enc with
  | case1 mixed data hlen out ih =>
    have hout : out.length = 16 := h16 _ (by simp [hm]; omega)
    rw [encryptBlocks, if_pos hlen, List.length_append, hout, ih hout, List.length_drop]
    omega
  | case2 mixed data hlen =>
    rw [encryptBlocks, if_neg hlen, h16 _ (by simp [hm]; omega)]
    omega

/-- Decrypting the blocks gives the data and its padding back. -/
theorem decryptBlocks_encryptBlocks (h16 : ∀ b, b.length = 16 → (enc b).length = 16)
    (hinv : ∀ b, b.length = 16 → dec (enc b) = b) {mixed : List UInt8}
    (hm : mixed.length = 16) (data : List UInt8) :
    decryptBlocks dec mixed (encryptBlocks enc mixed data) =
      data ++ padding (data.length % 16) := by
  induction mixed, data using encryptBlocks.induct enc with
  | case1 mixed data hlen out ih =>
    have hblock : (xorBytes mixed (data.take 16)).length = 16 := by simp [hm]; omega
    have hout : out.length = 16 := h16 _ hblock
    -- the first cipher block decrypts to the first data block
    have hfirst : xorBytes (dec out) mixed = data.take 16 :=
      (hinv _ hblock).symm ▸ xorBytes_xorBytes_cancel (by simp [hm]; omega)
    rw [encryptBlocks, if_pos hlen]
    change decryptBlocks dec mixed (out ++ encryptBlocks enc out (data.drop 16)) = _
    rw [decryptBlocks, if_pos (by rw [List.length_append, hout]; omega),
      List.take_left' hout, List.drop_left' hout, hfirst, ih hout, ← List.append_assoc,
      List.take_append_drop, List.length_drop]
    congr 2
    omega
  | case2 mixed data hlen =>
    have hblock : (xorBytes mixed (data ++ padding data.length)).length = 16 := by
      simp [hm]; omega
    have hout := h16 _ hblock
    rw [encryptBlocks, if_neg hlen, decryptBlocks, if_pos (by omega),
      List.take_of_length_le (by omega), List.drop_of_length_le (by omega), hinv _ hblock,
      xorBytes_xorBytes_cancel (by simp [hm]; omega), Nat.mod_eq_of_lt (by omega)]
    simp [decryptBlocks]

/-- The padding of a last block of `r < 16` bytes is `16 - r` copies of `16 - r`. -/
theorem getLast_padding {r : Nat} (hr : r < 16) :
    (padding r).getLast? = some (UInt8.ofNat (16 - r)) := by
  rw [padding, List.getLast?_replicate, if_neg (by omega)]

/-- Decryption inverts encryption. -/
theorem decrypt_encrypt (h16 : ∀ b, b.length = 16 → (enc b).length = 16)
    (hinv : ∀ b, b.length = 16 → dec (enc b) = b) {iv : List UInt8} (hiv : iv.length = 16)
    {data : List UInt8} (hne : data ≠ []) :
    decrypt dec iv (encrypt enc iv data) = data := by
  have hr : data.length % 16 < 16 := Nat.mod_lt _ (by decide)
  have hlen := length_encryptBlocks h16 hiv data
  -- the cipher text is whole blocks, at least one
  have hnil : encryptBlocks enc iv data ≠ [] := List.ne_nil_of_length_pos (by rw [hlen]; omega)
  have hwhole : ((encryptBlocks enc iv data).isEmpty ||
      (encryptBlocks enc iv data).length % 16 != 0) = false := by
    simp [hnil, hlen, Nat.mul_mod_right]
  have hpad : (UInt8.ofNat (16 - data.length % 16)).toNat = 16 - data.length % 16 := by
    rw [UInt8.toNat_ofNat']
    omega
  have hlast : ((data ++ padding (data.length % 16)).getLast?.getD 0).toNat =
      16 - data.length % 16 := by
    rw [List.getLast?_append, getLast_padding hr]
    simpa using hpad
  have hsplit : (data ++ padding (data.length % 16)).length - (16 - data.length % 16) =
      data.length := by
    simp
  -- the padding passes its check: its size is 1 to 16 and every byte of it is its size
  have hcheck : (decide (16 - data.length % 16 = 0) || decide (16 - data.length % 16 > 16) ||
      (padding (data.length % 16)).any (· != UInt8.ofNat (16 - data.length % 16))) = false := by
    simp [padding]
    omega
  simp only [encrypt, List.isEmpty_iff, hne, if_false, decrypt, hwhole, Bool.false_eq_true]
  rw [decryptBlocks_encryptBlocks h16 hinv hiv, hlast, hsplit, List.drop_left, hcheck]
  simp

end Cipher

end Cbc
