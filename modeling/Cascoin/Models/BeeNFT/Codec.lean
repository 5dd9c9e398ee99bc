import Cascoin.Models.Consensus.TxVerify

/-!
# Bee NFT encoders

The byte codecs of `beenft.cpp` and the scripts the wallet builds from them.

`SerializeBeeNFTToken` writes the BCT hash, four little-endian `uint32` fields
and the owner; `DeserializeBeeNFTToken` reads them back into the token it is
given, and assigns the owner only when bytes remain after the fixed fields, so a
token with an empty owner keeps the owner the target held
(`DeserializeBeeNFTToken_SerializeBeeNFTToken`). The transfer codec writes the
two addresses with a NUL between them and splits at the first NUL on reading.

`CreateBeeNFTTokenScript` pushes the magic and the token data with
`CScript::operator<<`, which picks a direct push below 76 bytes and
`OP_PUSHDATA2` above 255, while `ParseBeeNFTTokenTransaction` expects
`OP_PUSHDATA1` at byte 8: the token script parses back exactly when the owner
has 28 to 207 bytes (`ParseBeeNFTTokenTransaction_CreateBeeNFTTokenScript`).
`CreateBeeNFTTransferScript` pushes `"CASXFR"` after a length byte, while the
transfer parser looks for the magic at bytes 1..6: no transfer script is ever
recognised, and `CheckTransaction` rejects every transaction that carries one
(`checkNFTOutput_CreateBeeNFTTransferScript`).
-/

namespace Cascoin

open Checked

/-! ## Fixed-width fields -/

/-- The 32 bytes of a `uint256`, `begin()` to `end()`: least significant first. -/
def Uint256.bytes (h : Uint256) : List UInt8 := Bytes.leBytes h.toNat 32

/-- `WriteLE32`. -/
def WriteLE32 (x : UInt32) : List UInt8 := Bytes.leBytes x.toNat 4

/-- `WriteLE64` of a `CAmount`, converted to `uint64_t`. -/
def WriteLE64 (x : Int) : List UInt8 := Bytes.leBytes (x % 2 ^ 64).toNat 8

@[simp] theorem length_Uint256_bytes (h : Uint256) : h.bytes.length = 32 := by
  simp [Uint256.bytes]

@[simp] theorem length_WriteLE32 (x : UInt32) : (WriteLE32 x).length = 4 := by
  simp [WriteLE32]

@[simp] theorem length_WriteLE64 (x : Int) : (WriteLE64 x).length = 8 := by
  simp [WriteLE64]

/-- Reading a hash back from its bytes. -/
@[simp] theorem Uint256.ofBytes_bytes (h : Uint256) : Uint256.ofBytes h.bytes = h := by
  obtain ⟨n, hn⟩ := h
  have hw : (256 : Nat) ^ 32 = 2 ^ 256 := by norm_num
  have hval : Bytes.leValue (Bytes.leBytes n 32) % 2 ^ 256 = n := by
    rw [Bytes.leValue_leBytes, hw, Nat.mod_eq_of_lt hn, Nat.mod_eq_of_lt hn]
  simp only [Uint256.ofBytes, Uint256.bytes, Uint256.mk.injEq]
  exact hval

/-- Reading a `uint32` back from the bytes `WriteLE32` wrote. -/
@[simp] theorem leValue_WriteLE32 (x : UInt32) :
    UInt32.ofNat (Bytes.leValue (WriteLE32 x)) = x := by
  simp only [WriteLE32, Bytes.leValue_leBytes]
  rw [Nat.mod_eq_of_lt (by simpa using x.toNat_lt)]
  simp

@[simp] theorem leValue_WriteLE64 (x : Int) : Bytes.leValue (WriteLE64 x) = (x % 2 ^ 64).toNat := by
  simp only [WriteLE64, Bytes.leValue_leBytes]
  exact Nat.mod_eq_of_lt (by omega)

/-- `ReadLE64` reads back, as a `CAmount`, the bytes `WriteLE64` wrote. -/
theorem readLE64Amount_of_drop_eq {ε : Type} {data : List UInt8} {pos : Nat} {x : Int}
    {rest : List UInt8} (hlo : -2 ^ 63 ≤ x) (hhi : x < 2 ^ 63)
    (h : data.drop pos = WriteLE64 x ++ rest) : (readLE64Amount data pos : Checked ε Int) = .ok x := by
  have hlen : data.length - pos = 8 + rest.length := by simpa using congrArg List.length h
  rw [readLE64Amount, Bytes.readLE_of_le (by omega), h]
  simp only [List.take_left' (length_WriteLE64 x), leValue_WriteLE64, Checked.ok_bind, pure_eq]
  -- the two's complement reading of `ReadLE64` is the identity on `int64_t`
  congr 1
  split <;> omega

/-! ## The token codec -/

/-- `SerializeBeeNFTToken`. -/
def SerializeBeeNFTToken (token : BeeNFTToken) : List UInt8 :=
  token.originalBCT.bytes ++ WriteLE32 token.beeIndex ++ WriteLE32 token.maturityHeight ++
    WriteLE32 token.expiryHeight ++ WriteLE32 token.tokenizedHeight ++ token.currentOwner

/-- `DeserializeBeeNFTToken(data, token)`: whether it succeeded, and the token
after the assignments it made. -/
def DeserializeBeeNFTToken {ε : Type} (data : List UInt8) (token : BeeNFTToken) :
    Checked ε (Bool × BeeNFTToken) := do
  if data.length < 48 then return (false, token)
  let bct ← Checked.slice data 0 32
  let beeIndex ← readLE32 data 32
  let maturityHeight ← readLE32 data 36
  let expiryHeight ← readLE32 data 40
  let tokenizedHeight ← readLE32 data 44
  -- the owner is assigned only when bytes remain
  let currentOwner ← if 48 < data.length then Checked.suffix data 48 else pure token.currentOwner
  return (true, ⟨Uint256.ofBytes bct, beeIndex, maturityHeight, expiryHeight, tokenizedHeight,
    currentOwner⟩)

@[simp] theorem length_SerializeBeeNFTToken (token : BeeNFTToken) :
    (SerializeBeeNFTToken token).length = 48 + token.currentOwner.length := by
  simp [SerializeBeeNFTToken]
  omega

/-- Every fixed field of a serialized token reads back at its offset, and the
owner is what follows them. -/
theorem SerializeBeeNFTToken_fields {ε : Type} (t : BeeNFTToken) :
    (slice (SerializeBeeNFTToken t) 0 32 : Checked ε _) = .ok t.originalBCT.bytes ∧
    (readLE32 (SerializeBeeNFTToken t) 32 : Checked ε _) = .ok t.beeIndex ∧
    (readLE32 (SerializeBeeNFTToken t) 36 : Checked ε _) = .ok t.maturityHeight ∧
    (readLE32 (SerializeBeeNFTToken t) 40 : Checked ε _) = .ok t.expiryHeight ∧
    (readLE32 (SerializeBeeNFTToken t) 44 : Checked ε _) = .ok t.tokenizedHeight ∧
    (suffix (SerializeBeeNFTToken t) 48 : Checked ε _) = .ok t.currentOwner := by
  have hlen := length_SerializeBeeNFTToken t
  refine ⟨?_, ?_, ?_, ?_, ?_, ?_⟩
  · rw [slice_of_le (by omega) (by omega)]
    simp [SerializeBeeNFTToken]
  all_goals
    first
    | rw [readLE32_of_le (by omega)]
    | rw [suffix_of_le (by omega)]
    simp [SerializeBeeNFTToken, List.drop_append, List.drop_of_length_le]

/-- The token codec reads back every field, except that an empty owner leaves
the target's owner in place. -/
theorem DeserializeBeeNFTToken_SerializeBeeNFTToken {ε : Type} (t u : BeeNFTToken) :
    (DeserializeBeeNFTToken (SerializeBeeNFTToken t) u : Checked ε (Bool × BeeNFTToken)) =
      .ok (true, { t with
        currentOwner := if t.currentOwner = [] then u.currentOwner else t.currentOwner }) := by
  obtain ⟨h0, h1, h2, h3, h4, h5⟩ := @SerializeBeeNFTToken_fields ε t
  simp only [DeserializeBeeNFTToken, length_SerializeBeeNFTToken, h0, h1, h2, h3, h4, h5,
    ok_bind, Uint256.ofBytes_bytes]
  by_cases ho : t.currentOwner = []
  · simp [ho]
  · have hpos : 0 < t.currentOwner.length := List.length_pos_iff.mpr ho
    simp [ho, hpos]

/-! ## The transfer codec -/

/-- `SerializeBeeNFTTransfer`: the fixed fields, then the two addresses with a
NUL between them. -/
def SerializeBeeNFTTransfer (transfer : BeeNFTTransfer) : List UInt8 :=
  transfer.beeNFTId.bytes ++ WriteLE32 transfer.transferHeight ++ transfer.transferTxId.bytes ++
    WriteLE64 transfer.transferFee ++ transfer.fromOwner ++ [0] ++ transfer.toOwner

/-- `DeserializeBeeNFTTransfer(data, transfer)`. The fixed fields are assigned
before the addresses are looked at, so a tail without a NUL returns `false` with
them already overwritten. -/
def DeserializeBeeNFTTransfer {ε : Type} (data : List UInt8) (transfer : BeeNFTTransfer) :
    Checked ε (Bool × BeeNFTTransfer) := do
  if data.length < 76 then return (false, transfer)
  let beeNFTId ← Checked.slice data 0 32
  let transferHeight ← readLE32 data 32
  let transferTxId ← Checked.slice data 36 68
  let transferFee ← readLE64Amount data 68
  let transfer := { transfer with
    beeNFTId := Uint256.ofBytes beeNFTId
    transferHeight := transferHeight
    transferTxId := Uint256.ofBytes transferTxId
    transferFee := transferFee }
  if 76 < data.length then
    let addresses ← Checked.suffix data 76
    match addresses.idxOf? 0 with
    | some nullPos =>
      return (true, { transfer with
        fromOwner := addresses.take nullPos
        toOwner := addresses.drop (nullPos + 1) })
    | none => return (false, transfer)
  return (true, transfer)

@[simp] theorem length_SerializeBeeNFTTransfer (transfer : BeeNFTTransfer) :
    (SerializeBeeNFTTransfer transfer).length =
      77 + transfer.fromOwner.length + transfer.toOwner.length := by
  simp [SerializeBeeNFTTransfer]
  omega

/-- Every fixed field of a serialized transfer reads back at its offset, the fee
as long as it is a `CAmount`, and the addresses are what follows them. -/
theorem SerializeBeeNFTTransfer_fields {ε : Type} (x : BeeNFTTransfer)
    (hlo : -2 ^ 63 ≤ x.transferFee) (hhi : x.transferFee < 2 ^ 63) :
    (slice (SerializeBeeNFTTransfer x) 0 32 : Checked ε _) = .ok x.beeNFTId.bytes ∧
    (readLE32 (SerializeBeeNFTTransfer x) 32 : Checked ε _) = .ok x.transferHeight ∧
    (slice (SerializeBeeNFTTransfer x) 36 68 : Checked ε _) = .ok x.transferTxId.bytes ∧
    (readLE64Amount (SerializeBeeNFTTransfer x) 68 : Checked ε _) = .ok x.transferFee ∧
    (suffix (SerializeBeeNFTTransfer x) 76 : Checked ε _) = .ok (x.fromOwner ++ 0 :: x.toOwner) := by
  have hlen := length_SerializeBeeNFTTransfer x
  refine ⟨?_, ?_, ?_, ?_, ?_⟩
  · rw [slice_of_le (by omega) (by omega)]
    simp [SerializeBeeNFTTransfer]
  · rw [readLE32_of_le (by omega)]
    simp [SerializeBeeNFTTransfer]
  · rw [slice_of_le (by omega) (by omega)]
    simp [SerializeBeeNFTTransfer, List.drop_append, List.drop_of_length_le]
  · rw [readLE64Amount, Bytes.readLE_of_le (by omega)]
    simp [SerializeBeeNFTTransfer, List.drop_append, List.drop_of_length_le]
    -- the two's complement reading of `ReadLE64` is the identity on `int64_t`
    split <;> omega
  · rw [suffix_of_le (by omega)]
    simp [SerializeBeeNFTTransfer, List.drop_append, List.drop_of_length_le]

/-- The first NUL of `a ++ 0 :: b` is the separator when `a` has none. -/
theorem idxOf?_append_zero {a : List UInt8} (b : List UInt8) (ha : (0 : UInt8) ∉ a) :
    (a ++ 0 :: b).idxOf? 0 = some a.length := by
  induction a with
  | nil => simp [List.idxOf?_cons]
  | cons c a ih =>
    simp only [List.mem_cons, not_or] at ha
    simp [List.idxOf?_cons, Ne.symm ha.1, ih ha.2]

/-- The transfer codec reads back every field of a transfer whose fee is a
`CAmount` and whose sender has no NUL, whatever the target held. -/
theorem DeserializeBeeNFTTransfer_SerializeBeeNFTTransfer {ε : Type} (x v : BeeNFTTransfer)
    (hfrom : (0 : UInt8) ∉ x.fromOwner) (hlo : -2 ^ 63 ≤ x.transferFee)
    (hhi : x.transferFee < 2 ^ 63) :
    (DeserializeBeeNFTTransfer (SerializeBeeNFTTransfer x) v : Checked ε _) = .ok (true, x) := by
  obtain ⟨h0, h1, h2, h3, h4⟩ := @SerializeBeeNFTTransfer_fields ε x hlo hhi
  have hlen := length_SerializeBeeNFTTransfer x
  have hshort : ¬ (SerializeBeeNFTTransfer x).length < 76 := by omega
  have htail : 76 < (SerializeBeeNFTTransfer x).length := by omega
  simp only [DeserializeBeeNFTTransfer, hshort, htail, if_false, if_true, h0, h1, h2, h3, h4,
    ok_bind, idxOf?_append_zero _ hfrom, Uint256.ofBytes_bytes]
  simp [List.drop_append, List.drop_of_length_le]

/-- Both Bee NFT codecs read back what they wrote: a token exactly when its owner
is not empty or the target's owner already is, a transfer whenever its fee is a
`CAmount` and its sender has no NUL. -/
theorem BeeNFT_codecs_round_trip {ε : Type} :
    (∀ t u : BeeNFTToken,
      (DeserializeBeeNFTToken (SerializeBeeNFTToken t) u : Checked ε _) = .ok (true, t) ↔
        (t.currentOwner ≠ [] ∨ u.currentOwner = [])) ∧
    (∀ x v : BeeNFTTransfer, (0 : UInt8) ∉ x.fromOwner → -2 ^ 63 ≤ x.transferFee →
      x.transferFee < 2 ^ 63 →
      (DeserializeBeeNFTTransfer (SerializeBeeNFTTransfer x) v : Checked ε _) = .ok (true, x)) := by
  refine ⟨fun t u => ?_, fun x v hfrom hlo hhi =>
    DeserializeBeeNFTTransfer_SerializeBeeNFTTransfer x v hfrom hlo hhi⟩
  rw [DeserializeBeeNFTToken_SerializeBeeNFTToken]
  obtain ⟨bct, index, maturity, expiry, tokenized, owner⟩ := t
  by_cases ho : owner = []
  · subst ho
    simp
  · simp [ho]

theorem BeeNFT_codecs_round_trip_transfer :
    (DeserializeBeeNFTTransfer (SerializeBeeNFTTransfer
        ⟨Uint256.zero, 7, Uint256.zero, -5, [0x43], [0x44]⟩)
      ⟨Uint256.zero, 0, Uint256.zero, 0, [], []⟩ : Checked Unit _) =
      .ok (true, ⟨Uint256.zero, 7, Uint256.zero, -5, [0x43], [0x44]⟩) :=
  (@BeeNFT_codecs_round_trip Unit).2 _ _ (by decide) (by norm_num) (by norm_num)

/-- A token with no owner, read into a token that has one, keeps the stale owner. -/
theorem DeserializeBeeNFTToken_keeps_stale_owner :
    (DeserializeBeeNFTToken (SerializeBeeNFTToken ⟨Uint256.zero, 0, 0, 0, 0, []⟩)
      ⟨Uint256.zero, 0, 0, 0, 0, [0x43]⟩ : Checked Unit _) ≠
      .ok (true, ⟨Uint256.zero, 0, 0, 0, 0, []⟩) := by
  rw [DeserializeBeeNFTToken_SerializeBeeNFTToken]
  simp

/-! ## The wallet's scripts -/

/-- `CreateBeeNFTTokenScript`: `OP_RETURN`, the magic and the first token's data,
each written by `CScript::operator<<`. -/
def CreateBeeNFTTokenScript : List BeeNFTToken → CScript
  | [] => []
  | token :: _ =>
    pushData (pushData (pushOpcode [] OP_RETURN) magicCASTOK) (SerializeBeeNFTToken token)

/-- `CreateBeeNFTTransferScript`. -/
def CreateBeeNFTTransferScript : List BeeNFTTransfer → CScript
  | [] => []
  | transfer :: _ =>
    pushData (pushData (pushOpcode [] OP_RETURN) magicCASXFR) (SerializeBeeNFTTransfer transfer)

/-- The magic is a direct push of six bytes. -/
theorem pushOpReturn_magic (magic data : List UInt8) (hmagic : magic.length = 6) :
    pushData (pushData (pushOpcode [] OP_RETURN) magic) data =
      OP_RETURN :: 0x06 :: magic ++ pushPrefix data.length ++ data := by
  simp [pushData, pushOpcode, hmagic, pushPrefix_of_lt]

/-- The token parser on the layout it expects: `OP_RETURN`, the six-byte magic,
`OP_PUSHDATA1`, a length byte and the data. -/
theorem parseBeeNFTTokenOutput_pushdata1 {out : CTxOut} {data : List UInt8}
    (hlen : data.length ≤ 0xff)
    (hout : out.scriptPubKey =
      OP_RETURN :: 0x06 :: magicCASTOK ++ [OP_PUSHDATA1, UInt8.ofNat data.length] ++ data) :
    parseBeeNFTTokenOutput out = parseBeeNFTTokenData data >>= fun t => pure (some t) := by
  have hmod : data.length % 256 = data.length := Nat.mod_eq_of_lt (by omega)
  unfold parseBeeNFTTokenOutput
  rw [hout]
  simp [magicCASTOK, OP_RETURN, OP_PUSHDATA1, hmod]
  rw [slice_of_le (by omega) (by simp; omega)]
  simp

/-- Any other byte after the magic is rejected. -/
theorem parseBeeNFTTokenOutput_not_pushdata1 {out : CTxOut} {b : UInt8} {rest : List UInt8}
    (hb : b ≠ OP_PUSHDATA1) (hlen : 2 ≤ (b :: rest).length)
    (hout : out.scriptPubKey = OP_RETURN :: 0x06 :: magicCASTOK ++ b :: rest) :
    parseBeeNFTTokenOutput out =
      .error (.reject (some "Expected OP_PUSHDATA1 after CASTOK magic bytes")) := by
  have hrest : 1 ≤ rest.length := by simpa using hlen
  have hb' : b ≠ 0x4c := hb
  unfold parseBeeNFTTokenOutput
  rw [hout]
  simp [magicCASTOK, OP_RETURN, hrest, hb']

/-- The token output's script has the token's data after the magic, in the push
`CScript::operator<<` picks for its length. -/
theorem CreateBeeNFTTokenScript_single (t : BeeNFTToken) :
    CreateBeeNFTTokenScript [t] = OP_RETURN :: 0x06 :: magicCASTOK ++
      pushPrefix (48 + t.currentOwner.length) ++ SerializeBeeNFTToken t := by
  rw [CreateBeeNFTTokenScript, pushOpReturn_magic _ _ rfl, length_SerializeBeeNFTToken]

/-- The parser reads back every field of a serialized token. -/
theorem parseBeeNFTTokenData_SerializeBeeNFTToken (t : BeeNFTToken) :
    parseBeeNFTTokenData (SerializeBeeNFTToken t) = .ok t := by
  obtain ⟨h0, h1, h2, h3, h4, h5⟩ := @SerializeBeeNFTToken_fields (Option String) t
  simp only [parseBeeNFTTokenData, length_SerializeBeeNFTToken, h0, h1, h2, h3, h4, h5,
    ok_bind, Uint256.ofBytes_bytes]
  -- an empty owner is read as the empty string the parser starts from
  by_cases ho : t.currentOwner = []
  · simp only [ho, List.length_nil, Nat.add_zero, Nat.lt_irrefl, if_false, pure_eq, ok_bind]
    rw [← ho]
  · have hpos : 0 < t.currentOwner.length := List.length_pos_iff.mpr ho
    simp [hpos]

/-- The parser recognises the token output exactly when the data push is
`OP_PUSHDATA1`, that is when the owner has 28 to 207 bytes. -/
theorem parseBeeNFTTokenOutput_CreateBeeNFTTokenScript (t : BeeNFTToken) {out : CTxOut}
    (hout : out.scriptPubKey = CreateBeeNFTTokenScript [t]) :
    parseBeeNFTTokenOutput out =
      if 28 ≤ t.currentOwner.length ∧ t.currentOwner.length ≤ 207 then .ok (some t)
      else .error (.reject (some "Expected OP_PUSHDATA1 after CASTOK magic bytes")) := by
  rw [CreateBeeNFTTokenScript_single] at hout
  split_ifs with hr
  · have hp : pushPrefix (48 + t.currentOwner.length) =
        [OP_PUSHDATA1, UInt8.ofNat (SerializeBeeNFTToken t).length] := by
      rw [length_SerializeBeeNFTToken]
      exact pushPrefix_of_pushdata1 (by omega) (by omega)
    rw [hp] at hout
    rw [parseBeeNFTTokenOutput_pushdata1 (by simp; omega) hout,
      parseBeeNFTTokenData_SerializeBeeNFTToken]
    rfl
  · obtain ⟨b, rest, hp, hb⟩ :=
      pushPrefix_head_ne (show ¬ (0x4c ≤ 48 + t.currentOwner.length ∧
        48 + t.currentOwner.length ≤ 0xff) by omega)
    rw [hp] at hout
    exact @parseBeeNFTTokenOutput_not_pushdata1 out b (rest ++ SerializeBeeNFTToken t) hb
      (by simp; omega) (hout.trans (by simp))

/-! ## The token script round trip -/

/-- An output that does not start `OP_RETURN 0x06` is passed over by the token parser. -/
theorem parseBeeNFTTokenOutput_of_take {o : CTxOut}
    (h : o.scriptPubKey.take 2 ≠ [OP_RETURN, 0x06]) : parseBeeNFTTokenOutput o = .ok none := by
  unfold parseBeeNFTTokenOutput
  rcases hs : o.scriptPubKey with _ | ⟨a, _ | ⟨b, rest⟩⟩
  · simp
  · simp
  · rw [hs] at h
    simp only [List.take_succ_cons, List.take_zero, ne_eq, List.cons.injEq, and_true,
      not_and] at h
    by_cases ha : a = OP_RETURN
    · simp [ha, h ha]
    · simp [ha]

/-- ... and by the token validator, whose loop it does not end. -/
theorem isValidBeeNFTTokenOutput_of_take (validAddress : List UInt8 → Bool) (tx : CTransaction)
    {o : CTxOut} (h : o.scriptPubKey.take 2 ≠ [OP_RETURN, 0x06]) :
    isValidBeeNFTTokenOutput validAddress tx o = .ok none := by
  unfold isValidBeeNFTTokenOutput
  rcases hs : o.scriptPubKey with _ | ⟨a, _ | ⟨b, rest⟩⟩
  · simp
  · simp
  · rw [hs] at h
    simp only [List.take_succ_cons, List.take_zero, ne_eq, List.cons.injEq, and_true,
      not_and] at h
    by_cases ha : a = OP_RETURN
    · simp [ha, h ha]
    · simp [ha]

/-- On an output that pushes `CASTOK`, the token validator checks the size and then
parses and validates the whole transaction. -/
theorem isValidBeeNFTTokenOutput_pushed (validAddress : List UInt8 → Bool) (tx : CTransaction)
    {out : CTxOut} {rest : List UInt8} (hlen : 2 ≤ rest.length)
    (hout : out.scriptPubKey = OP_RETURN :: 0x06 :: magicCASTOK ++ rest) :
    isValidBeeNFTTokenOutput validAddress tx out =
      if BEE_NFT_MAX_DATA_SIZE + 2 < rest.length then
        .error (.reject (some "Bee NFT token data exceeds maximum size"))
      else do
        let tokens ← ParseBeeNFTTokenTransaction tx
        validateBeeNFTTokens validAddress tokens
        return some true := by
  have hsize : BEE_NFT_MAX_DATA_SIZE + 2 < rest.length ↔
      BEE_NFT_MAX_DATA_SIZE + 3 ≤ rest.length := by omega
  unfold isValidBeeNFTTokenOutput
  rw [hout]
  simp [magicCASTOK, OP_RETURN, hlen, hsize]

/-- The token script the wallet builds parses back to its token, and the
transaction passes the token validator and the scan exactly when the token is
valid, provided the owner has 28 to 207 bytes so that the data push is
`OP_PUSHDATA1`; any other owner length is rejected. -/
theorem ParseBeeNFTTokenTransaction_CreateBeeNFTTokenScript (validAddress : List UInt8 → Bool)
    (t : BeeNFTToken) (tx : CTransaction) (pre post : List CTxOut) (out : CTxOut)
    (hvout : tx.vout = pre ++ out :: post) (hout : out.scriptPubKey = CreateBeeNFTTokenScript [t])
    (hpre : ∀ o ∈ pre, o.scriptPubKey.take 2 ≠ [OP_RETURN, 0x06]) :
    ParseBeeNFTTokenTransaction tx =
        (if 28 ≤ t.currentOwner.length ∧ t.currentOwner.length ≤ 207 then .ok [t]
          else .error (.reject (some "Expected OP_PUSHDATA1 after CASTOK magic bytes"))) ∧
      (IsValidBeeNFTTokenTransaction validAddress tx = .ok () ↔
        (28 ≤ t.currentOwner.length ∧ t.currentOwner.length ≤ 207) ∧
          validateBeeNFTTokens validAddress [t] = .ok ()) ∧
      (checkNFTOutput validAddress tx out = .ok () ↔
        (28 ≤ t.currentOwner.length ∧ t.currentOwner.length ≤ 207) ∧
          validateBeeNFTTokens validAddress [t] = .ok ()) := by
  have hout' : out.scriptPubKey = OP_RETURN :: 0x06 :: magicCASTOK ++
      (pushPrefix (48 + t.currentOwner.length) ++ SerializeBeeNFTToken t) := by
    rw [hout, CreateBeeNFTTokenScript_single, List.append_assoc]
  have hrest : 2 ≤ (pushPrefix (48 + t.currentOwner.length) ++ SerializeBeeNFTToken t).length := by
    simp only [List.length_append, length_SerializeBeeNFTToken]
    omega
  -- both loops pass over the outputs before the token's and stop at it
  have hparse : ParseBeeNFTTokenTransaction tx =
      if 28 ≤ t.currentOwner.length ∧ t.currentOwner.length ≤ 207 then .ok [t]
      else .error (.reject (some "Expected OP_PUSHDATA1 after CASTOK magic bytes")) := by
    unfold ParseBeeNFTTokenTransaction
    rw [hvout, findSomeM_append_of_none fun o ho => parseBeeNFTTokenOutput_of_take (hpre o ho),
      List.findSomeM?_cons, parseBeeNFTTokenOutput_CreateBeeNFTTokenScript t hout]
    split_ifs <;> rfl
  have hvalid : IsValidBeeNFTTokenTransaction validAddress tx = .ok () ↔
      (28 ≤ t.currentOwner.length ∧ t.currentOwner.length ≤ 207) ∧
        validateBeeNFTTokens validAddress [t] = .ok () := by
    unfold IsValidBeeNFTTokenTransaction
    rw [hvout, findSomeM_append_of_none fun o ho =>
        isValidBeeNFTTokenOutput_of_take validAddress tx (hpre o ho),
      List.findSomeM?_cons, isValidBeeNFTTokenOutput_pushed validAddress tx hrest hout', hparse]
    by_cases hr : 28 ≤ t.currentOwner.length ∧ t.currentOwner.length ≤ 207
    · have hsmall : ¬ BEE_NFT_MAX_DATA_SIZE + 2 <
          (pushPrefix (48 + t.currentOwner.length) ++ SerializeBeeNFTToken t).length := by
        rw [pushPrefix_of_pushdata1 (by omega) (by omega)]
        simp [BEE_NFT_MAX_DATA_SIZE]
        omega
      rw [if_neg hsmall]
      cases hv : validateBeeNFTTokens validAddress [t] <;> simp [hr, hv]
    · split_ifs <;> simp [hr]
  refine ⟨hparse, hvalid, ?_⟩
  rw [checkNFTOutput_pushed_CASTOK validAddress tx hout', requireValidNFT_eq_ok_iff]
  exact hvalid

/-- A token whose owner is a 26-character address is pushed directly, and the
parser rejects it. -/
theorem ParseBeeNFTTokenTransaction_short_owner :
    ParseBeeNFTTokenTransaction ⟨[], [⟨1000, CreateBeeNFTTokenScript
        [⟨Uint256.zero, 0, 100, 1100, 0, List.replicate 26 0x43⟩]⟩]⟩ =
      .error (.reject (some "Expected OP_PUSHDATA1 after CASTOK magic bytes")) := by
  rw [(ParseBeeNFTTokenTransaction_CreateBeeNFTTokenScript (fun _ => true) _ _ [] [] _ rfl rfl
    (by simp)).1]
  simp

/-! ## The transfer script -/

/-- The transfer output's script: the magic is pushed after its length byte. -/
theorem CreateBeeNFTTransferScript_single (x : BeeNFTTransfer) :
    CreateBeeNFTTransferScript [x] = OP_RETURN :: 0x06 :: magicCASXFR ++
      pushPrefix (SerializeBeeNFTTransfer x).length ++ SerializeBeeNFTTransfer x := by
  rw [CreateBeeNFTTransferScript, pushOpReturn_magic _ _ rfl]

/-- The parser looks for the magic right after `OP_RETURN`, where the transfer
script has the push length `0x06`. -/
theorem take_CreateBeeNFTTransferScript (x : BeeNFTTransfer) :
    (CreateBeeNFTTransferScript [x]).take 7 ≠ OP_RETURN :: magicCASXFR := by
  rw [CreateBeeNFTTransferScript_single]
  simp [magicCASXFR]

/-- An output without `OP_RETURN "CASXFR"` at its start is passed over by the
transfer parser. -/
theorem parseBeeNFTTransferOutput_of_take {o : CTxOut}
    (h : o.scriptPubKey.take 7 ≠ OP_RETURN :: magicCASXFR) :
    parseBeeNFTTransferOutput o = .ok none := by
  unfold parseBeeNFTTransferOutput
  rcases hs : o.scriptPubKey with _ | ⟨a, rest⟩
  · simp
  · rw [hs] at h
    simp only [List.take_succ_cons, ne_eq, List.cons.injEq, not_and] at h
    by_cases ha : a = OP_RETURN
    · subst ha
      by_cases h7 : 7 ≤ rest.length
      · have hslice : (slice (OP_RETURN :: rest) 1 7 : NFTCheck _) = .ok (rest.take 6) := by
          rw [slice_of_le (by omega) (by simp; omega)]
          simp
        simp [hslice, h rfl, h7]
      · simp [h7]
    · simp [ha]

/-- The transfer validator reports a marker only after the parser has found a transfer. -/
theorem isValidBeeNFTTransferOutput_ne_some (validAddress : List UInt8 → Bool)
    {tx : CTransaction}
    (hparse : ∀ transfers, ParseBeeNFTTransferTransaction tx ≠ .ok transfers) (o : CTxOut)
    (b : Bool) : isValidBeeNFTTransferOutput validAddress tx o ≠ .ok (some b) := by
  intro h
  unfold isValidBeeNFTTransferOutput at h
  dsimp only at h
  split at h
  · obtain ⟨a, -, h⟩ := bind_eq_ok h
    split at h
    · obtain ⟨s, -, h⟩ := bind_eq_ok h
      split at h
      · simp at h
      · obtain ⟨transfers, htransfers, -⟩ := bind_eq_ok h
        exact hparse transfers htransfers
    · simp at h
  · simp at h

/-- No transfer script the wallet builds is ever parsed: a transaction that
carries one, and no output in the parser's own layout, is rejected by the
parser, by the transfer validator, and by `CheckTransaction`. -/
theorem CheckTransaction_CreateBeeNFTTransferScript (validAddress : List UInt8 → Bool)
    (x : BeeNFTTransfer) (tx : CTransaction) (out : CTxOut) (fCheckDuplicateInputs : Bool)
    (hmem : out ∈ tx.vout) (hout : out.scriptPubKey = CreateBeeNFTTransferScript [x])
    (hraw : ∀ o ∈ tx.vout, o.scriptPubKey.take 7 ≠ OP_RETURN :: magicCASXFR) :
    ParseBeeNFTTransferTransaction tx = .error (.reject none) ∧
      IsValidBeeNFTTransferTransaction validAddress tx ≠ .ok () ∧
      CheckTransaction validAddress tx fCheckDuplicateInputs ≠ .ok () := by
  have hparse : ParseBeeNFTTransferTransaction tx = .error (.reject none) := by
    unfold ParseBeeNFTTransferTransaction
    rw [← List.append_nil tx.vout,
      findSomeM_append_of_none fun o ho => parseBeeNFTTransferOutput_of_take (hraw o ho)]
    rfl
  have hvalid : IsValidBeeNFTTransferTransaction validAddress tx ≠ .ok () := by
    intro h
    unfold IsValidBeeNFTTransferTransaction at h
    obtain ⟨found, hfound, h⟩ := bind_eq_ok h
    -- the validator accepts only when its loop reported the marker
    split at h
    · simp at h
    · rename_i htrue
      have hsome : found = some true := by simpa using htrue
      subst hsome
      obtain ⟨o, -, ho⟩ := mem_of_findSomeM_eq_ok hfound
      refine isValidBeeNFTTransferOutput_ne_some validAddress (fun ts hts => ?_) o true ho
      rw [hparse] at hts
      cases hts
  refine ⟨hparse, hvalid, fun h => hvalid ?_⟩
  have hscan := checkNFTOutput_of_CheckTransaction validAddress h hmem
  rw [checkNFTOutput_pushed_CASXFR validAddress tx
      (hout.trans ((CreateBeeNFTTransferScript_single x).trans (List.append_assoc _ _ _))),
    requireValidNFT_eq_ok_iff] at hscan
  exact hscan

/-- The `bctnftransfer` transaction: the transfer output and a pay-to-key-hash change. -/
theorem CheckTransaction_CreateBeeNFTTransferScript_wallet :
    CheckTransaction (fun _ => true)
      ⟨[⟨⟨Uint256.zero, 0⟩, []⟩],
        [⟨1000, CreateBeeNFTTransferScript
            [⟨Uint256.zero, 100, Uint256.zero, 0, List.replicate 34 0x43, List.replicate 34 0x44⟩]⟩,
          ⟨5000, [0x76, 0xa9, 0x14] ++ List.replicate 20 0 ++ [0x88, 0xac]⟩]⟩ true ≠ .ok () := by
  refine (CheckTransaction_CreateBeeNFTTransferScript (fun _ => true) _ _ _ true
    List.mem_cons_self rfl ?_).2.2
  intro o ho
  rcases List.mem_cons.mp ho with rfl | ho
  · exact take_CreateBeeNFTTransferScript _
  · rw [List.mem_singleton.mp ho]
    decide

end Cascoin
