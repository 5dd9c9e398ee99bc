import Cascoin.Models.Primitives.Transaction

/-!
# Bee NFT and generic NFT validators

The four validators `CheckTransaction` calls on an `OP_RETURN` output whose
bytes 2..7 spell an NFT magic, and the two parsers the Bee NFT validators
call. Each scans `tx.vout` front to back; the loops are written as
recursions over the output list, and each stops at the first output the C++
loop stops at (`break` after the first marker output, `return` on an error).

An error is the text the function writes to its `error` argument, or `none`
when it returns `false` and leaves that argument as it was. Address
validity (`IsValidDestination(DecodeDestination(s))`, the base58 and bech32
decoders) is the parameter `validAddress`: the validators only branch on it.

The two Bee NFT validators guard every read by a size test (`size >= 10`,
`size >= 8`) and never fault; the two generic validators read
`scriptPubKey[0]` and build `data(begin() + 2, end())` with no guard.
-/

namespace Cascoin

/-- `"CASTOK"`, the Bee NFT token magic. -/
def magicCASTOK : List UInt8 := [0x43, 0x41, 0x53, 0x54, 0x4f, 0x4b]
/-- `"CASXFR"`, the Bee NFT transfer magic. -/
def magicCASXFR : List UInt8 := [0x43, 0x41, 0x53, 0x58, 0x46, 0x52]
/-- `"CASNFT"`, `NFT_MAGIC_GENERIC`. -/
def magicCASNFT : List UInt8 := [0x43, 0x41, 0x53, 0x4e, 0x46, 0x54]
/-- `"CASGEN"`, `NFT_MAGIC_GENERIC_TRANSFER`. -/
def magicCASGEN : List UInt8 := [0x43, 0x41, 0x53, 0x47, 0x45, 0x4e]

/-- `BEE_NFT_MAX_DATA_SIZE`. -/
def BEE_NFT_MAX_DATA_SIZE : Nat := 4096

/-- A `uint256` filled from 32 bytes by `std::copy`, least significant first. -/
def Uint256.ofBytes (bs : List UInt8) : Uint256 :=
  ⟨Bytes.leValue bs % 2 ^ 256, Nat.mod_lt _ (by decide)⟩

/-- `BeeNFTToken`. -/
structure BeeNFTToken where
  originalBCT : Uint256
  beeIndex : UInt32
  maturityHeight : UInt32
  expiryHeight : UInt32
  tokenizedHeight : UInt32
  currentOwner : List UInt8
  deriving DecidableEq

/-- `BeeNFTTransfer`. -/
structure BeeNFTTransfer where
  beeNFTId : Uint256
  transferHeight : UInt32
  transferTxId : Uint256
  transferFee : Int
  fromOwner : List UInt8
  toOwner : List UInt8
  deriving DecidableEq

/-- A validator's or parser's result: its `error` text, `none` when unchanged. -/
abbrev NFTCheck (α : Type) := Checked (Option String) α

/-- `ReadLE64(&v[i])`, stored into a signed `CAmount`. -/
def readLE64Amount {ε : Type} (v : List UInt8) (i : Nat) : Checked ε Int := do
  let n ← Bytes.readLE v i 8
  return if n < 2 ^ 63 then (n : Int) else (n : Int) - 2 ^ 64

theorem readLE64Amount_of_le {ε : Type} {v : List UInt8} {i : Nat} (h : i + 8 ≤ v.length) :
    ∃ a, (readLE64Amount v i : Checked ε Int) = .ok a := by
  simp [readLE64Amount, Bytes.readLE_of_le h]

/-! ## Bee NFT parsers -/

/-- The token of one `OP_RETURN 0x06 "CASTOK" OP_PUSHDATA1 len data` output, read
from its raw data (`rawData` of `ParseBeeNFTTokenTransaction`). -/
def parseBeeNFTTokenData (rawData : List UInt8) : NFTCheck BeeNFTToken := do
  if rawData.length < 32 + 4 + 4 + 4 + 4 then
    Checked.reject (some "Bee NFT token data too short for required fields")
  let bct ← Checked.slice rawData 0 32
  let beeIndex ← readLE32 rawData 32
  let maturityHeight ← readLE32 rawData 36
  let expiryHeight ← readLE32 rawData 40
  let tokenizedHeight ← readLE32 rawData 44
  let currentOwner ← if 48 < rawData.length then Checked.suffix rawData 48 else pure []
  return ⟨Uint256.ofBytes bct, beeIndex, maturityHeight, expiryHeight, tokenizedHeight,
    currentOwner⟩

/-- The body of the loop of `ParseBeeNFTTokenTransaction` for one output: its token
when it carries the `CASTOK` marker, `none` to go on to the next output. -/
def parseBeeNFTTokenOutput (txout : CTxOut) : NFTCheck (Option BeeNFTToken) := do
  let spk := txout.scriptPubKey
  if 10 ≤ spk.length then
    if (← Checked.get spk 0) = OP_RETURN then
      if (← Checked.get spk 1) = 0x06 then
        if (← Checked.slice spk 2 8) = magicCASTOK then
          if (← Checked.get spk 8) ≠ 0x4c then
            Checked.reject (some "Expected OP_PUSHDATA1 after CASTOK magic bytes")
          let dataLen := (← Checked.get spk 9).toNat
          if spk.length < dataLen + 10 then
            Checked.reject (some "Invalid bee NFT token data length")
          let rawData ← Checked.slice spk 10 (10 + dataLen)
          return some (← parseBeeNFTTokenData rawData)
  return none

/-- `ParseBeeNFTTokenTransaction`: the single token of the first `CASTOK` output;
`false` with the error unchanged when there is none. -/
def ParseBeeNFTTokenTransaction (tx : CTransaction) : NFTCheck (List BeeNFTToken) := do
  match ← tx.vout.findSomeM? parseBeeNFTTokenOutput with
  | some token => return [token]
  | none => Checked.reject none

/-- The addresses after the fixed fields of a transfer: split at the first NUL. -/
def splitTransferAddresses (addresses : List UInt8) : NFTCheck (List UInt8 × List UInt8) :=
  match addresses.idxOf? 0 with
  | some nullPos => return (addresses.take nullPos, addresses.drop (nullPos + 1))
  | none => Checked.reject (some "Invalid address format in transfer data")

/-- The transfer of one `OP_RETURN "CASXFR" len data` output, read from its raw data. -/
def parseBeeNFTTransferData (rawData : List UInt8) : NFTCheck BeeNFTTransfer := do
  if rawData.length < 32 + 4 + 32 + 8 then
    Checked.reject (some "Bee NFT transfer data too short for required fields")
  let nftId ← Checked.slice rawData 0 32
  let transferHeight ← readLE32 rawData 32
  let txId ← Checked.slice rawData 36 68
  let transferFee ← readLE64Amount rawData 68
  let (fromOwner, toOwner) ←
    if 76 < rawData.length then splitTransferAddresses (← Checked.suffix rawData 76)
    else pure ([], [])
  return ⟨Uint256.ofBytes nftId, transferHeight, Uint256.ofBytes txId, transferFee, fromOwner,
    toOwner⟩

/-- The body of the loop of `ParseBeeNFTTransferTransaction` for one output whose
bytes 1..6 spell `CASXFR`. -/
def parseBeeNFTTransferOutput (txout : CTxOut) : NFTCheck (Option BeeNFTTransfer) := do
  let spk := txout.scriptPubKey
  if 8 ≤ spk.length then
    if (← Checked.get spk 0) = OP_RETURN then
      if (← Checked.slice spk 1 7) = magicCASXFR then
        if spk.length < 9 then
          Checked.reject (some "Bee NFT transfer data too short")
        let dataLen := (← Checked.get spk 7).toNat
        if spk.length < dataLen + 8 then
          Checked.reject (some "Invalid bee NFT transfer data length")
        let rawData ← Checked.slice spk 8 (8 + dataLen)
        return some (← parseBeeNFTTransferData rawData)
  return none

/-- `ParseBeeNFTTransferTransaction`. -/
def ParseBeeNFTTransferTransaction (tx : CTransaction) : NFTCheck (List BeeNFTTransfer) := do
  match ← tx.vout.findSomeM? parseBeeNFTTransferOutput with
  | some transfer => return [transfer]
  | none => Checked.reject none

/-! ## Bee NFT validators -/

section Validators

variable (validAddress : List UInt8 → Bool)

/-- The checks `IsValidBeeNFTTokenTransaction` makes on each parsed token. -/
def validateBeeNFTTokens : List BeeNFTToken → NFTCheck Unit
  | [] => pure ()
  | token :: rest => do
    if token.originalBCT.IsNull then
      Checked.reject (some "Invalid original BCT hash")
    let maturity := token.maturityHeight.toNat
    let expiry := token.expiryHeight.toNat
    if expiry ≤ maturity then
      Checked.reject (some s!"Invalid bee lifecycle: maturity ({maturity}) >= expiry ({expiry})")
    let index := token.beeIndex.toNat
    if 1000000 ≤ index then
      Checked.reject (some s!"Bee index too high: {index}")
    if token.currentOwner.isEmpty then
      Checked.reject (some "Invalid owner address (empty)")
    if !validAddress token.currentOwner then
      let owner := String.ofList (token.currentOwner.map fun b => Char.ofNat b.toNat)
      Checked.reject (some s!"Invalid owner address: {owner}")
    validateBeeNFTTokens rest

/-- The body of the loop of `IsValidBeeNFTTokenTransaction` for one output: `none`
to go on, or whether the `CASTOK` marker was found. The first output that starts
`OP_RETURN 0x06` ends the loop (`break`), whatever its magic. -/
def isValidBeeNFTTokenOutput (tx : CTransaction) (txout : CTxOut) : NFTCheck (Option Bool) := do
  let spk := txout.scriptPubKey
  if 10 ≤ spk.length then
    if (← Checked.get spk 0) = OP_RETURN then
      if (← Checked.get spk 1) = 0x06 then
        let found := (← Checked.slice spk 2 8) == magicCASTOK
        if found && BEE_NFT_MAX_DATA_SIZE + 10 < spk.length then
          Checked.reject (some "Bee NFT token data exceeds maximum size")
        let tokens ← ParseBeeNFTTokenTransaction tx
        validateBeeNFTTokens validAddress tokens
        return some found
  return none

/-- `IsValidBeeNFTTokenTransaction`. -/
def IsValidBeeNFTTokenTransaction (tx : CTransaction) : NFTCheck Unit := do
  let found ← tx.vout.findSomeM? (isValidBeeNFTTokenOutput validAddress tx)
  if found ≠ some true then
    Checked.reject (some "No bee NFT token marker found")

/-- The checks `IsValidBeeNFTTransferTransaction` makes on each parsed transfer. -/
def validateBeeNFTTransfers : List BeeNFTTransfer → NFTCheck Unit
  | [] => pure ()
  | transfer :: rest => do
    if transfer.beeNFTId.IsNull then
      Checked.reject (some "Invalid bee NFT ID")
    if transfer.fromOwner.isEmpty then
      Checked.reject (some "Invalid from owner address")
    if !validAddress transfer.fromOwner then
      Checked.reject (some "Invalid from owner address")
    if transfer.toOwner.isEmpty then
      Checked.reject (some "Invalid to owner address")
    if !validAddress transfer.toOwner then
      Checked.reject (some "Invalid to owner address")
    if transfer.fromOwner = transfer.toOwner then
      Checked.reject (some "Cannot transfer bee NFT to same address")
    validateBeeNFTTransfers rest

/-- The body of the loop of `IsValidBeeNFTTransferTransaction` for one output. -/
def isValidBeeNFTTransferOutput (tx : CTransaction) (txout : CTxOut) :
    NFTCheck (Option Bool) := do
  let spk := txout.scriptPubKey
  if 8 ≤ spk.length then
    if (← Checked.get spk 0) = OP_RETURN then
      let found := (← Checked.slice spk 1 7) == magicCASXFR
      if found && BEE_NFT_MAX_DATA_SIZE + 7 < spk.length then
        Checked.reject (some "Bee NFT transfer data exceeds maximum size")
      let transfers ← ParseBeeNFTTransferTransaction tx
      validateBeeNFTTransfers validAddress transfers
      return some found
  return none

/-- `IsValidBeeNFTTransferTransaction`. -/
def IsValidBeeNFTTransferTransaction (tx : CTransaction) : NFTCheck Unit := do
  let found ← tx.vout.findSomeM? (isValidBeeNFTTransferOutput validAddress tx)
  if found ≠ some true then
    Checked.reject (some "No bee NFT transfer marker found")

end Validators

/-! ## Generic NFT validators -/

/-- The body of the loop of `IsValidGenericNFTTransaction` and
`IsValidGenericNFTTransferTransaction` for one output: whether it is an
`OP_RETURN` output carrying `magic` at bytes 2..7. Neither read is guarded by a
size test. -/
def genericNFTMagicOutput (magic : List UInt8) (output : CTxOut) : NFTCheck Bool := do
  let spk := output.scriptPubKey
  if (← Checked.get spk 0) = OP_RETURN then
    let data ← Checked.suffix spk 2
    if 6 ≤ data.length then
      if data.take 6 = magic then
        return true
  return false

/-- `IsValidGenericNFTTransaction`. -/
def IsValidGenericNFTTransaction (tx : CTransaction) : NFTCheck Unit := do
  if tx.vout.isEmpty then
    Checked.reject (some "No outputs in transaction")
  if !(← tx.vout.anyM (genericNFTMagicOutput magicCASNFT)) then
    Checked.reject (some "No valid generic NFT output found")

/-- `IsValidGenericNFTTransferTransaction`. -/
def IsValidGenericNFTTransferTransaction (tx : CTransaction) : NFTCheck Unit := do
  if tx.vout.isEmpty then
    Checked.reject (some "No outputs in transaction")
  if !(← tx.vout.anyM (genericNFTMagicOutput magicCASGEN)) then
    Checked.reject (some "No valid generic NFT transfer output found")


/-! ## Fault freedom

The Bee NFT parsers and validators never fault: every read is behind the size
test that precedes it. The generic scan faults on exactly the output scripts
that are not `scannable`: the empty script, and the one-byte `OP_RETURN`.
-/

section FaultFreedom

open Checked

theorem noFault_parseBeeNFTTokenData (raw : List UInt8) : NoFault (parseBeeNFTTokenData raw) := by
  unfold parseBeeNFTTokenData
  by_cases h : raw.length < 48
  · simp [h]
  · simp (disch := omega) [h, readLE32_of_le]
    split <;> simp (disch := omega)

theorem noFault_parseBeeNFTTokenOutput (txout : CTxOut) :
    NoFault (parseBeeNFTTokenOutput txout) := by
  unfold parseBeeNFTTokenOutput
  by_cases h10 : 10 ≤ txout.scriptPubKey.length
  · rw [if_pos h10, get_of_lt (by omega), ok_bind]
    split
    · rw [get_of_lt (by omega), ok_bind]
      split
      · rw [slice_of_le (by omega) (by omega), ok_bind]
        split
        · rw [get_of_lt (by omega), ok_bind]
          dsimp only
          split
          · simp
          · rw [get_of_lt (by omega), ok_bind]
            split
            · simp
            · rw [slice_of_le (by omega) (by omega), ok_bind]
              exact noFault_bind (noFault_parseBeeNFTTokenData _) fun _ _ => by simp
        · simp
      · simp
    · simp
  · simp [h10]

theorem noFault_parseBeeNFTTokenTransaction (tx : CTransaction) :
    NoFault (ParseBeeNFTTokenTransaction tx) := by
  unfold ParseBeeNFTTokenTransaction
  refine noFault_bind (noFault_findSomeM fun o _ => noFault_parseBeeNFTTokenOutput o) ?_
  rintro (_ | token) _ <;> simp

theorem noFault_splitTransferAddresses (addresses : List UInt8) :
    NoFault (splitTransferAddresses addresses) := by
  unfold splitTransferAddresses
  split <;> simp

theorem noFault_parseBeeNFTTransferData (raw : List UInt8) :
    NoFault (parseBeeNFTTransferData raw) := by
  unfold parseBeeNFTTransferData
  by_cases h : raw.length < 76
  · simp [h]
  · obtain ⟨fee, hfee⟩ := readLE64Amount_of_le (ε := Option String) (v := raw) (i := 68) (by omega)
    simp (disch := omega) only [h, if_false, slice_of_le, readLE32_of_le, hfee, ok_bind, pure_eq]
    split
    · rw [suffix_of_le (by omega), ok_bind]
      exact noFault_bind (noFault_splitTransferAddresses _) fun _ _ => by simp
    · simp

theorem noFault_parseBeeNFTTransferOutput (txout : CTxOut) :
    NoFault (parseBeeNFTTransferOutput txout) := by
  unfold parseBeeNFTTransferOutput
  by_cases h8 : 8 ≤ txout.scriptPubKey.length
  · rw [if_pos h8, get_of_lt (by omega), ok_bind]
    split
    · rw [slice_of_le (by omega) (by omega), ok_bind]
      split
      · split
        · simp
        · rw [get_of_lt (by omega), ok_bind]
          dsimp only
          split
          · simp
          · rw [slice_of_le (by omega) (by omega), ok_bind]
            exact noFault_bind (noFault_parseBeeNFTTransferData _) fun _ _ => by simp
      · simp
    · simp
  · simp [h8]

theorem noFault_parseBeeNFTTransferTransaction (tx : CTransaction) :
    NoFault (ParseBeeNFTTransferTransaction tx) := by
  unfold ParseBeeNFTTransferTransaction
  refine noFault_bind (noFault_findSomeM fun o _ => noFault_parseBeeNFTTransferOutput o) ?_
  rintro (_ | transfer) _ <;> simp

variable (validAddress : List UInt8 → Bool)


theorem noFault_validateBeeNFTTokens (tokens : List BeeNFTToken) :
    NoFault (validateBeeNFTTokens validAddress tokens) := by
  induction tokens with
  | nil => simp [validateBeeNFTTokens]
  | cons token rest ih =>
    simp only [validateBeeNFTTokens]
    split_ifs <;> simp [ih]

theorem noFault_validateBeeNFTTransfers (transfers : List BeeNFTTransfer) :
    NoFault (validateBeeNFTTransfers validAddress transfers) := by
  induction transfers with
  | nil => simp [validateBeeNFTTransfers]
  | cons transfer rest ih =>
    simp only [validateBeeNFTTransfers]
    split_ifs <;> simp [ih]

theorem noFault_isValidBeeNFTTokenOutput (tx : CTransaction) (txout : CTxOut) :
    NoFault (isValidBeeNFTTokenOutput validAddress tx txout) := by
  unfold isValidBeeNFTTokenOutput
  by_cases h10 : 10 ≤ txout.scriptPubKey.length
  · rw [if_pos h10, get_of_lt (by omega), ok_bind]
    split
    · rw [get_of_lt (by omega), ok_bind]
      split
      · rw [slice_of_le (by omega) (by omega), ok_bind]
        dsimp only
        split
        · simp
        · exact noFault_bind (noFault_parseBeeNFTTokenTransaction tx) fun tokens _ =>
            noFault_bind (noFault_validateBeeNFTTokens validAddress tokens) fun _ _ => by simp
      · simp
    · simp
  · simp [h10]

/-- `IsValidBeeNFTTokenTransaction` reads only inside each output script, whatever
the transaction. -/
theorem noFault_IsValidBeeNFTTokenTransaction (tx : CTransaction) :
    NoFault (IsValidBeeNFTTokenTransaction validAddress tx) := by
  unfold IsValidBeeNFTTokenTransaction
  refine noFault_bind (noFault_findSomeM fun o _ =>
    noFault_isValidBeeNFTTokenOutput validAddress tx o) fun found _ => ?_
  split <;> simp

theorem noFault_isValidBeeNFTTransferOutput (tx : CTransaction) (txout : CTxOut) :
    NoFault (isValidBeeNFTTransferOutput validAddress tx txout) := by
  unfold isValidBeeNFTTransferOutput
  by_cases h8 : 8 ≤ txout.scriptPubKey.length
  · rw [if_pos h8, get_of_lt (by omega), ok_bind]
    split
    · rw [slice_of_le (by omega) (by omega), ok_bind]
      dsimp only
      split
      · simp
      · exact noFault_bind (noFault_parseBeeNFTTransferTransaction tx) fun transfers _ =>
          noFault_bind (noFault_validateBeeNFTTransfers validAddress transfers) fun _ _ => by simp
    · simp
  · simp [h8]

/-- `IsValidBeeNFTTransferTransaction` reads only inside each output script. -/
theorem noFault_IsValidBeeNFTTransferTransaction (tx : CTransaction) :
    NoFault (IsValidBeeNFTTransferTransaction validAddress tx) := by
  unfold IsValidBeeNFTTransferTransaction
  refine noFault_bind (noFault_findSomeM fun o _ =>
    noFault_isValidBeeNFTTransferOutput validAddress tx o) fun found _ => ?_
  split <;> simp

/-- An output script the unguarded generic scan can read: it has a first byte,
and a second one when the first is `OP_RETURN`. -/
def scannable : CScript → Bool
  | [] => false
  | [b] => b != OP_RETURN
  | _ :: _ :: _ => true

/-- The body of the generic scan faults exactly on the scripts that are not
`scannable`. -/
theorem noFault_genericNFTMagicOutput_iff (magic : List UInt8) (output : CTxOut) :
    NoFault (genericNFTMagicOutput magic output) ↔ scannable output.scriptPubKey = true := by
  unfold genericNFTMagicOutput
  match hspk : output.scriptPubKey with
  | [] => simp [get_of_le, scannable]
  | [b] =>
    by_cases hb : b = OP_RETURN
    · simp [hb, scannable, suffix_of_gt]
    · simp [hb, scannable]
  | b :: c :: rest =>
    simp only [get_of_lt (show 0 < (b :: c :: rest).length by simp), ok_bind, scannable,
      iff_true]
    split
    · rw [suffix_of_le (by simp), ok_bind]
      split
      · split <;> simp
      · simp
    · simp

theorem noFault_IsValidGenericNFTTransaction {tx : CTransaction}
    (h : ∀ o ∈ tx.vout, scannable o.scriptPubKey = true) :
    NoFault (IsValidGenericNFTTransaction tx) := by
  unfold IsValidGenericNFTTransaction
  split
  · simp
  · refine noFault_bind (noFault_anyM fun o ho =>
      (noFault_genericNFTMagicOutput_iff _ o).2 (h o ho)) fun found _ => ?_
    split <;> simp

theorem noFault_IsValidGenericNFTTransferTransaction {tx : CTransaction}
    (h : ∀ o ∈ tx.vout, scannable o.scriptPubKey = true) :
    NoFault (IsValidGenericNFTTransferTransaction tx) := by
  unfold IsValidGenericNFTTransferTransaction
  split
  · simp
  · refine noFault_bind (noFault_anyM fun o ho =>
      (noFault_genericNFTMagicOutput_iff _ o).2 (h o ho)) fun found _ => ?_
    split <;> simp

end FaultFreedom

end Cascoin
