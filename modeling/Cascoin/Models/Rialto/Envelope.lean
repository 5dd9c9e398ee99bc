import Cascoin.Core.Cbc
import Cascoin.Models.Hive.Proof
import Cascoin.Models.Rialto.WhitePages

/-!
# Rialto message envelopes

`RialtoEncryptMessage` wraps a message in three envelopes. Layer 1 is
`plaintext 0x00 hexTimeStamp senderNick 0x00 recipientNick 0x00 signature`;
layer 2 is the IV, an ephemeral public key, layer 1 encrypted with AES-256-CBC
under a key shared with the recipient by ECDH, and a MAC; layer 3 is the hex
proof-of-work nonce, the hex timestamp and layer 2 in hex. The receiving node
reads the message with a string limit of `RIALTO_L3_MAX_LENGTH * 2`, checks it
with `RialtoParseLayer3Envelope`, and `RialtoDecryptMessage` checks the bounds
of layer 2 and layer 1 before the fields.

The bounds count layer 1 at 83 to 276 bytes and layer 2 as 81 bytes more, but
the CBC padding adds 1 to 16 bytes. A message whose plaintext and nicks come to
196 bytes or more makes a layer 3 envelope of 754 hex digits, over the limit of
746 (`RialtoEncryptMessage_too_long`). Up to 195 every bound holds
(`RialtoEncryptMessage_within_bounds`).

The cryptographic primitives are given (`RialtoCrypto`), with the sizes of
their outputs; what a round trip needs of them beyond that is stated where it
is used. The secp256k1 contexts are taken to be created and randomised, and the
queue of received messages is not modelled.
-/

namespace Cascoin

/-! ## Constants and text -/

/-- `RIALTO_MESSAGE_TTL`, in seconds. -/
def RIALTO_MESSAGE_TTL : Int := 15 * 60

/-- `RIALTO_L1_MIN_LENGTH`. -/
def RIALTO_L1_MIN_LENGTH : Nat := 1 + 1 + 8 + 3 + 1 + 3 + 1 + 65

/-- `RIALTO_L1_MAX_LENGTH`. -/
def RIALTO_L1_MAX_LENGTH : Nat := 160 + 1 + 8 + 20 + 1 + 20 + 1 + 65

/-- `RIALTO_L2_MIN_LENGTH`. -/
def RIALTO_L2_MIN_LENGTH : Nat := 16 + 33 + RIALTO_L1_MIN_LENGTH + 32

/-- `RIALTO_L2_MAX_LENGTH`. -/
def RIALTO_L2_MAX_LENGTH : Nat := 16 + 33 + RIALTO_L1_MAX_LENGTH + 32

/-- `RIALTO_L3_MIN_LENGTH`. -/
def RIALTO_L3_MIN_LENGTH : Nat := 8 + 8 + RIALTO_L2_MIN_LENGTH

/-- `RIALTO_L3_MAX_LENGTH`. -/
def RIALTO_L3_MAX_LENGTH : Nat := 8 + 8 + RIALTO_L2_MAX_LENGTH

/-- `RIALTO_MESSAGE_POW_TARGET`, `0000ffff…ff`. -/
def RIALTO_MESSAGE_POW_TARGET : Nat := 2 ^ 240 - 1

/-- `IntToHexStr` of a `uint32_t`: eight lowercase hex digits, zero filled. -/
def IntToHexStr (i : UInt32) : List UInt8 := Bytes.HexStr (Bytes.leBytes i.toNat 4).reverse

/-- `ParseHex`: pairs of hex digits, each pair after any white space, up to the
first byte that is not a hex digit or the end of the string. -/
def ParseHex : List UInt8 → List UInt8
  | [] => []
  | c :: rest =>
    if isSpace c then ParseHex rest
    else
      match Bytes.HexDigit c, rest with
      | some hi, c' :: rest' =>
        match Bytes.HexDigit c' with
        | some lo => UInt8.ofNat (hi * 16 + lo) :: ParseHex rest'
        | none => []
      | _, _ => []

/-- `(uint32_t)std::stoul(str, nullptr, 16)`: white space, a sign and a `0x` prefix,
then the longest run of hex digits; a string with no digit throws
`std::invalid_argument`, one out of the range of `unsigned long` `std::out_of_range`. -/
def stoulHex (str : List UInt8) : Checked String UInt32 := do
  let str := str.dropWhile isSpace
  let (negative, str) := match str with
    | 0x2d :: rest => (true, rest)
    | 0x2b :: rest => (false, rest)
    | _ => (false, str)
  -- the prefix counts only when a hex digit follows it
  let str := match str with
    | 0x30 :: x :: c :: rest =>
      if (x == 0x78 || x == 0x58) && (Bytes.HexDigit c).isSome then c :: rest else str
    | _ => str
  let digits := ((str.map Bytes.HexDigit).takeWhile Option.isSome).filterMap id
  let value ← if digits.isEmpty then Checked.raise "stoul" else pure (hexValue digits)
  let value ← if value ≥ 2 ^ 64 then Checked.raise "stoul" else pure value
  return UInt32.ofInt (if negative then -value else value)

/-- `RialtoIsValidNickFormat`: 3 to 20 lowercase letters and underscores. -/
def RialtoIsValidNickFormat (nick : List UInt8) : Bool :=
  if nick.length < 3 || nick.length > 20 then false
  else !nick.any fun c => (c < 0x61 || c > 0x7a) && c != 0x5f

/-- `RialtoIsValidPlaintext`: 1 to 160 printable characters, not only spaces. -/
def RialtoIsValidPlaintext (plaintext : List UInt8) : Bool :=
  -- `find_first_not_of(' ') == npos`, also for the empty string
  if plaintext.all (· == 0x20) then false
  else if plaintext.length < 1 || plaintext.length > 160 then false
  else !plaintext.any fun c => c < 32 || c > 126

/-! ## Keys and primitives -/

/-- `CPubKey::GetLen(chHeader)`. -/
def CPubKey.GetLen (chHeader : UInt8) : Nat :=
  if chHeader == 2 || chHeader == 3 then 33
  else if chHeader == 4 || chHeader == 6 || chHeader == 7 then 65
  else 0

/-- The bytes of `CPubKey(vch)`: the key when its header gives its length, else the
invalid key, whose `size()` is 0. -/
def CPubKey.ofBytes (vch : List UInt8) : List UInt8 :=
  match vch with
  | [] => []
  | c :: _ => if CPubKey.GetLen c ≠ 0 ∧ CPubKey.GetLen c = vch.length then vch else []

/-- The cryptographic primitives Rialto calls, with the sizes of what they return. -/
structure RialtoCrypto where
  /-- `Hash(begin, end)`, double SHA-256. -/
  hash : List UInt8 → Uint256
  /-- `CKey::SignCompact` with the compressed key of the given bytes, `none` for an
  invalid key. -/
  signCompact : List UInt8 → Uint256 → Option (List UInt8)
  /-- `CKey::GetPubKey`, the compressed public key of a private key. -/
  pubKeyOf : List UInt8 → List UInt8
  /-- `secp256k1_ec_pubkey_parse`. -/
  pubKeyParse : List UInt8 → Bool
  /-- `secp256k1_ecdh(ctx, out, pubkey, privkey)`: the shared secret. -/
  ecdh : List UInt8 → List UInt8 → Option (List UInt8)
  /-- `CSHA512`. -/
  sha512 : List UInt8 → List UInt8
  /-- `CHMAC_SHA256` with a 32-byte key over the data. -/
  hmacSha256 : List UInt8 → List UInt8 → List UInt8
  /-- The AES-256 block cipher with a 32-byte key. -/
  aesEncryptBlock : List UInt8 → List UInt8 → List UInt8
  /-- Its inverse. -/
  aesDecryptBlock : List UInt8 → List UInt8 → List UInt8
  /-- A compact signature has `COMPACT_SIGNATURE_SIZE` bytes. -/
  length_signCompact : ∀ key hash sig, signCompact key hash = some sig → sig.length = 65
  /-- A compressed public key has 33 bytes. -/
  length_pubKeyOf : ∀ key, (pubKeyOf key).length = 33
  /-- An HMAC-SHA-256 has 32 bytes. -/
  length_hmacSha256 : ∀ key data, (hmacSha256 key data).length = 32
  /-- The block cipher maps blocks to blocks. -/
  length_aesEncryptBlock : ∀ key block, block.length = 16 → (aesEncryptBlock key block).length = 16

/-- What the Rialto code of a node reads: its clock, the global white pages, its own
nicks, its blocked nicks and its wallet's keys. -/
structure RialtoNodeState where
  /-- `GetAdjustedTime()`, stored in a `uint32_t`. -/
  adjustedTime : UInt32
  /-- `pwhitepages`. -/
  whitepages : WhitePages
  /-- `pmynicks`, the node's nicks with their keys' hex strings, in database order. -/
  mynicks : List (List UInt8 × List UInt8)
  /-- `pblockednicks`. -/
  blockednicks : List (List UInt8)
  /-- The private key the wallet holds for a public key, `none` when it holds none or
  is locked. -/
  privKeyFor : List UInt8 → Option (List UInt8)

namespace RialtoNodeState

variable (node : RialtoNodeState)

/-- `RialtoNickIsLocal`. -/
def RialtoNickIsLocal (nick : List UInt8) : Bool := (node.mynicks.lookup nick).isSome

/-- `RialtoNickIsBlocked`. -/
def RialtoNickIsBlocked (nick : List UInt8) : Bool := node.blockednicks.contains nick

/-- `RialtoGetLocalPrivKeyForNick`: the wallet's key for the nick's public key. -/
def RialtoGetLocalPrivKeyForNick (nick : List UInt8) : Option (List UInt8) := do
  let pubKeyStr ← node.mynicks.lookup nick
  node.privKeyFor (CPubKey.ofBytes (ParseHex pubKeyStr))

end RialtoNodeState

/-! ## Sending -/

/-- `arith_uint256(MinotaurHashString(data).ToString()) <= RIALTO_MESSAGE_POW_TARGET` for the
data hashed with the decimal nonce. -/
def meetsRialtoTarget (env : ChainEnv) (dataToHash : List UInt8) (nonce : UInt32) : Bool :=
  (uint256S (env.minotaur (dataToHash ++ decimalString nonce.toNat)).GetHex).toNat ≤
    RIALTO_MESSAGE_POW_TARGET

/-- The proof-of-work loop from `nonce`, with `fuel` nonces left before the counter
wraps to 0. -/
def powNonce (meets : UInt32 → Bool) : Nat → UInt32 → Option UInt32
  | 0, _ => none
  | fuel + 1, nonce => if meets nonce then some nonce else powNonce meets fuel (nonce + 1)

/-- The layer 1 envelope before its signature. -/
def rialtoLayer1 (plaintext nowStr nickFrom nickTo : List UInt8) : List UInt8 :=
  plaintext ++ [0] ++ nowStr ++ nickFrom ++ [0] ++ nickTo ++ [0]

/-- The layer 2 envelope: the IV, the ephemeral key, layer 1 encrypted with the first
half of the hashed shared secret, and the MAC keyed with the second half. -/
def rialtoLayer2 (crypto : RialtoCrypto) (IV ephemeralPubKey sharedSecret layer1 : List UInt8) :
    List UInt8 :=
  -- KDF: SHA-512 of the shared secret, split into the encryption and the MAC key
  let sharedSecretHash := crypto.sha512 sharedSecret
  let keyEncryption := sharedSecretHash.take 32
  let keyMAC := (sharedSecretHash.drop 32).take 32
  let encrypted := Cbc.encrypt (crypto.aesEncryptBlock keyEncryption) IV layer1
  let mac := crypto.hmacSha256 keyMAC (IV ++ ephemeralPubKey ++ encrypted)
  IV ++ ephemeralPubKey ++ encrypted ++ mac

/-- `RialtoEncryptMessage(nickFrom, nickTo, plaintext, ciphertext, timestampSent, err)`
with `IV` and `ephemeralKey` the random bytes it draws: the layer 3 envelope and
its timestamp, or `err`. -/
def RialtoEncryptMessage (env : ChainEnv) (crypto : RialtoCrypto) (node : RialtoNodeState)
    (IV ephemeralKey nickFrom nickTo plaintext : List UInt8) :
    Checked String (List UInt8 × UInt32) := do
  Checked.require (RialtoIsValidPlaintext plaintext)
    "Plaintext is invalid; 1-160 printable characters only. Cannot contain only spaces."
  Checked.require (!nickFrom.isEmpty) "From nick is empty."
  Checked.require (!node.RialtoNickIsLocal nickTo)
    "You can chat to yourself in the mirror, but not here! (Destination nick is local)"
  Checked.require (!node.RialtoNickIsBlocked nickTo) "Destination nick is blocked."
  let now := node.adjustedTime
  let nowStr := IntToHexStr now
  let layer1 := rialtoLayer1 plaintext nowStr nickFrom nickTo
  let some fromPrivKeyData := node.RialtoGetLocalPrivKeyForNick nickFrom
    | Checked.reject "Can't find local privkey for sending nick."
  let some messageSig := crypto.signCompact fromPrivKeyData (crypto.hash layer1)
    | Checked.reject "Couldn't sign the message."
  let some destPubKeyStr := node.whitepages nickTo
    | Checked.reject "Can't find recipient pubkey in white pages."
  let destPubKey := CPubKey.ofBytes (ParseHex destPubKeyStr)
  Checked.require (crypto.pubKeyParse destPubKey) "Couldn't parse the destination pubkey."
  let ephemeralPubKey := crypto.pubKeyOf ephemeralKey
  let some sharedSecret := crypto.ecdh destPubKey ephemeralKey
    | Checked.reject "Couldn't perform ECDH to get shared secret."
  let layer2 := rialtoLayer2 crypto IV ephemeralPubKey sharedSecret (layer1 ++ messageSig)
  let dataToHash := nowStr ++ Bytes.HexStr layer2
  let some nonce := powNonce (meetsRialtoTarget env dataToHash) (2 ^ 32) 0
    | Checked.reject "PoW Nonce overflow."
  return (IntToHexStr nonce ++ nowStr ++ Bytes.HexStr layer2, now)

/-! ## Receiving -/

/-- `vRecv >> LIMITED_STRING(strMsg, RIALTO_L3_MAX_LENGTH * 2)`: a longer string throws
`std::ios_base::failure`. -/
def readRialtoMessage (strMsg : List UInt8) : Checked String (List UInt8) :=
  if strMsg.length > RIALTO_L3_MAX_LENGTH * 2 then Checked.raise "String length limit exceeded"
  else pure strMsg

/-- `RialtoParseLayer3Envelope(ciphertext, err, &layer2Envelope, &timestamp)`: layer 2
in hex and the timestamp, or `err`. -/
def RialtoParseLayer3Envelope (env : ChainEnv) (node : RialtoNodeState) (ciphertext : List UInt8) :
    Checked String (List UInt8 × UInt32) := do
  let found := ciphertext.length
  Checked.require (!(found < RIALTO_L3_MIN_LENGTH * 2)) "Layer 3 envelope is too short."
  Checked.require (!(found > RIALTO_L3_MAX_LENGTH * 2))
    s!"Layer 3 envelope is too long (max {RIALTO_L3_MAX_LENGTH}, found {found})."
  let nonce ← stoulHex (ciphertext.take 8)
  let t ← stoulHex ((ciphertext.drop 8).take 8)
  let e := ciphertext.drop 16
  -- `uint32_t` arithmetic
  let now := node.adjustedTime
  Checked.require (!(t < now - UInt32.ofInt RIALTO_MESSAGE_TTL)) "Message timestamp is too old."
  Checked.require (!(t > now + UInt32.ofInt RIALTO_MESSAGE_TTL))
    "Message timestamp is too far in the future."
  Checked.require (meetsRialtoTarget env (IntToHexStr t ++ e) nonce)
    "Message doesn't meet PoW target."
  return (e, t)

/-- A decrypted message, `RialtoQueuedMessage`. -/
structure RialtoQueuedMessage where
  fromNick : List UInt8
  toNick : List UInt8
  message : List UInt8
  timestamp : UInt32
  deriving DecidableEq

/-- The first three NULs of layer 1, `0` for one not found; a NUL at index 0 is
recorded as `0` too, which the scan reads as not yet found. -/
def findNulls (layer1EnvelopeVec : List UInt8) : Nat × Nat × Nat :=
  go 0 (0, 0, 0) layer1EnvelopeVec
where
  /-- The scan from index `i` with the NULs found so far. -/
  go (i : Nat) (nulls : Nat × Nat × Nat) : List UInt8 → Nat × Nat × Nat
    | [] => nulls
    | c :: rest =>
      if c = 0 then
        if nulls.1 = 0 then go (i + 1) (i, nulls.2) rest
        else if nulls.2.1 = 0 then go (i + 1) (nulls.1, i, nulls.2.2) rest
        else if nulls.2.2 = 0 then (nulls.1, nulls.2.1, i)
        else go (i + 1) nulls rest
      else go (i + 1) nulls rest

/-- The checks of `RialtoDecryptMessage` on a decrypted layer 1 envelope, for the
node's nick `nick`. A field whose end comes before its start is read as empty. -/
def checkLayer1 (env : ChainEnv) (crypto : RialtoCrypto) (node : RialtoNodeState)
    (layer3timestamp : UInt32) (nick layer1EnvelopeVec : List UInt8) :
    Checked String RialtoQueuedMessage := do
  Checked.require (!(layer1EnvelopeVec.length < RIALTO_L1_MIN_LENGTH))
    "Layer 1 envelope is too short."
  Checked.require (!(layer1EnvelopeVec.length > RIALTO_L1_MAX_LENGTH))
    "Layer 1 envelope is too long."
  let (firstNull, secondNull, thirdNull) := findNulls layer1EnvelopeVec
  Checked.require (!(firstNull = 0 || secondNull = 0 || thirdNull = 0))
    "Nulls missing in layer1EnvelopeVec."
  -- the ranges `[begin + a, begin + b)` of the fields: one that ends before it starts, or
  -- past the envelope, is read past the buffer
  let unconfirmedPlaintext ← Checked.slice layer1EnvelopeVec 0 firstNull
  let layer1timestampStr ← Checked.slice layer1EnvelopeVec (firstNull + 1) (firstNull + 9)
  let unconfirmedSenderNick ← Checked.slice layer1EnvelopeVec (firstNull + 9) secondNull
  let unconfirmedDestinationNick ← Checked.slice layer1EnvelopeVec (secondNull + 1) thirdNull
  let messageSig ← Checked.suffix layer1EnvelopeVec (thirdNull + 1)
  let encapsulatedMessage ← Checked.slice layer1EnvelopeVec 0 (thirdNull + 1)
  let layer1timestamp ← stoulHex layer1timestampStr
  Checked.require (layer1timestamp == layer3timestamp)
    "Layer 1 / Layer 3 Envelope timestamp mismatch."
  Checked.require (RialtoIsValidNickFormat unconfirmedDestinationNick)
    "Invalid destination nick format. Shenanigans!"
  Checked.require (RialtoIsValidNickFormat unconfirmedSenderNick)
    "Invalid sender nick. Shenanigans!"
  Checked.require (unconfirmedDestinationNick == nick)
    ("Destination nick doesn't match the nick we're trying to decrypt as. " ++
      "Possible repackaged-L1 replay attack. Shenanigans!")
  Checked.require (!node.RialtoNickIsBlocked unconfirmedSenderNick) "Sender nick is blocked."
  Checked.require (RialtoIsValidPlaintext unconfirmedPlaintext) "Invalid plaintext."
  let some whitePagesPubKey := node.whitepages unconfirmedSenderNick
    | Checked.reject "Can't find pubkey for sending nick in White Pages."
  let some sigPubKey := env.recoverCompact (crypto.hash encapsulatedMessage) messageSig
    | Checked.reject "Strange format. Couldn't recover a pubkey from the message sig."
  -- `memcmp(sigPubKey.begin(), whitePagesPubKeyVec.data(), 33)`: a `CPubKey` holds 65 bytes,
  -- the vector only what `ParseHex` read
  let whitePagesPubKeyVec ← Checked.slice (ParseHex whitePagesPubKey) 0 33
  Checked.require (sigPubKey.take 33 == whitePagesPubKeyVec)
    "Forgery. Pubkey from sig doesn't match pubkey from white pages."
  return ⟨unconfirmedSenderNick, unconfirmedDestinationNick, unconfirmedPlaintext,
    layer1timestamp⟩

/-- One pass of the loop of `RialtoDecryptMessage` over the node's nicks: `none` to go
on with the next nick, else the outcome. -/
def RialtoDecryptAs (env : ChainEnv) (crypto : RialtoCrypto) (node : RialtoNodeState)
    (layer3timestamp : UInt32) (IV ephemeralPubKey encrypted mac : List UInt8)
    (n : List UInt8 × List UInt8) : Option (Checked String RialtoQueuedMessage) := do
  let privKeyData ← node.RialtoGetLocalPrivKeyForNick n.1
  let sharedSecret ← crypto.ecdh ephemeralPubKey privKeyData
  let sharedSecretHash := crypto.sha512 sharedSecret
  let keyEncryption := sharedSecretHash.take 32
  let keyMAC := (sharedSecretHash.drop 32).take 32
  -- `macer.Write(IV.data(), 16)`, the decryption's IV and `memcmp(mac.data(), macCalc.data(), 32)`
  -- read 16 bytes of `IV` and 32 of `mac`, whatever `ParseHex` returned
  match (Checked.slice IV 0 16 : Checked String _), (Checked.slice mac 0 32 : Checked String _) with
  | .ok IV16, .ok mac32 =>
    let macCalc := crypto.hmacSha256 keyMAC (IV16 ++ ephemeralPubKey ++ encrypted)
    -- a MAC that does not match: the message is not for this nick
    guard (mac32 == macCalc)
    let layer1EnvelopeVec := Cbc.decrypt (crypto.aesDecryptBlock keyEncryption) IV16 encrypted
    return checkLayer1 env crypto node layer3timestamp n.1 layer1EnvelopeVec
  | .error e, _ => return .error e
  | _, .error e => return .error e

/-- `RialtoDecryptMessage(layer3Envelope, err)`: the message decrypted for one of the
node's nicks, or `err`. -/
def RialtoDecryptMessage (env : ChainEnv) (crypto : RialtoCrypto) (node : RialtoNodeState)
    (layer3Envelope : List UInt8) : Checked String RialtoQueuedMessage := do
  let (layer2Envelope, layer3timestamp) ← RialtoParseLayer3Envelope env node layer3Envelope
  Checked.require (!(layer2Envelope.length < RIALTO_L2_MIN_LENGTH * 2))
    "Layer 2 envelope is too short."
  Checked.require (!(layer2Envelope.length > RIALTO_L2_MAX_LENGTH * 2))
    "Layer 2 envelope is too long."
  let IV := ParseHex (layer2Envelope.take 32)
  let ephemeralPubKey := ParseHex ((layer2Envelope.drop 32).take 66)
  let encrypted := ParseHex ((layer2Envelope.drop 98).take (layer2Envelope.length - 98 - 64))
  let mac := ParseHex ((layer2Envelope.drop (layer2Envelope.length - 64)).take 64)
  Checked.require (encrypted.length % 16 == 0)
    "Encrypted data is not a multiple of AES_BLOCKSIZE bytes."
  Checked.require (crypto.pubKeyParse ephemeralPubKey) "Couldn't parse the ephemeral pubkey."
  match node.mynicks.findSome?
      (RialtoDecryptAs env crypto node layer3timestamp IV ephemeralPubKey encrypted mac) with
  | some outcome => outcome
  | none => Checked.reject "Not for us."

/-! ## Lengths -/

@[simp] theorem length_IntToHexStr (i : UInt32) : (IntToHexStr i).length = 8 := by
  simp [IntToHexStr]

@[simp] theorem length_rialtoLayer1 (plaintext nowStr nickFrom nickTo : List UInt8) :
    (rialtoLayer1 plaintext nowStr nickFrom nickTo).length =
      plaintext.length + nowStr.length + nickFrom.length + nickTo.length + 3 := by
  simp [rialtoLayer1]
  omega

/-- Layer 2 is 81 bytes more than the encrypted layer 1, which the padding makes one
block more than the whole blocks of layer 1. -/
theorem length_rialtoLayer2 (crypto : RialtoCrypto) {IV ephemeralPubKey layer1 : List UInt8}
    (sharedSecret : List UInt8) (hIV : IV.length = 16) (heph : ephemeralPubKey.length = 33)
    (hne : layer1 ≠ []) :
    (rialtoLayer2 crypto IV ephemeralPubKey sharedSecret layer1).length =
      81 + 16 * (layer1.length / 16 + 1) := by
  simp only [rialtoLayer2, Cbc.encrypt, List.isEmpty_iff, hne, if_false, List.length_append,
    Cbc.length_encryptBlocks (crypto.length_aesEncryptBlock _) hIV, crypto.length_hmacSha256,
    heph, hIV]
  omega

/-- What a sent message is: the checks passed, a signature of the signed layer 1, the
recipient's key from the white pages, a shared secret, and a nonce meeting the target. -/
theorem RialtoEncryptMessage_eq_ok {env : ChainEnv} {crypto : RialtoCrypto}
    {node : RialtoNodeState} {IV ephemeralKey nickFrom nickTo plaintext ciphertext : List UInt8}
    {timestampSent : UInt32}
    (h : RialtoEncryptMessage env crypto node IV ephemeralKey nickFrom nickTo plaintext =
      .ok (ciphertext, timestampSent)) :
    ∃ fromPrivKeyData messageSig destPubKeyStr sharedSecret nonce,
      RialtoIsValidPlaintext plaintext = true ∧ nickFrom ≠ [] ∧
      node.RialtoNickIsLocal nickTo = false ∧ node.RialtoNickIsBlocked nickTo = false ∧
      node.RialtoGetLocalPrivKeyForNick nickFrom = some fromPrivKeyData ∧
      crypto.signCompact fromPrivKeyData
        (crypto.hash (rialtoLayer1 plaintext (IntToHexStr node.adjustedTime) nickFrom nickTo)) =
        some messageSig ∧
      node.whitepages nickTo = some destPubKeyStr ∧
      crypto.pubKeyParse (CPubKey.ofBytes (ParseHex destPubKeyStr)) = true ∧
      crypto.ecdh (CPubKey.ofBytes (ParseHex destPubKeyStr)) ephemeralKey = some sharedSecret ∧
      let layer2 := rialtoLayer2 crypto IV (crypto.pubKeyOf ephemeralKey) sharedSecret
        (rialtoLayer1 plaintext (IntToHexStr node.adjustedTime) nickFrom nickTo ++ messageSig)
      powNonce (meetsRialtoTarget env (IntToHexStr node.adjustedTime ++ Bytes.HexStr layer2))
        (2 ^ 32) 0 = some nonce ∧
      ciphertext = IntToHexStr nonce ++ IntToHexStr node.adjustedTime ++ Bytes.HexStr layer2 ∧
      timestampSent = node.adjustedTime := by
  simp only [RialtoEncryptMessage] at h
  -- the four checks on the arguments
  obtain ⟨_, hplain, h⟩ := Checked.bind_eq_ok h
  obtain ⟨_, hfrom, h⟩ := Checked.bind_eq_ok h
  obtain ⟨_, hlocal, h⟩ := Checked.bind_eq_ok h
  obtain ⟨_, hblocked, h⟩ := Checked.bind_eq_ok h
  -- the key, the signature, the recipient's key, the shared secret and the nonce
  cases hpriv : node.RialtoGetLocalPrivKeyForNick nickFrom with
  | none => simp [hpriv] at h
  | some fromPrivKeyData =>
  cases hsig : crypto.signCompact fromPrivKeyData
      (crypto.hash (rialtoLayer1 plaintext (IntToHexStr node.adjustedTime) nickFrom nickTo)) with
  | none => simp [hpriv, hsig] at h
  | some messageSig =>
  cases hdest : node.whitepages nickTo with
  | none => simp [hpriv, hsig, hdest] at h
  | some destPubKeyStr =>
  simp only [hpriv, hsig, hdest] at h
  obtain ⟨_, hparse, h⟩ := Checked.bind_eq_ok h
  cases hsecret : crypto.ecdh (CPubKey.ofBytes (ParseHex destPubKeyStr)) ephemeralKey with
  | none => simp [hsecret] at h
  | some sharedSecret =>
  simp only [hsecret] at h
  split at h
  · rename_i nonce hnonce
    simp only [Checked.pure_eq, Except.ok.injEq, Prod.mk.injEq] at h
    obtain ⟨hc, ht⟩ := h
    exact ⟨fromPrivKeyData, messageSig, destPubKeyStr, sharedSecret, nonce,
      Checked.require_eq_ok.1 hplain, by simpa using Checked.require_eq_ok.1 hfrom,
      by simpa using Checked.require_eq_ok.1 hlocal,
      by simpa using Checked.require_eq_ok.1 hblocked, rfl, hsig, rfl,
      Checked.require_eq_ok.1 hparse, hsecret, hnonce, hc.symm, ht.symm⟩
  · simp at h

/-- A valid plaintext has 1 to 160 characters. -/
theorem length_of_RialtoIsValidPlaintext {plaintext : List UInt8}
    (h : RialtoIsValidPlaintext plaintext = true) :
    1 ≤ plaintext.length ∧ plaintext.length ≤ 160 := by
  unfold RialtoIsValidPlaintext at h
  split at h
  · simp at h
  split at h
  · simp at h
  · rename_i hlen
    simp only [Bool.or_eq_true, decide_eq_true_eq, not_or, not_lt] at hlen
    omega

/-- A nick of valid format has 3 to 20 characters. -/
theorem length_of_RialtoIsValidNickFormat {nick : List UInt8}
    (h : RialtoIsValidNickFormat nick = true) : 3 ≤ nick.length ∧ nick.length ≤ 20 := by
  unfold RialtoIsValidNickFormat at h
  split at h
  · simp at h
  · rename_i hlen
    simp only [Bool.or_eq_true, decide_eq_true_eq, not_or, not_lt] at hlen
    omega

/-- The layer 3 envelope of a sent message is 16 hex digits and layer 2 in hex, whose
encrypted part is one block more than the whole blocks of the signed layer 1. -/
theorem length_RialtoEncryptMessage {env : ChainEnv} {crypto : RialtoCrypto}
    {node : RialtoNodeState} {IV ephemeralKey nickFrom nickTo plaintext ciphertext : List UInt8}
    {timestampSent : UInt32}
    (h : RialtoEncryptMessage env crypto node IV ephemeralKey nickFrom nickTo plaintext =
      .ok (ciphertext, timestampSent)) (hIV : IV.length = 16) :
    ciphertext.length = 16 + 2 * (81 + 16 *
      ((plaintext.length + nickFrom.length + nickTo.length + 76) / 16 + 1)) := by
  obtain ⟨_, messageSig, _, sharedSecret, nonce, -, -, -, -, -, hsig, -, -, -, -, hc, -⟩ :=
    RialtoEncryptMessage_eq_ok h
  have hsigLen := crypto.length_signCompact _ _ _ hsig
  rw [hc]
  simp only [List.length_append, length_IntToHexStr, Bytes.length_HexStr]
  rw [length_rialtoLayer2 crypto _ hIV (crypto.length_pubKeyOf _) (by simp [rialtoLayer1])]
  simp only [List.length_append, length_rialtoLayer1, length_IntToHexStr, hsigLen]
  omega

/-- With plaintext and nicks of 196 characters or more, a message that is sent cannot be
received: its layer 3 envelope has 754 hex digits, the node reading it throws at the
string limit of 746, and `RialtoDecryptMessage` rejects it as too long. -/
theorem RialtoEncryptMessage_too_long {env : ChainEnv} {crypto : RialtoCrypto}
    {sender : RialtoNodeState} (receiver : RialtoNodeState)
    {IV ephemeralKey nickFrom nickTo plaintext : List UInt8}
    (hok : (RialtoEncryptMessage env crypto sender IV ephemeralKey nickFrom nickTo plaintext).isOk)
    (hIV : IV.length = 16) (hfrom : RialtoIsValidNickFormat nickFrom = true)
    (hto : RialtoIsValidNickFormat nickTo = true)
    (hlong : 196 ≤ plaintext.length + nickFrom.length + nickTo.length) :
    ∃ ciphertext timestampSent,
      RialtoEncryptMessage env crypto sender IV ephemeralKey nickFrom nickTo plaintext =
        .ok (ciphertext, timestampSent) ∧
      ciphertext.length = 754 ∧
      readRialtoMessage ciphertext = .error (.fault (.exception "String length limit exceeded")) ∧
      RialtoDecryptMessage env crypto receiver ciphertext =
        .error (.reject "Layer 3 envelope is too long (max 373, found 754).") := by
  cases hsent : RialtoEncryptMessage env crypto sender IV ephemeralKey nickFrom nickTo plaintext with
  | error e => simp [hsent, Except.isOk, Except.toBool] at hok
  | ok r =>
    obtain ⟨ciphertext, timestampSent⟩ := r
    obtain ⟨_, _, _, _, _, hplain, -⟩ := RialtoEncryptMessage_eq_ok hsent
    have hp := length_of_RialtoIsValidPlaintext hplain
    have hf := length_of_RialtoIsValidNickFormat hfrom
    have ht := length_of_RialtoIsValidNickFormat hto
    -- layer 1 is 272 to 276 bytes: the padding makes it 18 blocks, where 17 are counted
    have hlen : ciphertext.length = 754 := by
      rw [length_RialtoEncryptMessage hsent hIV]
      omega
    refine ⟨ciphertext, timestampSent, rfl, hlen, ?_, ?_⟩
    · simp [readRialtoMessage, hlen, RIALTO_L3_MAX_LENGTH, RIALTO_L2_MAX_LENGTH,
        RIALTO_L1_MAX_LENGTH]
    · simp [RialtoDecryptMessage, RialtoParseLayer3Envelope, hlen, RIALTO_L3_MIN_LENGTH,
        RIALTO_L3_MAX_LENGTH, RIALTO_L2_MIN_LENGTH, RIALTO_L2_MAX_LENGTH, RIALTO_L1_MIN_LENGTH,
        RIALTO_L1_MAX_LENGTH]
      decide

/-- A 160-character message between two 20-character nicks, with primitives of the
right sizes: it is sent, and it cannot be received. -/
theorem RialtoEncryptMessage_too_long_at_limits :
    let crypto : RialtoCrypto :=
      { hash := fun _ => Uint256.zero
        signCompact := fun _ _ => some (List.replicate 65 0)
        pubKeyOf := fun _ => List.replicate 33 2
        pubKeyParse := fun _ => true
        ecdh := fun _ _ => some (List.replicate 32 0)
        sha512 := fun _ => List.replicate 64 0
        hmacSha256 := fun _ _ => List.replicate 32 0
        aesEncryptBlock := fun _ block => block
        aesDecryptBlock := fun _ block => block
        length_signCompact := fun _ _ _ h => by simp at h; simp [← h]
        length_pubKeyOf := fun _ => by simp
        length_hmacSha256 := fun _ _ => by simp
        length_aesEncryptBlock := fun _ _ h => h }
    let alice := List.replicate 20 (0x61 : UInt8)
    let bob := List.replicate 20 (0x62 : UInt8)
    let sender : RialtoNodeState :=
      ⟨1700000000, FunMap.insert (fun _ => none) bob (Bytes.HexStr (2 :: List.replicate 32 1)),
        [(alice, Bytes.HexStr (2 :: List.replicate 32 3))], [], fun _ => some (List.replicate 32 7)⟩
    let receiver : RialtoNodeState :=
      ⟨1700000000, FunMap.insert (fun _ => none) alice (Bytes.HexStr (2 :: List.replicate 32 3)),
        [(bob, Bytes.HexStr (2 :: List.replicate 32 1))], [], fun _ => some (List.replicate 32 9)⟩
    let plaintext := List.replicate 160 (0x61 : UInt8)
    ((RialtoEncryptMessage (constEnv mainParams) crypto sender (List.replicate 16 0)
        (List.replicate 32 5) alice bob plaintext).isOk = true ∧
      (List.replicate 16 (0 : UInt8)).length = 16 ∧ RialtoIsValidNickFormat alice = true ∧
      RialtoIsValidNickFormat bob = true ∧ 196 ≤ plaintext.length + alice.length + bob.length) ∧
    ∃ ciphertext timestampSent,
      RialtoEncryptMessage (constEnv mainParams) crypto sender (List.replicate 16 0)
          (List.replicate 32 5) alice bob plaintext = .ok (ciphertext, timestampSent) ∧
      ciphertext.length = 754 ∧
      readRialtoMessage ciphertext = .error (.fault (.exception "String length limit exceeded")) ∧
      RialtoDecryptMessage (constEnv mainParams) crypto receiver ciphertext =
        .error (.reject "Layer 3 envelope is too long (max 373, found 754).") := by
  intro crypto alice bob sender receiver plaintext
  have hok : (RialtoEncryptMessage (constEnv mainParams) crypto sender (List.replicate 16 0)
      (List.replicate 32 5) alice bob plaintext).isOk = true := by
    decide +kernel
  have hfrom : RialtoIsValidNickFormat alice = true := by decide +kernel
  have hto : RialtoIsValidNickFormat bob = true := by decide +kernel
  have hlong : 196 ≤ plaintext.length + alice.length + bob.length := by decide +kernel
  exact ⟨⟨hok, rfl, hfrom, hto, hlong⟩,
    RialtoEncryptMessage_too_long receiver hok rfl hfrom hto hlong⟩

/-- With plaintext and nicks of 195 characters or fewer, a sent message is within the
string limit and the layer 3 and layer 2 bounds of the receiving node. -/
theorem RialtoEncryptMessage_within_bounds {env : ChainEnv} {crypto : RialtoCrypto}
    {node : RialtoNodeState} {IV ephemeralKey nickFrom nickTo plaintext ciphertext : List UInt8}
    {timestampSent : UInt32}
    (h : RialtoEncryptMessage env crypto node IV ephemeralKey nickFrom nickTo plaintext =
      .ok (ciphertext, timestampSent)) (hIV : IV.length = 16)
    (hfrom : RialtoIsValidNickFormat nickFrom = true) (hto : RialtoIsValidNickFormat nickTo = true)
    (hshort : plaintext.length + nickFrom.length + nickTo.length ≤ 195) :
    readRialtoMessage ciphertext = .ok ciphertext ∧
      RIALTO_L3_MIN_LENGTH * 2 ≤ ciphertext.length ∧
      ciphertext.length ≤ RIALTO_L3_MAX_LENGTH * 2 ∧
      RIALTO_L2_MIN_LENGTH * 2 ≤ ciphertext.length - 16 ∧
      ciphertext.length - 16 ≤ RIALTO_L2_MAX_LENGTH * 2 := by
  obtain ⟨_, _, _, _, _, hplain, -⟩ := RialtoEncryptMessage_eq_ok h
  have hp := length_of_RialtoIsValidPlaintext hplain
  have hf := length_of_RialtoIsValidNickFormat hfrom
  have ht := length_of_RialtoIsValidNickFormat hto
  have hlen := length_RialtoEncryptMessage h hIV
  have hmax : ciphertext.length ≤ RIALTO_L3_MAX_LENGTH * 2 := by
    simp only [RIALTO_L3_MAX_LENGTH, RIALTO_L2_MAX_LENGTH, RIALTO_L1_MAX_LENGTH]
    omega
  refine ⟨by simp [readRialtoMessage, Nat.not_lt.2 hmax], ?_, hmax, ?_, ?_⟩ <;>
    simp only [RIALTO_L3_MIN_LENGTH, RIALTO_L2_MIN_LENGTH, RIALTO_L2_MAX_LENGTH,
      RIALTO_L1_MIN_LENGTH, RIALTO_L1_MAX_LENGTH] <;>
    omega

/-! ## Malformed messages -/

/-- `std::stoul` throws `std::invalid_argument` on a field whose first byte is no hex
digit, white space or sign: no digit follows. -/
theorem stoulHex_of_not_hexDigit {c : UInt8} {rest : List UInt8}
    (hc : Bytes.HexDigit c = none) (hsp : isSpace c = false) (hminus : c ≠ 0x2d)
    (hplus : c ≠ 0x2b) :
    stoulHex (c :: rest) = Checked.raise "stoul" := by
  -- a `0` is a hex digit, so the `0x` prefix does not apply either
  have hzero : c ≠ 0x30 := by
    rintro rfl
    simp [Bytes.HexDigit] at hc
  simp [stoulHex, hsp, hminus, hplus, hzero, hc]

/-- A message whose length is within the layer 3 bounds and whose first byte is no hex
digit passes the string limit, and `RialtoParseLayer3Envelope` then throws from
`std::stoul` before it checks the timestamp or the proof of work. -/
theorem RialtoParseLayer3Envelope_throws_on_non_hex (env : ChainEnv) (node : RialtoNodeState)
    {ciphertext rest : List UInt8} {c : UInt8} (hcipher : ciphertext = c :: rest)
    (hmin : RIALTO_L3_MIN_LENGTH * 2 ≤ ciphertext.length)
    (hmax : ciphertext.length ≤ RIALTO_L3_MAX_LENGTH * 2)
    (hc : Bytes.HexDigit c = none) (hsp : isSpace c = false) (hminus : c ≠ 0x2d)
    (hplus : c ≠ 0x2b) :
    readRialtoMessage ciphertext = .ok ciphertext ∧
      RialtoParseLayer3Envelope env node ciphertext = .error (.fault (.exception "stoul")) := by
  have hnonce : stoulHex (ciphertext.take 8) = Checked.raise "stoul" := by
    rw [hcipher, List.take_succ_cons]
    exact stoulHex_of_not_hexDigit hc hsp hminus hplus
  refine ⟨by simp [readRialtoMessage, Nat.not_lt.2 hmax], ?_⟩
  simp [RialtoParseLayer3Envelope, Nat.not_lt.2 hmin, Nat.not_lt.2 hmax, hnonce]

/-- The failing input: 360 letters `z`, the shortest length the layer 3 bounds allow. -/
theorem RialtoParseLayer3Envelope_throws_on_letters :
    let ciphertext := List.replicate 360 (0x7a : UInt8)
    (ciphertext = 0x7a :: List.replicate 359 0x7a ∧
      RIALTO_L3_MIN_LENGTH * 2 ≤ ciphertext.length ∧
      ciphertext.length ≤ RIALTO_L3_MAX_LENGTH * 2 ∧
      Bytes.HexDigit 0x7a = none ∧ isSpace 0x7a = false ∧ (0x7a : UInt8) ≠ 0x2d ∧
      (0x7a : UInt8) ≠ 0x2b) ∧
    (readRialtoMessage ciphertext = .ok ciphertext ∧
      RialtoParseLayer3Envelope (constEnv mainParams) ⟨0, fun _ => none, [], [], fun _ => none⟩
        ciphertext = .error (.fault (.exception "stoul"))) := by
  intro ciphertext
  have hcipher : ciphertext = 0x7a :: List.replicate 359 0x7a := rfl
  have hmin : RIALTO_L3_MIN_LENGTH * 2 ≤ ciphertext.length := by
    simp only [ciphertext, List.length_replicate]
    decide
  have hmax : ciphertext.length ≤ RIALTO_L3_MAX_LENGTH * 2 := by
    simp only [ciphertext, List.length_replicate]
    decide
  have hc : Bytes.HexDigit 0x7a = none := by decide
  have hsp : isSpace 0x7a = false := by decide
  have hminus : (0x7a : UInt8) ≠ 0x2d := by decide
  have hplus : (0x7a : UInt8) ≠ 0x2b := by decide
  exact ⟨⟨hcipher, hmin, hmax, hc, hsp, hminus, hplus⟩,
    RialtoParseLayer3Envelope_throws_on_non_hex _ _ hcipher hmin hmax hc hsp hminus hplus⟩

end Cascoin
