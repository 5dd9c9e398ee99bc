import Cascoin.Models.Rialto.Envelope
import Cascoin.Models.Crypto.Secp256k1
import Cascoin.Models.Consensus.Versionbits

/-!
# Rialto nick registration

`CWallet::CreateNickRegistrationTransaction` pays the registration cost, less the
anti-dust amount, to the nick creation address (`vout[0]`) and burns the
anti-dust amount in `OP_RETURN <pubKey> OP_NICK_CREATE <nick>` (`vout[1]`).
`CTransaction::IsNCT` reads that script at fixed offsets: the key at bytes
2..34, the opcode at 35 and the nick from byte 37, which is where a 33-byte
compressed key puts them.

With a compressed key the round trip holds, and the nick rules of `IsNCT` are
exactly `RialtoIsValidNickFormat` (`IsNCT_nickRegistrationOutputs`). The wallet
also takes a legacy nick address whose key may be uncompressed: its 65 bytes move
the opcode to byte 67, `IsNCT` reads the first 33 key bytes as a key whose header
asks for 65, and the registration, whose fee is paid, is never recognised
(`IsNCT_nickRegistrationOutputs_of_uncompressed`). With `IsFullyValid` the parse of
libsecp256k1, every valid key is one of the two sizes, so every registration the wallet
builds falls in one of these cases. Key selection itself (the key
pool, address decoding, `IsMine`) and the change address checks are not modelled:
the selected key is an input, and the checks only fail.
-/

namespace Cascoin

/-! ## Hex strings of keys -/

/-- Every digit `HexStr` writes reads back as its value. -/
theorem HexDigit_hexChar {v : Nat} (hv : v < 16) :
    Bytes.HexDigit (Bytes.hexChar v) = some v := by
  rcases v with _ | _ | _ | _ | _ | _ | _ | _ | _ | _ | _ | _ | _ | _ | _ | _ | v
  all_goals first | rfl | omega

theorem isSpace_hexChar {v : Nat} (hv : v < 16) : isSpace (Bytes.hexChar v) = false := by
  rcases v with _ | _ | _ | _ | _ | _ | _ | _ | _ | _ | _ | _ | _ | _ | _ | _ | v
  all_goals first | rfl | omega

/-- `ParseHex(HexStr(bytes))` is `bytes`. -/
theorem ParseHex_HexStr (bs : List UInt8) : ParseHex (Bytes.HexStr bs) = bs := by
  induction bs with
  | nil => rfl
  | cons b bs ih =>
    have hb : b.toNat < 256 := b.toNat_lt
    have hhi : b.toNat / 16 < 16 := by omega
    have hlo : b.toNat % 16 < 16 := Nat.mod_lt _ (by decide)
    have hbyte : UInt8.ofNat (b.toNat / 16 * 16 + b.toNat % 16) = b := by
      rw [show b.toNat / 16 * 16 + b.toNat % 16 = b.toNat by omega]
      simp
    rw [Bytes.HexStr, ParseHex.eq_def]
    simp only [isSpace_hexChar hhi, HexDigit_hexChar hhi, HexDigit_hexChar hlo, Bool.false_eq_true,
      if_false, hbyte, ih]

/-! ## The registration transaction -/

/-- `RialtoNickExists`: the nick is in the global white pages. -/
def RialtoNickExists (whitepages : WhitePages) (nick : List UInt8) : Bool :=
  (whitepages nick).isSome

/-- The registration cost of a nick of `length` bytes, as both the wallet and
`IsNCT` compute it. -/
def nickRegistrationCost (params : ConsensusParams) (length : Nat) : Int :=
  if length = 3 then params.nickCreationCost3Char
  else if length = 4 then params.nickCreationCost4Char
  else params.nickCreationCostStandard

/-- `scriptPubKeyNA << OP_RETURN << pubKeyBytes << OP_NICK_CREATE << nicknameBytes`. -/
def nickRegistrationScript (pubKey nickname : List UInt8) : CScript :=
  pushData (pushOpcode (pushData (pushOpcode [] OP_RETURN) pubKey) OP_NICK_CREATE) nickname

/-- The two outputs the wallet passes to `CreateTransaction`, which keeps them in
front and puts any change at position 2. -/
def nickRegistrationOutputs (params : ConsensusParams) (scriptPubKeyNCF : CScript)
    (nickname pubKey : List UInt8) : List CTxOut :=
  [⟨nickRegistrationCost params nickname.length - params.nickCreationAntiDust, scriptPubKeyNCF⟩,
    ⟨params.nickCreationAntiDust, nickRegistrationScript pubKey nickname⟩]

/-- `CWallet::CreateNickRegistrationTransaction` up to `CreateTransaction`: its
checks, then the outputs for the key it selected (`pubKey`), with the fee paid to
the nick creation address. -/
def CreateNickRegistrationTransaction (env : ChainEnv) (pindexPrev : CBlockIndex)
    (whitepages : WhitePages) (curBalance : Int) (nickname pubKey : List UInt8) :
    Checked String (List CTxOut) := do
  Checked.require (IsRialtoEnabled env (some pindexPrev))
    "Error: Rialto has not yet been activated on the network"
  Checked.require (RialtoIsValidNickFormat nickname)
    ("Error: Invalid nickname format; must be 3-20 characters in length and consist " ++
      "of lowercase letters and underscores only.")
  Checked.require (!RialtoNickExists whitepages nickname)
    "Error: This nickname is already registered."
  Checked.require (decide (nickRegistrationCost env.params nickname.length ≤ curBalance))
    "Error: Insufficient balance to pay nickname registration fee"
  let scriptPubKeyNCF := env.scriptForAddress env.params.nickCreationAddress
  return nickRegistrationOutputs env.params scriptPubKeyNCF nickname pubKey

/-- What the wallet returns is the two registration outputs, for a nick of valid format. -/
theorem CreateNickRegistrationTransaction_eq_ok {env : ChainEnv} {pindexPrev : CBlockIndex}
    {whitepages : WhitePages} {curBalance : Int} {nickname pubKey : List UInt8}
    {outs : List CTxOut}
    (h : CreateNickRegistrationTransaction env pindexPrev whitepages curBalance nickname pubKey =
      .ok outs) :
    RialtoIsValidNickFormat nickname = true ∧
      outs = nickRegistrationOutputs env.params
        (env.scriptForAddress env.params.nickCreationAddress) nickname pubKey := by
  obtain ⟨_, -, h⟩ := Checked.bind_eq_ok h
  obtain ⟨_, hformat, h⟩ := Checked.bind_eq_ok h
  obtain ⟨_, -, h⟩ := Checked.bind_eq_ok h
  obtain ⟨_, -, h⟩ := Checked.bind_eq_ok h
  exact ⟨Checked.require_eq_ok.mp hformat, (Except.ok.inj h).symm⟩

/-! ## Key sizes -/

theorem CPubKey.GetLen_cases (c : UInt8) :
    CPubKey.GetLen c = 33 ∨ CPubKey.GetLen c = 65 ∨ CPubKey.GetLen c = 0 := by
  unfold CPubKey.GetLen
  split_ifs <;> simp

theorem CPubKey.ofBytes_cons (c : UInt8) (rest : List UInt8) :
    CPubKey.ofBytes (c :: rest) =
      if CPubKey.GetLen c ≠ 0 ∧ CPubKey.GetLen c = rest.length + 1 then c :: rest else [] := rfl

/-- A key that `CPubKey` keeps whole is compressed or uncompressed. -/
theorem CPubKey.length_of_ofBytes {vch : List UInt8} (h : CPubKey.ofBytes vch = vch)
    (hne : vch ≠ []) : vch.length = 33 ∨ vch.length = 65 := by
  cases vch with
  | nil => exact absurd rfl hne
  | cons c rest =>
    rw [CPubKey.ofBytes_cons] at h
    -- the invalid key, `[]`, is not `c :: rest`
    split_ifs at h with hlen
    rw [List.length_cons]
    rcases CPubKey.GetLen_cases c with h33 | h65 | h0 <;> omega

/-- A proper prefix of a key `CPubKey` keeps whole is not kept: its header asks for
the whole key's length. -/
theorem CPubKey.ofBytes_take_ne {vch : List UInt8} {k : Nat} (h : CPubKey.ofBytes vch = vch)
    (hne : vch ≠ []) (hk0 : 0 < k) (hk : k < vch.length) :
    CPubKey.ofBytes (vch.take k) ≠ vch.take k := by
  cases vch with
  | nil => exact absurd rfl hne
  | cons c rest =>
    obtain ⟨k, rfl⟩ : ∃ k', k = k' + 1 := ⟨k - 1, by omega⟩
    have hfull : CPubKey.GetLen c = rest.length + 1 := by
      rw [CPubKey.ofBytes_cons] at h
      split_ifs at h with hlen
      exact hlen.2
    have hshort : (rest.take k).length = k := List.length_take_of_le (by simp at hk; omega)
    rw [List.take_succ_cons, CPubKey.ofBytes_cons, hshort, if_neg (by simp at hk; omega)]
    simp

/-! ## Recognising the registration

`IsNCT` reads `vout[1]` at fixed offsets. The lemmas below say what it returns for
the three layouts the wallet can produce: a compressed key with a nick in a direct
push, a nick too long for the nick rules, and a key that is not 33 bytes. -/

section IsNCT

variable {env : ChainEnv} {ncf : CScript} {tx : CTransaction} {out0 out1 : CTxOut}
  {rest : List CTxOut}

/-- `IsNCT` rejects a transaction whose key bytes, 2 to 34, are not a valid key. -/
theorem IsNCT_eq_none_of_key (hvout : tx.vout = out0 :: out1 :: rest)
    (hkey : env.pubKeyIsFullyValid ((out1.scriptPubKey.take 35).drop 2) = false) :
    tx.IsNCT env ncf = none := by
  unfold CTransaction.IsNCT
  rw [hvout]
  simp [hkey]

/-- `IsNCT` rejects a `vout[1]` script of more than 57 bytes: its nick, from byte 37,
is longer than 20. -/
theorem IsNCT_eq_none_of_long (hvout : tx.vout = out0 :: out1 :: rest)
    (hlong : 57 < out1.scriptPubKey.length) : tx.IsNCT env ncf = none := by
  have hnick : ¬ out1.scriptPubKey.length ≤ 57 := by omega
  unfold CTransaction.IsNCT
  rw [hvout]
  simp [hnick]

/-- With a 33-byte key and a one-byte length before the nick, `IsNCT` returns the
key's hex and the nick exactly when the nick has the format of
`RialtoIsValidNickFormat`, given the amounts the wallet sets. -/
theorem IsNCT_of_compressed {pubKey nickname : List UInt8} {b : UInt8}
    (hvout : tx.vout = out0 :: out1 :: rest) (hncf : out0.scriptPubKey = ncf)
    (hdust : env.params.nickCreationAntiDust ≤ out1.nValue)
    (hspk : out1.scriptPubKey = OP_RETURN :: 33 :: (pubKey ++ OP_NICK_CREATE :: b :: nickname))
    (hlen : pubKey.length = 33) (hvalid : env.pubKeyIsFullyValid pubKey = true)
    (hfee : out0.nValue =
      nickRegistrationCost env.params nickname.length - env.params.nickCreationAntiDust) :
    tx.IsNCT env ncf =
      if RialtoIsValidNickFormat nickname then some (Bytes.HexStr pubKey, nickname) else none := by
  have hkey : (out1.scriptPubKey.take 35).drop 2 = pubKey := by simp [hspk, hlen]
  have hret : out1.scriptPubKey[0]? = some OP_RETURN := by simp [hspk]
  have hop : out1.scriptPubKey[35]? = some OP_NICK_CREATE := by simp [hspk, hlen]
  have hnick : out1.scriptPubKey.drop 37 = nickname := by simp [hspk, List.drop_append, hlen]
  have hsize : out1.scriptPubKey.length = nickname.length + 37 := by
    simp [hspk, hlen]
    omega
  unfold CTransaction.IsNCT RialtoIsValidNickFormat
  rw [hvout]
  simp only [hncf, hkey, hret, hop, hnick, hvalid, bne_self_eq_false, Bool.or_false, Bool.not_true]
  -- what is left are the length, character and fee checks, against the nick format
  simp [hsize, hfee, not_lt.mpr hdust, nickRegistrationCost]
  split_ifs <;> grind

end IsNCT

/-- The registration script for a key pushed directly. -/
theorem nickRegistrationScript_eq {pubKey : List UInt8} (nickname : List UInt8)
    (hpk : pubKey.length < 0x4c) :
    nickRegistrationScript pubKey nickname =
      OP_RETURN :: UInt8.ofNat pubKey.length ::
        (pubKey ++ OP_NICK_CREATE :: (pushPrefix nickname.length ++ nickname)) := by
  simp [nickRegistrationScript, pushData, pushOpcode, pushPrefix_of_lt hpk]

theorem length_pushPrefix_pos (size : Nat) : 0 < (pushPrefix size).length := by
  unfold pushPrefix
  split_ifs <;> simp

section Outputs

variable {env : ChainEnv} {ncf : CScript} {nickname pubKey : List UInt8}

/-- The registration outputs of a compressed key are recognised, with that key and
nick, exactly when the nick has the format `RialtoIsValidNickFormat` accepts. -/
theorem IsNCT_nickRegistrationOutputs (vin : List CTxIn) (change : List CTxOut)
    (hlen : pubKey.length = 33) (hvalid : env.pubKeyIsFullyValid pubKey = true) :
    CTransaction.IsNCT env ncf ⟨vin, nickRegistrationOutputs env.params ncf nickname pubKey ++ change⟩ =
      if RialtoIsValidNickFormat nickname then some (Bytes.HexStr pubKey, nickname) else none := by
  have hspk := nickRegistrationScript_eq nickname (show pubKey.length < 0x4c by omega)
  rw [hlen] at hspk
  by_cases hshort : nickname.length < 0x4c
  · -- a nick in a direct push starts at byte 37
    rw [pushPrefix_of_lt hshort, List.singleton_append] at hspk
    exact IsNCT_of_compressed rfl rfl le_rfl hspk hlen hvalid rfl
  · -- a nick of 76 bytes or more fails both the format and `IsNCT`'s length check
    have hformat : RialtoIsValidNickFormat nickname = false := by
      cases h : RialtoIsValidNickFormat nickname
      · rfl
      · have := (length_of_RialtoIsValidNickFormat h).2
        omega
    have hprefix := length_pushPrefix_pos nickname.length
    rw [hformat, if_neg Bool.false_ne_true]
    apply IsNCT_eq_none_of_long rfl
    simp only [hspk, List.length_cons, List.length_append, hlen]
    omega

/-- The registration outputs of an uncompressed key are never recognised: the first
33 of its 65 bytes are not a key, under any `IsFullyValid` that keeps to key sizes. -/
theorem IsNCT_nickRegistrationOutputs_of_uncompressed (vin : List CTxIn) (change : List CTxOut)
    (hsize : ∀ vch, env.pubKeyIsFullyValid vch = true → vch ≠ [] ∧ CPubKey.ofBytes vch = vch)
    (hlen : pubKey.length = 65) (hkey : CPubKey.ofBytes pubKey = pubKey) :
    CTransaction.IsNCT env ncf ⟨vin, nickRegistrationOutputs env.params ncf nickname pubKey ++ change⟩ =
      none := by
  have hspk := nickRegistrationScript_eq nickname (show pubKey.length < 0x4c by omega)
  have hbytes : ((nickRegistrationScript pubKey nickname).take 35).drop 2 = pubKey.take 33 := by
    simp [hspk, List.take_append_of_le_length, hlen]
  have hne : pubKey ≠ [] := List.ne_nil_of_length_pos (by omega)
  apply IsNCT_eq_none_of_key rfl
  rw [hbytes]
  cases hv : env.pubKeyIsFullyValid (pubKey.take 33)
  · rfl
  · exact absurd (hsize _ hv).2 (CPubKey.ofBytes_take_ne hkey hne (by decide) (by omega))

end Outputs

/-! ## The wallet's registrations -/

/-- Every registration the wallet builds for a key libsecp256k1 parses is recognised by
`IsNCT` with that key and nick when the key is compressed, and never when it is not; for
compressed keys, `IsNCT` accepts the registration of exactly the nicks of
`RialtoIsValidNickFormat`. -/
theorem IsNCT_CreateNickRegistrationTransaction (env : ChainEnv)
    (hkeys : env.pubKeyIsFullyValid = CPubKey.IsFullyValid) :
    (∀ pindexPrev whitepages curBalance nickname pubKey outs vin change,
      env.pubKeyIsFullyValid pubKey = true →
      CreateNickRegistrationTransaction env pindexPrev whitepages curBalance nickname pubKey =
        .ok outs →
      CTransaction.IsNCT env (env.scriptForAddress env.params.nickCreationAddress)
          ⟨vin, outs ++ change⟩ =
        if pubKey.length = 33 then some (Bytes.HexStr pubKey, nickname) else none) ∧
    (∀ scriptPubKeyNCF nickname pubKey vin change,
      pubKey.length = 33 → env.pubKeyIsFullyValid pubKey = true →
      (CTransaction.IsNCT env scriptPubKeyNCF
          ⟨vin, nickRegistrationOutputs env.params scriptPubKeyNCF nickname pubKey ++ change⟩).isSome =
        RialtoIsValidNickFormat nickname) := by
  -- a key that parses has the size its header gives
  have hsize : ∀ vch, env.pubKeyIsFullyValid vch = true → vch ≠ [] ∧ CPubKey.ofBytes vch = vch := by
    intro vch hvch
    rw [hkeys] at hvch
    exact CPubKey.IsFullyValid_sized hvch
  refine ⟨?_, ?_⟩
  · intro pindexPrev whitepages curBalance nickname pubKey outs vin change hvalid h
    obtain ⟨hformat, rfl⟩ := CreateNickRegistrationTransaction_eq_ok h
    obtain ⟨hne, hkey⟩ := hsize pubKey hvalid
    rcases CPubKey.length_of_ofBytes hkey hne with h33 | h65
    · rw [IsNCT_nickRegistrationOutputs vin change h33 hvalid, hformat, if_pos rfl, if_pos h33]
    · rw [IsNCT_nickRegistrationOutputs_of_uncompressed vin change hsize h65 hkey, h65]
      rfl
  · intro scriptPubKeyNCF nickname pubKey vin change h33 hvalid
    rw [IsNCT_nickRegistrationOutputs vin change h33 hvalid]
    cases RialtoIsValidNickFormat nickname <;> rfl

/-- The uncompressed key of the generator `G`. -/
def uncompressedNickKey : List UInt8 := 0x04 :: (feGetB32 secp256k1Gx ++ feGetB32 secp256k1Gy)

/-- The nick "alice". -/
def aliceNick : List UInt8 := [0x61, 0x6c, 0x69, 0x63, 0x65]

/-- On testnet, after three periods of blocks signalling Rialto's bit from its start time, the
wallet registers "alice" for the uncompressed key of `G`, and `IsNCT` does not recognise the
registration. -/
theorem IsNCT_CreateNickRegistrationTransaction_uncompressed :
    CreateNickRegistrationTransaction
        ((constEnv testNetParams).withVersionBits testNetVersionBitsParams).withSecp256k1
        (versionChain 0x20000100 2000000000 59) (fun _ => none) 1000000000 aliceNick
        uncompressedNickKey =
      .ok (nickRegistrationOutputs testNetParams
        ((constEnv testNetParams).scriptForAddress testNetParams.nickCreationAddress)
        aliceNick uncompressedNickKey) ∧
    CTransaction.IsNCT ((constEnv testNetParams).withVersionBits testNetVersionBitsParams).withSecp256k1
        ((constEnv testNetParams).scriptForAddress testNetParams.nickCreationAddress)
        ⟨[], nickRegistrationOutputs testNetParams
          ((constEnv testNetParams).scriptForAddress testNetParams.nickCreationAddress)
          aliceNick uncompressedNickKey ++ []⟩ = none := by
  -- Rialto is active for the block after the chain: its state is computed here
  have hok : CreateNickRegistrationTransaction
      ((constEnv testNetParams).withVersionBits testNetVersionBitsParams).withSecp256k1
      (versionChain 0x20000100 2000000000 59) (fun _ => none) 1000000000 aliceNick
      uncompressedNickKey =
    .ok (nickRegistrationOutputs testNetParams
      ((constEnv testNetParams).scriptForAddress testNetParams.nickCreationAddress)
      aliceNick uncompressedNickKey) := by decide +kernel
  have hvalid : CPubKey.IsFullyValid uncompressedNickKey = true :=
    IsFullyValid_uncompressed secp256k1G_on_curve
  have hlen : uncompressedNickKey.length ≠ 33 := by simp [uncompressedNickKey]
  have h := (IsNCT_CreateNickRegistrationTransaction
    ((constEnv testNetParams).withVersionBits testNetVersionBitsParams).withSecp256k1 rfl).1
      _ _ _ aliceNick uncompressedNickKey _ [] [] hvalid hok
  rw [if_neg hlen] at h
  exact ⟨hok, h⟩

end Cascoin
