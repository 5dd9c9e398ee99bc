import Cascoin.Models.Util.Base58
import Cascoin.Models.Util.Bech32
import Cascoin.Models.Chain.Node

/-!
# Addresses

`EncodeDestination` writes a key or script hash as `EncodeBase58Check` of a one-byte prefix
and the hash, and a witness program as `bech32::Encode` of the network's human-readable part,
the witness version and the program regrouped into 5-bit values by `ConvertBits`.
`DecodeDestination` tries the base58 prefixes first and bech32 after.

Every destination `EncodeDestination` writes a text for is read back by `DecodeDestination`
(`DecodeDestination_EncodeDestination`), on every network whose parameters are
`CChainParams.AddressWF`, which the three are. A bech32 text is never read by the base58
branch, which needs 25 bytes, so 33 to 35 digits: the texts of a key, script or version-0
witness hash are longer, and only a program of another version of 13 to 15 bytes has a text
that long, which the base58 branch may take when its last four bytes happen to be the hash's.
Whatever it reads, `DecodeDestination` returns no destination or one it can write
(`DecodeDestination_encodable`). `ChainEnv.withAddresses` puts these functions in the place of
the environment's.
-/

namespace Cascoin

/-- `CChainParams::Base58Type`, the prefixes the address code reads. -/
inductive Base58Type where
  | PUBKEY_ADDRESS
  | SCRIPT_ADDRESS
  | SCRIPT_ADDRESS2
  deriving DecidableEq, Repr

/-- The address fields of `CChainParams`. -/
structure CChainParams where
  base58Prefixes : Base58Type → List UInt8
  bech32_hrp : List Char

/-- `CChainParams::Base58Prefix(type)`. -/
def CChainParams.Base58Prefix (params : CChainParams) (type : Base58Type) : List UInt8 :=
  params.base58Prefixes type

/-- `CChainParams::Bech32HRP()`. -/
def CChainParams.Bech32HRP (params : CChainParams) : List Char := params.bech32_hrp

/-- The prefixes every network of `chainparams.cpp` sets. -/
def cascoinBase58Prefixes : Base58Type → List UInt8
  | .PUBKEY_ADDRESS => [40]
  | .SCRIPT_ADDRESS => [8]
  | .SCRIPT_ADDRESS2 => [50]

/-- `CMainParams`. -/
def CMainParams : CChainParams := ⟨cascoinBase58Prefixes, "cas".toList⟩

/-- `CTestNetParams`. -/
def CTestNetParams : CChainParams := ⟨cascoinBase58Prefixes, "tcas".toList⟩

/-- `CRegTestParams`. -/
def CRegTestParams : CChainParams := ⟨cascoinBase58Prefixes, "rcas".toList⟩

section Codec

variable {ε : Type} (params : CChainParams) (Hash : List UInt8 → Uint256)

/-- `DestinationEncoder`, the visitor of `EncodeDestination(dest)`; `{}` is the empty text. -/
def EncodeDestination : CTxDestination → Checked ε (List Char)
  | .CKeyID id => EncodeBase58Check Hash (params.Base58Prefix .PUBKEY_ADDRESS ++ id)
  | .CScriptID id => EncodeBase58Check Hash (params.Base58Prefix .SCRIPT_ADDRESS2 ++ id)
  | .WitnessV0KeyHash id => bech32.Encode params.Bech32HRP (ConvertBits 8 5 true [0] id).2
  | .WitnessV0ScriptHash id => bech32.Encode params.Bech32HRP (ConvertBits 8 5 true [0] id).2
  | .WitnessUnknown version program =>
    if version < 1 ∨ version > 16 ∨ program.length < 2 ∨ program.length > 40 then return []
    else bech32.Encode params.Bech32HRP (ConvertBits 8 5 true [UInt8.ofNat version] program).2
  | .CNoDestination => return []

/-- The base58 branch of `DecodeDestination`, on the bytes `DecodeBase58Check` returns: a
hash after one of the prefixes, checked in order. -/
def base58Destination (data : List UInt8) : Option CTxDestination :=
  let pubkey_prefix := params.Base58Prefix .PUBKEY_ADDRESS
  let script_prefix := params.Base58Prefix .SCRIPT_ADDRESS
  let script_prefix2 := params.Base58Prefix .SCRIPT_ADDRESS2
  if data.length = 20 + pubkey_prefix.length ∧ pubkey_prefix.isPrefixOf data then
    some (.CKeyID (data.drop pubkey_prefix.length))
  else if data.length = 20 + script_prefix.length ∧ script_prefix.isPrefixOf data then
    some (.CScriptID (data.drop script_prefix.length))
  else if data.length = 20 + script_prefix2.length ∧ script_prefix2.isPrefixOf data then
    some (.CScriptID (data.drop script_prefix2.length))
  else none

/-- The destination of a witness version and program, as `DecodeDestination` builds it. -/
def witnessDestination (version : ℕ) (data : List UInt8) : CTxDestination :=
  if version = 0 then
    if data.length = 20 then .WitnessV0KeyHash data
    else if data.length = 32 then .WitnessV0ScriptHash data
    else .CNoDestination
  else if version > 16 ∨ data.length < 2 ∨ data.length > 40 then .CNoDestination
  else .WitnessUnknown version data

/-- The bech32 branch of `DecodeDestination`: the witness version, then the program
regrouped into bytes, which must use all its bits. -/
def bech32Destination (str : List Char) : CTxDestination :=
  let bech := bech32.Decode str
  if bech.2.length > 0 ∧ bech.1 = params.Bech32HRP then
    let (ok, data) := ConvertBits 5 8 false [] (bech.2.drop 1)
    if ok then witnessDestination (bech.2.headD 0).toNat data else .CNoDestination
  else .CNoDestination

/-- `DecodeDestination(str, params)`. -/
def DecodeDestination (str : List Char) : Checked ε CTxDestination := do
  let data? ← DecodeBase58Check Hash str
  match data?.bind (base58Destination params) with
  | some dest => return dest
  | none => return bech32Destination params str

end Codec

/-- The destinations `EncodeDestination` writes a text for: a `uint160` key or script hash, a
`uint160` or `uint256` version-0 witness hash, or a program `DestinationEncoder` accepts. -/
def CTxDestination.Encodable : CTxDestination → Bool
  | .CNoDestination => false
  | .CKeyID id => id.length == 20
  | .CScriptID id => id.length == 20
  | .WitnessV0KeyHash id => id.length == 20
  | .WitnessV0ScriptHash id => id.length == 32
  | .WitnessUnknown version program =>
    1 ≤ version && version ≤ 16 && 2 ≤ program.length && program.length ≤ 40

/-- What the address code needs of a network: one-byte base58 prefixes, the script prefix
`EncodeDestination` writes other than the key prefix, and a human-readable part `bech32`
can write and read, short enough for every program and not starting with the separator. -/
structure CChainParams.AddressWF (params : CChainParams) : Prop where
  prefix_length : ∀ t, (params.Base58Prefix t).length = 1
  script2_ne_pubkey : params.Base58Prefix .SCRIPT_ADDRESS2 ≠ params.Base58Prefix .PUBKEY_ADDRESS
  hrp_valid : bech32.ValidHRP params.Bech32HRP
  hrp_length : params.Bech32HRP.length ≤ 18
  hrp_head : params.Bech32HRP.head? ≠ some '1'

theorem cascoinBase58Prefixes_length (t : Base58Type) : (cascoinBase58Prefixes t).length = 1 := by
  cases t <;> rfl

theorem CMainParams_addressWF : CMainParams.AddressWF :=
  ⟨cascoinBase58Prefixes_length, by decide,
    (bech32.ValidHRP.of_all (by decide) (by decide +kernel) : bech32.ValidHRP "cas".toList), by decide, by decide⟩

theorem CTestNetParams_addressWF : CTestNetParams.AddressWF :=
  ⟨cascoinBase58Prefixes_length, by decide,
    (bech32.ValidHRP.of_all (by decide) (by decide +kernel) : bech32.ValidHRP "tcas".toList), by decide, by decide⟩

theorem CRegTestParams_addressWF : CRegTestParams.AddressWF :=
  ⟨cascoinBase58Prefixes_length, by decide,
    (bech32.ValidHRP.of_all (by decide) (by decide +kernel) : bech32.ValidHRP "rcas".toList), by decide, by decide⟩

/-! ## The base58 branch -/

section Base58Branch

variable {params : CChainParams}

/-- A key hash after the key prefix is read as the key. -/
theorem base58Destination_pubkey {id : List UInt8} (hid : id.length = 20) :
    base58Destination params (params.Base58Prefix .PUBKEY_ADDRESS ++ id) = some (.CKeyID id) := by
  rw [base58Destination, if_pos ⟨by rw [List.length_append, hid, Nat.add_comm],
    List.isPrefixOf_iff_prefix.mpr (List.prefix_append _ _)⟩, List.drop_left]

/-- A script hash after the prefix `EncodeDestination` writes is read as the script, past the
key prefix, which is another byte. -/
theorem base58Destination_script2 (hp : params.AddressWF) {id : List UInt8}
    (hid : id.length = 20) :
    base58Destination params (params.Base58Prefix .SCRIPT_ADDRESS2 ++ id) =
      some (.CScriptID id) := by
  have hlen : ∀ t, (params.Base58Prefix .SCRIPT_ADDRESS2 ++ id).length =
      20 + (params.Base58Prefix t).length := by
    intro t
    rw [List.length_append, hid, hp.prefix_length, hp.prefix_length, Nat.add_comm]
  have hdrop : ∀ t, (params.Base58Prefix .SCRIPT_ADDRESS2 ++ id).drop
      (params.Base58Prefix t).length = id := by
    intro t
    rw [hp.prefix_length t, ← hp.prefix_length .SCRIPT_ADDRESS2, List.drop_left]
  -- the key prefix, one byte like the script prefix, is not a prefix of the text
  have hpub : ¬(params.Base58Prefix .PUBKEY_ADDRESS).isPrefixOf
      (params.Base58Prefix .SCRIPT_ADDRESS2 ++ id) := by
    rw [List.isPrefixOf_iff_prefix]
    intro hpre
    have hshort : params.Base58Prefix .PUBKEY_ADDRESS <+: params.Base58Prefix .SCRIPT_ADDRESS2 :=
      List.prefix_of_prefix_length_le hpre (List.prefix_append _ _)
        (by rw [hp.prefix_length, hp.prefix_length])
    exact hp.script2_ne_pubkey
      (hshort.eq_of_length (by rw [hp.prefix_length, hp.prefix_length])).symm
  rw [base58Destination, if_neg (fun h => hpub h.2)]
  split_ifs with hscript hscript2
  · rw [hdrop]
  · rw [hdrop]
  · exact (hscript2 ⟨hlen _, List.isPrefixOf_iff_prefix.mpr (List.prefix_append _ _)⟩).elim

/-- The base58 branch reads a hash after a one-byte prefix: 21 bytes. -/
theorem length_of_base58Destination (hp : params.AddressWF) {data : List UInt8}
    {d : CTxDestination} (h : base58Destination params data = some d) : data.length = 21 := by
  rw [base58Destination] at h
  split_ifs at h with h₁ h₂ h₃
  · rw [h₁.1, hp.prefix_length]
  · rw [h₂.1, hp.prefix_length]
  · rw [h₃.1, hp.prefix_length]

/-- What the base58 branch reads is a 20-byte hash. -/
theorem encodable_of_base58Destination {data : List UInt8} {d : CTxDestination}
    (h : base58Destination params data = some d) : d.Encodable = true := by
  rw [base58Destination] at h
  split_ifs at h with h₁ h₂ h₃ <;> cases h
  · simp [CTxDestination.Encodable, h₁.1]
  · simp [CTxDestination.Encodable, h₂.1]
  · simp [CTxDestination.Encodable, h₃.1]

end Base58Branch

/-! ## Bech32 texts are not read by the base58 branch -/

theorem isspace_eq_false_of_le {c : Char} (hc : 33 ≤ c.toNat) : isspace c = false := by
  by_contra h
  simp only [isspace, Bool.not_eq_false, Bool.or_eq_true, beq_iff_eq] at h
  rcases h with ((((h | h) | h) | h) | h) | h <;> (subst h; exact absurd hc (by decide))

theorem isBase58Run_of_le {c : Char} (hc : 33 ≤ c.toNat) : isBase58Run c = true := by
  have hnul : c ≠ '\x00' := by
    rintro rfl
    exact absurd hc (by decide)
  simp [isBase58Run, isspace_eq_false_of_le hc, hnul]

/-- A text of digits of `pszBase58` not starting with `1` writes a number of as many digits. -/
theorem pow_le_ofDigits_idxOf {s : List Char} (hs : ∀ c ∈ s, c ∈ pszBase58)
    (hhead : s.head? ≠ some '1') (hne : s ≠ []) :
    58 ^ (s.length - 1) ≤ Nat.ofDigits 58 (s.map pszBase58.idxOf).reverse := by
  obtain ⟨c, s', rfl⟩ := List.exists_cons_of_ne_nil hne
  have hc : c ∈ pszBase58 := hs c List.mem_cons_self
  -- the leading digit is not zero, which `pszBase58` writes `1`
  have hlead : 1 ≤ pszBase58.idxOf c := by
    by_contra h0
    have hzero : pszBase58.idxOf c = 0 := by omega
    have hone := getD_idxOf_pszBase58 hc
    rw [hzero] at hone
    exact hhead (by rw [List.head?_cons, ← hone]; rfl)
  rw [List.map_cons, List.reverse_cons, Nat.ofDigits_append, Nat.ofDigits_singleton,
    List.length_reverse, List.length_map, List.length_cons, Nat.add_sub_cancel]
  calc 58 ^ s'.length ≤ 58 ^ s'.length * pszBase58.idxOf c := Nat.le_mul_of_pos_right _ hlead
    _ ≤ _ := Nat.le_add_left _ _

/-- A printable text of fewer than 33 or more than 35 digits, not starting with `1`, does not
decode to the 25 bytes of a prefix, a hash and a check. -/
theorem length_base58Decode_ne {s : List Char} {v : List UInt8} (hs : ∀ c ∈ s, 33 ≤ c.toNat)
    (hhead : s.head? ≠ some '1') (hlen : s.length < 33 ∨ 35 < s.length)
    (h : base58Decode s = some v) : v.length ≠ 25 := by
  have hsp : s.dropWhile isspace = s :=
    dropWhile_eq_self_of_head fun c hc => isspace_eq_false_of_le (hs c (List.mem_of_mem_head? hc))
  have hz : (s.takeWhile (· == '1')).length = 0 := by
    have hnot : ∀ c, s.head? = some c → (c == '1') = false := by
      intro c hc
      rw [beq_eq_false_iff_ne]
      rintro rfl
      exact hhead hc
    rw [takeWhile_eq_nil_of_head hnot]
    rfl
  have hrun : s.takeWhile isBase58Run = s :=
    List.takeWhile_eq_self_iff.mpr fun c hc => isBase58Run_of_le (hs c hc)
  simp only [base58Decode, hsp, hz, List.drop_zero, hrun] at h
  split_ifs at h with hcond
  cases h
  rw [List.length_append, List.length_replicate, List.length_map, List.length_reverse,
    Nat.zero_add]
  have hdigits : ∀ x ∈ (s.map pszBase58.idxOf).reverse, x < 58 := by
    intro x hx
    obtain ⟨c, hc, rfl⟩ := List.mem_map.mp (List.mem_reverse.mp hx)
    exact idxOf_pszBase58_lt (hcond.1 c hc)
  have hupper := Nat.ofDigits_lt_base_pow_length (by norm_num) hdigits
  rw [List.length_reverse, List.length_map] at hupper
  rcases hlen with hshort | hlong
  · -- at most 32 digits: below `58 ^ 32 < 256 ^ 24`, so at most 24 bytes
    have hle : (Nat.digits 256 (Nat.ofDigits 58 (s.map pszBase58.idxOf).reverse)).length ≤ 24 :=
      (Nat.digits_length_le_iff (by norm_num) _).mpr (calc
        _ < 58 ^ s.length := hupper
        _ ≤ 58 ^ 32 := Nat.pow_le_pow_right (by norm_num) (by omega)
        _ ≤ 256 ^ 24 := by norm_num)
    omega
  · -- at least 36 digits: from `58 ^ 35 ≥ 256 ^ 25`, so at least 26 bytes
    have hne : s ≠ [] := List.ne_nil_of_length_pos (by omega)
    have hlt : 25 < (Nat.digits 256 (Nat.ofDigits 58 (s.map pszBase58.idxOf).reverse)).length :=
      (Nat.lt_digits_length_iff (by norm_num) _).mpr (calc
        256 ^ 25 ≤ 58 ^ 35 := by norm_num
        _ ≤ 58 ^ (s.length - 1) := Nat.pow_le_pow_right (by norm_num) (by omega)
        _ ≤ _ := pow_le_ofDigits_idxOf hcond.1 hhead hne)
    omega

section Decode

variable {ε : Type} {params : CChainParams} (Hash : List UInt8 → Uint256)

/-- `DecodeBase58Check` fails no `assert`. -/
theorem DecodeBase58Check_ok (s : List Char) :
    ∃ r, (DecodeBase58Check Hash s : Checked ε (Option (List UInt8))) = .ok r := by
  unfold DecodeBase58Check
  rw [DecodeBase58_eq, Checked.ok_bind]
  rcases base58Decode s with _ | v
  · exact ⟨none, rfl⟩
  · dsimp only
    split_ifs
    · exact ⟨none, rfl⟩
    · exact ⟨none, rfl⟩
    · exact ⟨_, rfl⟩

/-- The base58 branch takes no printable text outside 33 to 35 characters that does not start
with `1`. -/
theorem base58Destination_none_of_window (hp : params.AddressWF) {s : List Char}
    (hs : ∀ c ∈ s, 33 ≤ c.toNat) (hhead : s.head? ≠ some '1')
    (hlen : s.length < 33 ∨ 35 < s.length) :
    ∃ r, (DecodeBase58Check Hash s : Checked ε (Option (List UInt8))) = .ok r ∧
      r.bind (base58Destination params) = none := by
  unfold DecodeBase58Check
  rw [DecodeBase58_eq, Checked.ok_bind]
  rcases hv : base58Decode s with _ | v
  · exact ⟨none, rfl, rfl⟩
  · dsimp only
    split_ifs with h4
    · exact ⟨none, rfl, rfl⟩
    · exact ⟨none, rfl, rfl⟩
    · refine ⟨_, rfl, ?_⟩
      rw [Option.bind_some]
      cases hb : base58Destination params (v.take (v.length - 4)) with
      | none => rfl
      | some d =>
        have h21 := length_of_base58Destination hp hb
        rw [List.length_take] at h21
        exact absurd (by omega) (length_base58Decode_ne hs hhead hlen hv)

/-- Such a text is read by the bech32 branch. -/
theorem DecodeDestination_of_window (hp : params.AddressWF) {s : List Char}
    (hs : ∀ c ∈ s, 33 ≤ c.toNat) (hhead : s.head? ≠ some '1')
    (hlen : s.length < 33 ∨ 35 < s.length) :
    (DecodeDestination params Hash s : Checked ε CTxDestination) =
      .ok (bech32Destination params s) := by
  obtain ⟨r, hr, hnone⟩ := base58Destination_none_of_window (ε := ε) Hash hp hs hhead hlen
  unfold DecodeDestination
  rw [hr, Checked.ok_bind, hnone]
  rfl

/-- The bech32 branch reads back the version and the program from the values of a witness
address. -/
theorem bech32Destination_Encode (hp : params.AddressWF) {v : UInt8} (hv : v.toNat < 32)
    {ys p : List UInt8} (hys : ∀ y ∈ ys, y.toNat < 32) (hlen : ys.length ≤ 64)
    (hback : ConvertBits 5 8 false [] ys = (true, p)) :
    bech32Destination params (bech32.encodedText params.Bech32HRP (v :: ys)) =
      witnessDestination v.toNat p := by
  have hvalues : ∀ y ∈ v :: ys, y.toNat < 32 := by
    intro y hy
    rcases List.mem_cons.mp hy with rfl | hy
    · exact hv
    · exact hys y hy
  have hdec := bech32.Decode_encodedText hp.hrp_valid hvalues
    (by rw [List.length_cons]; have := hp.hrp_length; omega)
  unfold bech32Destination
  rw [hdec, if_pos ⟨by simp, rfl⟩]
  simp only [List.drop_one, List.tail_cons, hback, List.headD_cons]
  rfl

/-- The values of a witness address have five bits, so `Encode` writes their text. -/
theorem Encode_convertBits {v : UInt8} (hv : v.toNat < 32) (p : List UInt8) :
    (bech32.Encode params.Bech32HRP (ConvertBits 8 5 true [v] p).2 : Checked ε (List Char)) =
      .ok (bech32.encodedText params.Bech32HRP (ConvertBits 8 5 true [v] p).2) := by
  obtain ⟨ys, hconv, hys, -⟩ :=
    @convertBits_pad_unpad 8 5 _ _ (by norm_num) le_rfl p (fun x _ => x.toNat_lt) [v]
  refine bech32.Encode_eq fun y hy => ?_
  rw [hconv, List.singleton_append] at hy
  rcases List.mem_cons.mp hy with rfl | hy
  · exact hv
  · exact hys y hy

/-- A witness version and program, written by `EncodeDestination`, are read back, unless the
text is of the length the base58 branch reads, which a program of 20 bytes or more is not. -/
theorem DecodeDestination_witness (hp : params.AddressWF) {v : UInt8} (hv : v.toNat < 32)
    {p : List UInt8} (hp40 : p.length ≤ 40)
    (hwin : 20 ≤ p.length ∨
      (bech32.encodedText params.Bech32HRP (ConvertBits 8 5 true [v] p).2).length < 33 ∨
      35 < (bech32.encodedText params.Bech32HRP (ConvertBits 8 5 true [v] p).2).length) :
    (DecodeDestination params Hash
        (bech32.encodedText params.Bech32HRP (ConvertBits 8 5 true [v] p).2) :
      Checked ε CTxDestination) = .ok (witnessDestination v.toNat p) := by
  obtain ⟨ys, hconv, hys, hlow, hhigh, hback⟩ :=
    @convertBits_pad_unpad 8 5 _ _ (by norm_num) le_rfl _ (fun x _ => x.toNat_lt) [v]
  rw [hconv, List.singleton_append]
  have hys32 : ∀ y ∈ ys, y.toNat < 32 := hys
  have hvalues : ∀ y ∈ v :: ys, y.toNat < 32 := by
    intro y hy
    rcases List.mem_cons.mp hy with rfl | hy
    · exact hv
    · exact hys32 y hy
  have htext := bech32.length_encodedText params.Bech32HRP (v :: ys)
  rw [List.length_cons] at htext
  have hhrp := List.length_pos_iff.mpr hp.hrp_valid.ne_nil
  rw [DecodeDestination_of_window Hash hp
    (fun c hc => (bech32.mem_encodedText hp.hrp_valid hvalues c hc).1.1) ?_ ?_,
    bech32Destination_Encode hp hv hys32 (by omega) hback]
  · rw [bech32.encodedText, List.head?_append_of_ne_nil _ hp.hrp_valid.ne_nil]
    exact hp.hrp_head
  · rw [hconv, List.singleton_append] at hwin
    rcases hwin with h20 | hwin
    · right
      omega
    · exact hwin

end Decode

/-! ## Round trip and what is read -/

section RoundTrip

variable {ε : Type} {params : CChainParams} (Hash : List UInt8 → Uint256)

/-- A hash after a base58 prefix is read back through `DecodeBase58Check`. -/
theorem DecodeDestination_base58 {data : List UInt8} {d : CTxDestination}
    (h : base58Destination params data = some d) :
    (DecodeDestination params Hash (base58Encode (data ++ Bytes.leBytes (Hash data).toNat 4)) :
      Checked ε CTxDestination) = .ok d := by
  unfold DecodeDestination
  rw [DecodeBase58Check_base58Encode, Checked.ok_bind, Option.bind_some, h]
  rfl

theorem witnessDestination_V0KeyHash {id : List UInt8} (hid : id.length = 20) :
    witnessDestination 0 id = .WitnessV0KeyHash id := by
  simp [witnessDestination, hid]

theorem witnessDestination_V0ScriptHash {id : List UInt8} (hid : id.length = 32) :
    witnessDestination 0 id = .WitnessV0ScriptHash id := by
  simp [witnessDestination, hid]

theorem witnessDestination_unknown {version : ℕ} {program : List UInt8} (h1 : 1 ≤ version)
    (h16 : version ≤ 16) (h2 : 2 ≤ program.length) (h40 : program.length ≤ 40) :
    witnessDestination version program = .WitnessUnknown version program := by
  rw [witnessDestination, if_neg (by omega), if_neg (by omega)]

/-- Every destination `EncodeDestination` writes a text for is read back by
`DecodeDestination`, on a network with well-formed address parameters, whatever the hash of
the base58 check: a program of a version above 0 is read back when its text is not of the
33 to 35 characters the base58 branch reads, which the others never are. -/
theorem DecodeDestination_EncodeDestination (hp : params.AddressWF) {d : CTxDestination}
    (hd : d.Encodable = true) :
    ∃ s, (EncodeDestination params Hash d : Checked ε (List Char)) = .ok s ∧
      ((∀ version program, d = .WitnessUnknown version program →
          s.length < 33 ∨ 35 < s.length) →
        (DecodeDestination params Hash s : Checked ε CTxDestination) = .ok d) := by
  cases d with
  | CNoDestination => exact absurd hd (by decide)
  | CKeyID id =>
    have hid : id.length = 20 := by simpa [CTxDestination.Encodable] using hd
    exact ⟨_, EncodeBase58_eq _, fun _ => DecodeDestination_base58 Hash
      (base58Destination_pubkey hid)⟩
  | CScriptID id =>
    have hid : id.length = 20 := by simpa [CTxDestination.Encodable] using hd
    exact ⟨_, EncodeBase58_eq _, fun _ => DecodeDestination_base58 Hash
      (base58Destination_script2 hp hid)⟩
  | WitnessV0KeyHash id =>
    have hid : id.length = 20 := by simpa [CTxDestination.Encodable] using hd
    refine ⟨_, Encode_convertBits (by decide) id, fun _ => ?_⟩
    rw [DecodeDestination_witness Hash hp (v := 0) (by decide) (by omega) (Or.inl (by omega))]
    exact congrArg _ (witnessDestination_V0KeyHash hid)
  | WitnessV0ScriptHash id =>
    have hid : id.length = 32 := by simpa [CTxDestination.Encodable] using hd
    refine ⟨_, Encode_convertBits (by decide) id, fun _ => ?_⟩
    rw [DecodeDestination_witness Hash hp (v := 0) (by decide) (by omega) (Or.inl (by omega))]
    exact congrArg _ (witnessDestination_V0ScriptHash hid)
  | WitnessUnknown version program =>
    obtain ⟨⟨⟨h1, h16⟩, h2⟩, h40⟩ :
        ((1 ≤ version ∧ version ≤ 16) ∧ 2 ≤ program.length) ∧ program.length ≤ 40 := by
      simpa [CTxDestination.Encodable] using hd
    have hbyte : (UInt8.ofNat version).toNat = version :=
      UInt8.toNat_ofNat_of_lt' (by simp [UInt8.size]; omega)
    refine ⟨bech32.encodedText params.Bech32HRP
      (ConvertBits 8 5 true [UInt8.ofNat version] program).2, ?_, fun hwin => ?_⟩
    · rw [EncodeDestination, if_neg (by omega)]
      exact Encode_convertBits (by omega) program
    · rw [DecodeDestination_witness Hash hp (by omega) h40 (Or.inr (hwin version program rfl)),
        hbyte]
      exact congrArg _ (witnessDestination_unknown h1 h16 h2 h40)

theorem DecodeDestination_EncodeDestination_cas :
    CMainParams.AddressWF ∧ (CTxDestination.CKeyID (List.replicate 20 0)).Encodable = true ∧
      ∃ s, (EncodeDestination CMainParams (fun _ => Uint256.zero)
          (.CKeyID (List.replicate 20 0)) : Checked Unit (List Char)) = .ok s ∧
        ((∀ version program, CTxDestination.CKeyID (List.replicate 20 0) =
            .WitnessUnknown version program → s.length < 33 ∨ 35 < s.length) →
          (DecodeDestination CMainParams (fun _ => Uint256.zero) s : Checked Unit CTxDestination) =
            .ok (.CKeyID (List.replicate 20 0))) :=
  ⟨CMainParams_addressWF, rfl,
    DecodeDestination_EncodeDestination (fun _ => Uint256.zero) CMainParams_addressWF rfl⟩

theorem witnessDestination_encodable (version : ℕ) (data : List UInt8) :
    witnessDestination version data = .CNoDestination ∨
      (witnessDestination version data).Encodable = true := by
  unfold witnessDestination
  split_ifs with h0 h20 h32 hbad
  · right
    simp [CTxDestination.Encodable, h20]
  · right
    simp [CTxDestination.Encodable, h32]
  · left
    rfl
  · left
    rfl
  · right
    simp only [CTxDestination.Encodable, Bool.and_eq_true, decide_eq_true_eq]
    omega

theorem bech32Destination_encodable (s : List Char) :
    bech32Destination params s = .CNoDestination ∨
      (bech32Destination params s).Encodable = true := by
  unfold bech32Destination
  dsimp only
  -- the hrp and length test, then the regrouping's verdict
  split_ifs
  · exact witnessDestination_encodable _ _
  · exact Or.inl rfl
  · exact Or.inl rfl

/-- `DecodeDestination` fails no `assert`, and returns no destination or one that
`EncodeDestination` writes a text for: a 20-byte key or script hash, a 20- or 32-byte
version-0 witness hash, or a program of 2 to 40 bytes of a version from 1 to 16. -/
theorem DecodeDestination_encodable (params : CChainParams) (s : List Char) :
    ∃ d, (DecodeDestination params Hash s : Checked ε CTxDestination) = .ok d ∧
      (d = .CNoDestination ∨ d.Encodable = true) := by
  obtain ⟨r, hr⟩ := DecodeBase58Check_ok (ε := ε) Hash s
  unfold DecodeDestination
  rw [hr, Checked.ok_bind]
  rcases hb : r.bind (base58Destination params) with _ | d
  · exact ⟨_, rfl, bech32Destination_encodable s⟩
  · obtain ⟨data, -, hdata⟩ := Option.bind_eq_some_iff.mp hb
    exact ⟨d, rfl, Or.inr (encodable_of_base58Destination hdata)⟩

end RoundTrip

/-! ## The environment with these addresses -/

/-- The environment whose `DecodeDestination` and address test are the ones of this module, for
the network's parameters and the hash of the base58 check. An NFT holds an address as bytes,
which its `std::string` reads as characters one by one; `IsValidDestination(DecodeDestination(
str))` is the test the NFT validators make. A fault, which `DecodeDestination` never meets,
reads as no destination. -/
def ChainEnv.withAddresses (env : ChainEnv) (params : CChainParams)
    (Hash : List UInt8 → Uint256) : ChainEnv :=
  { env with
    decodeDestination := fun str =>
      match (DecodeDestination params Hash str.toList : Checked Unit CTxDestination) with
      | .ok d => d
      | .error _ => .CNoDestination
    validAddress := fun address =>
      match (DecodeDestination params Hash (address.map fun b => Char.ofNat b.toNat) :
          Checked Unit CTxDestination) with
      | .ok d => IsValidDestination d
      | .error _ => false }

end Cascoin
