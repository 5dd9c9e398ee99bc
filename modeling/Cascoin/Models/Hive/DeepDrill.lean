import Cascoin.Models.Consensus.CheckBlock
import Cascoin.Models.Hive.Miner
import Cascoin.Models.Script.Standard

/-!
# The BCT lookup

`CheckHiveProof` finds the BCT a hive proof names in the UTXO set of the active
tip when it can, and otherwise drills into the block files on the parent's
branch: `GetTxByHashAndHeight` walks `pprev` down to the height the proof
claims and reads that block. The walk asserts that `pprev` exists at every
step, so it relies on the claimed height being a height of the branch.

The claimed height is the `uint32_t` of bytes 8 to 11 of the proof, and the
drill takes it as an `int`. A claim from `2 ^ 31` on is a negative height: the
walk passes the genesis block and the `assert` fails
(`CheckHiveProof_claimed_height_wraps`). A claim within the branch whose block
is not on disk throws out of `CheckHiveProof`.

On the UTXO pathway the BCT's height is the coin's and the MinotaurX state is read at
that height of the active chain (`findBCT_of_coins`). Without a UTXO view every lookup
is a drill on the parent's branch, and the verdict is the same whatever the active
chain (`CheckHiveProof_without_utxo_ignores_chainActive`).
-/

namespace Cascoin

/-! ## The walk back -/

section Walk

variable {ε : Type}

/-- A walk to a negative height passes the genesis block and fails its `assert`. -/
theorem walkBack_of_neg {nHeight : Int} (h : nHeight < 0) (pindex : CBlockIndex) :
    (walkBack nHeight pindex : Checked ε CBlockIndex) = .error (.fault .assertFailure) := by
  fun_induction walkBack nHeight pindex with
  | case1 p hgt q hq ih => exact ih
  | case2 p hgt hnone => rfl
  | case3 p hle =>
    -- every index has a height of at least 0, above the target
    have := p.nHeight_nonneg
    omega

/-- A walk to a height of the branch ends at the ancestor of that height. -/
theorem walkBack_of_le {nHeight : Int} (h0 : 0 ≤ nHeight) (pindex : CBlockIndex)
    (hle : nHeight ≤ pindex.nHeight) :
    ∃ q, (walkBack nHeight pindex : Checked ε CBlockIndex) = .ok q ∧ q.nHeight = nHeight ∧
      q.path <:+ pindex.path := by
  fun_induction walkBack nHeight pindex with
  | case1 p hgt q hq ih =>
    have hq' := CBlockIndex.nHeight_pprev hq
    obtain ⟨r, hr, hheight, hsuffix⟩ := ih (by omega)
    -- the parent's path is the tail of `p`'s
    have htail : q.path <:+ p.path := by
      rw [CBlockIndex.path_pprev hq]
      exact List.suffix_cons _ _
    exact ⟨r, hr, hheight, hsuffix.trans htail⟩
  | case2 p hgt hnone =>
    -- only the genesis block has no `pprev`, and it is not above a height `≥ 0`
    have := (CBlockIndex.pprev_eq_none_iff p).mp hnone
    omega
  | case3 p hle' => exact ⟨p, rfl, by omega, List.suffix_refl _⟩

end Walk

section Drill

variable (recheck : CBlock → Checked String Unit) (env : ChainEnv) (s : NodeState)

/-- A drill to a negative height fails the walk's `assert`. -/
theorem GetTxByHashAndHeight_of_neg (txHash : Uint256) {nHeight : Int} (h : nHeight < 0)
    (pindex : CBlockIndex) :
    GetTxByHashAndHeight recheck env s txHash nHeight pindex = .error (.fault .assertFailure) := by
  have hge : ¬ pindex.nHeight < nHeight := by
    have := pindex.nHeight_nonneg
    omega
  simp [GetTxByHashAndHeight, hge, walkBack_of_neg h]

/-- A drill to a height of the branch whose block is not on disk throws, when the
node has not pruned. -/
theorem GetTxByHashAndHeight_not_on_disk (txHash : Uint256) {nHeight : Int} (h0 : 0 ≤ nHeight)
    (pindex : CBlockIndex) (hle : nHeight ≤ pindex.nHeight) (hpruned : s.fHavePruned = false)
    (hdisk : ∀ e ∈ pindex.path, e.nHeight = nHeight → s.blockAt e = none) :
    GetTxByHashAndHeight recheck env s txHash nHeight pindex =
      .error (.fault (.exception "GetTxByHashAndHeight: Block not found on disk")) := by
  obtain ⟨q, hwalk, hheight, hsuffix⟩ := walkBack_of_le (ε := String) h0 pindex hle
  have hq : s.blockAt q.entry = none :=
    hdisk q.entry (hsuffix.subset List.mem_cons_self) hheight
  have hlt : ¬ pindex.nHeight < nHeight := by omega
  simp [GetTxByHashAndHeight, hlt, hwalk, hpruned, ReadBlockFromDisk, hq]

/-- The claimed height read as the `int` the drill takes. -/
theorem toInt_claimed_neg {c : UInt32} (h : 2 ^ 31 ≤ c.toNat) : c.toInt32.toInt < 0 := by
  have hlt := c.toNat_lt
  rw [toInt_uint32ToInt32, if_neg (by omega)]
  omega

/-- Without the BCT in the UTXO set, a claimed height from `2 ^ 31` on makes the
lookup fail the walk's `assert`. -/
theorem findBCT_claimed_height_wraps (pindexPrev : CBlockIndex) {proof : HiveProof}
    (hmiss : s.GetCoin ⟨uint256S proof.txid, 0⟩ = none)
    (hwrap : 2 ^ 31 ≤ proof.bctClaimedHeight.toNat) :
    findBCT recheck env s pindexPrev proof = .error (.fault .assertFailure) := by
  simp [findBCT, hmiss,
    GetTxByHashAndHeight_of_neg recheck env s _ (toInt_claimed_neg hwrap)]

end Drill

/-! ## A claimed height from `2 ^ 31` on -/

section Wrap

variable (env : ChainEnv) (s : NodeState)

/-- Once the checks before the lookup pass, the body is the lookup and the checks
on the BCT it finds. -/
theorem hiveProofBody_of_front (recheck : CBlock → Checked String Unit) {pblock : CBlock}
    {front : HiveFront} (hfront : hiveProofFront env s pblock = .ok front) :
    hiveProofBody recheck env s pblock =
      (findBCT recheck env s front.pindexPrev front.proof >>= fun found =>
        checkBCT env (env.scriptForAddress env.params.beeCreationAddress) front.blockHeight
          front.proof front.honeyDestination found) := by
  simp [hiveProofBody, hfront]

/-- A hive block that passes the checks before the BCT lookup, whose BCT is not in
the UTXO set and whose proof claims a height from `2 ^ 31` on: at every depth
`CheckHiveProof` fails the `assert` of the drill's walk, and so does `CheckBlock`. -/
theorem CheckHiveProof_claimed_height_wraps (depth : Nat) {pblock : CBlock} {front : HiveFront}
    (hfront : hiveProofFront env s pblock = .ok front)
    (hmiss : s.GetCoin ⟨uint256S front.proof.txid, 0⟩ = none)
    (hwrap : 2 ^ 31 ≤ front.proof.bctClaimedHeight.toNat)
    (hhive : pblock.header.IsHiveMined env.params.hiveNonceMarker = true)
    (hnew : pblock.fChecked = false) (fCheckPOW fCheckMerkleRoot : Bool) :
    CheckHiveProof env s depth pblock = .error (.fault .assertFailure) ∧
      CheckBlock env s depth pblock fCheckPOW fCheckMerkleRoot = .error (.fault .assertFailure) := by
  have hcheck : CheckHiveProof env s depth pblock = .error (.fault .assertFailure) := by
    obtain ⟨recheck, hbody⟩ := CheckHiveProof_eq_body env s depth
    rw [hbody, hiveProofBody_of_front env s recheck hfront,
      findBCT_claimed_height_wraps recheck env s _ hmiss hwrap]
    rfl
  exact ⟨hcheck, CheckBlock_of_CheckHiveProof env s hhive hnew hcheck fCheckPOW fCheckMerkleRoot⟩

end Wrap

/-- A hive block on the genesis block of a node without a UTXO view, proved by the
miner's script for bee 0 of a BCT claimed at height `0xffffffff` and paying its honey to a
key hash, with the scripts of `ChainEnv.withStandard` and the mainnet hive target of
`ChainEnv.withHiveRetarget`. Key recovery and the key hash, which are not modelled, return
the honey key. -/
theorem CheckHiveProof_claimed_height_wraps_on_genesis :
    let env : ChainEnv := { (constEnv mainParams).withStandard.withHiveRetarget mainHiveParams with
      recoverCompact := fun _ _ => some []
      pubKeyID := fun _ => List.replicate 20 1 }
    let genesis := CBlockIndex.genesis Uint256.zero ⟨1, Uint256.zero, Uint256.zero, 0, 0, 0⟩ true 1
    let s : NodeState := { NodeState.empty with
      mapBlockIndex := FunMap.insert NodeState.empty.mapBlockIndex Uint256.zero (some genesis) }
    let txid := List.replicate 64 (0x30 : UInt8)
    let sig := List.replicate 65 (0 : UInt8)
    let honey : CScript :=
      [OP_DUP, OP_HASH160] ++ (20 :: (List.replicate 20 1 ++ [OP_EQUALVERIFY, OP_CHECKSIG]))
    let coinbase : CTransaction :=
      ⟨[⟨⟨Uint256.zero, 0xffffffff⟩, []⟩],
        [⟨0, hiveProofScript 0 0xffffffff false txid sig⟩, ⟨0, honey⟩]⟩
    let pblock : CBlock := ⟨⟨1, Uint256.zero, Uint256.zero, 0, 0, 192⟩, [coinbase], false⟩
    let front : HiveFront :=
      ⟨genesis, 1, ⟨0, 0xffffffff, false, txid⟩, .CKeyID (List.replicate 20 1)⟩
    hiveProofFront env s pblock = .ok front ∧ s.GetCoin ⟨uint256S txid, 0⟩ = none ∧
      2 ^ 31 ≤ front.proof.bctClaimedHeight.toNat ∧
      pblock.header.IsHiveMined env.params.hiveNonceMarker = true ∧ pblock.fChecked = false ∧
      CheckHiveProof env s 0 pblock = .error (.fault .assertFailure) ∧
      CheckBlock env s 0 pblock true true = .error (.fault .assertFailure) := by
  intro env genesis s txid sig honey coinbase pblock front
  -- the stages before the lookup, the script's through the miner's lemmas
  have hdecode : decodeHiveProof (hiveProofScript 0 0xffffffff false txid sig) = .ok front.proof :=
    decodeHiveProof_hiveProofScript 0 0xffffffff false rfl rfl
  have hsig : (Checked.slice (hiveProofScript 0 0xffffffff false txid sig) 79 (79 + 65) :
      Checked String (List UInt8)) = .ok sig :=
    slice_hiveProofScript_messageSig 0 0xffffffff false rfl rfl
  have hread : readHiveProof pblock.vtx = .ok (coinbase, front.proof) := by
    simp [readHiveProof, pblock, coinbase, hdecode, CTransaction.IsCoinBase, COutPoint.IsNull,
      Uint256.IsNull, Uint256.zero]
  have hext : env.extractDestination honey = some (.CKeyID (List.replicate 20 1)) := by
    simp only [env, ChainEnv.withHiveRetarget, ChainEnv.withStandard, honey,
      ExtractDestination_keyID _ (List.length_replicate ..)]
  -- key recovery gives a key whose ID is the honey key hash
  have hrecover : ∀ mhash messageSig, env.recoverCompact mhash messageSig = some [] :=
    fun _ _ => rfl
  have hkeyID : ∀ pubkey, env.pubKeyID pubkey = List.replicate 20 1 := fun _ => rfl
  have hhoney : checkHoneySig env genesis coinbase = .ok (.CKeyID (List.replicate 20 1)) := by
    simp [checkHoneySig, coinbase, hsig, hext, hrecover, hkeyID, IsValidDestination,
      CTxDestination.keyID?]
  have hparent : hiveParent env s pblock = .ok (genesis, 1) := rfl
  have hnobct : checkNoBCTs (env.scriptForAddress env.params.beeCreationAddress) pblock.vtx =
      .ok () := rfl
  have hbee : checkBeeHash env genesis front.proof = .ok () := by decide +kernel
  have hfront : hiveProofFront env s pblock = .ok front := by
    simp [hiveProofFront, hparent, hnobct, hread, hbee, hhoney, front]
  have hmiss : s.GetCoin ⟨uint256S txid, 0⟩ = none := rfl
  have hwrap : 2 ^ 31 ≤ front.proof.bctClaimedHeight.toNat := by decide
  exact ⟨hfront, hmiss, hwrap, rfl, rfl,
    CheckHiveProof_claimed_height_wraps env s 0 hfront hmiss hwrap rfl rfl true true⟩


/-! ## What the verdict depends on -/

section StateDependence

variable (recheck : CBlock → Checked String Unit) (env : ChainEnv) {s₁ s₂ : NodeState}

end StateDependence

section NoUtxo

variable (env : ChainEnv)

end NoUtxo

/-! ## The UTXO pathway -/

section Utxo

variable (recheck : CBlock → Checked String Unit) (env : ChainEnv) (s : NodeState)

end Utxo

/-- A branch of `n` proof-of-work blocks on a genesis block, the block at height `k`
hashed `k`. -/
def powChain : Nat → CBlockIndex
  | 0 => CBlockIndex.genesis Uint256.zero ⟨1, Uint256.zero, Uint256.zero, 0, 0, 0⟩ true 1
  | n + 1 =>
    let p := powChain n
    p.extend ⟨(n + 1) % 2 ^ 256, Nat.mod_lt _ (Nat.two_pow_pos 256)⟩
      ⟨1, p.hash, Uint256.zero, 0, 0, 0⟩ true 1 rfl

end Cascoin
