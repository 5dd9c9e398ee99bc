import Cascoin.Models.Mining.Assembler

/-!
# `generateBlocks`

The built-in miner of the `generate` RPCs. Each round takes a fresh PoW
template (`CreateNewBlock(coinbaseScript->reserveScript)`, whose nonce is 0),
bumps the extra nonce in the coinbase (`IncrementExtraNonce`), and searches the
nonces from 0 while tries are left, the nonce is below `nInnerLoopCount` and the
header's PoW hash misses its target. Out of tries the loop stops; out of nonces it
starts a new round; otherwise the block goes to `ProcessNewBlock`, and a block the
node does not accept makes the RPC throw.

The node is a parameter (`MiningNode`): its tip, the template it builds and what
`ProcessNewBlock` does. The loop does not stop by itself on every node (a
template whose nonce is `nInnerLoopCount` makes it start round after round), so
the model runs a given number of rounds and says when the loop is still going.

Every block the loop passes on meets its PoW target (`generateBlocks_submitted_pow`).
But whether a block is hive mined is decided by its nonce alone, and the search does
not skip the hive marker: when the first nonce whose hash meets the target is the
marker, the round passes a block that `CheckBlock` takes for a hive block
(`generateRound_passes_hive_marker`).
-/

namespace Cascoin

/-! ## One round -/

/-- `COINBASE_FLAGS`: nothing is appended to it. -/
def COINBASE_FLAGS : CScript := []

/-- What `IncrementExtraNonce` keeps between calls: its static `hashPrevBlock` and
the caller's `nExtraNonce`. -/
structure ExtraNonceState where
  hashPrevBlock : Uint256
  nExtraNonce : UInt32
  deriving DecidableEq

/-- `IncrementExtraNonce(pblock, pindexPrev, nExtraNonce)`: the count starts again on
a new parent; the coinbase's `scriptSig` becomes the height and the count, and the
merkle root is recomputed. -/
def IncrementExtraNonce (env : ChainEnv) (pblock : CBlock) (pindexPrev : CBlockIndex)
    (st : ExtraNonceState) : Checked String (CBlock × ExtraNonceState) := do
  let nExtraNonce := if st.hashPrevBlock ≠ pblock.header.hashPrevBlock then 0 else st.nExtraNonce
  let nExtraNonce := nExtraNonce + 1
  let nHeight : UInt32 := UInt32.ofInt (pindexPrev.nHeight + 1)
  let txCoinbase ← Checked.get pblock.vtx 0
  let txin ← Checked.get txCoinbase.vin 0
  let scriptSig :=
    pushData (pushInt64 [] nHeight.toNat) (scriptNumSerialize nExtraNonce.toNat) ++ COINBASE_FLAGS
  Checked.assert (decide (scriptSig.length ≤ 100))
  let vtx := pblock.vtx.set 0 { txCoinbase with vin := txCoinbase.vin.set 0 { txin with scriptSig } }
  return ({ pblock with
      vtx := vtx
      header := { pblock.header with hashMerkleRoot := (env.blockMerkleRoot vtx).1 } },
    ⟨pblock.header.hashPrevBlock, nExtraNonce⟩)

/-- `nInnerLoopCount`. -/
def nInnerLoopCount : Nat := 0x10000

/-- The nonce loop of `generateBlocks`: while tries are left, the nonce is below
`nInnerLoopCount` and the PoW hash misses the target, the next nonce with one try
fewer. The header and the tries left. -/
def scanNonce (env : ChainEnv) (header : CBlockHeader) :
    Nat → Checked String (CBlockHeader × Nat)
  | 0 => pure (header, 0)
  | nMaxTries + 1 =>
    if header.nNonce.toNat < nInnerLoopCount then do
      if ← CheckProofOfWork env.params (env.powHash header) header.nBits then
        pure (header, nMaxTries + 1)
      else scanNonce env { header with nNonce := header.nNonce + 1 } nMaxTries
    else pure (header, nMaxTries + 1)

/-- How a round of `generateBlocks` ends. -/
inductive GenerateRound where
  /-- No tries are left: `break`. -/
  | outOfTries
  /-- The nonces ran out: `continue` with a new template. -/
  | nextTemplate (nMaxTries : Nat)
  /-- The block goes to `ProcessNewBlock`. -/
  | found (block : CBlock) (nMaxTries : Nat)

/-- One round of `generateBlocks` on the template's block: the extra nonce, the
nonce search and the test of how it ended. -/
def generateRound (env : ChainEnv) (pblock : CBlock) (pindexPrev : CBlockIndex)
    (st : ExtraNonceState) (nMaxTries : Nat) : Checked String (GenerateRound × ExtraNonceState) := do
  let (pblock, st) ← IncrementExtraNonce env pblock pindexPrev st
  let (header, nMaxTries) ← scanNonce env pblock.header nMaxTries
  if nMaxTries = 0 then pure (.outOfTries, st)
  else if header.nNonce.toNat = nInnerLoopCount then pure (.nextTemplate nMaxTries, st)
  else pure (.found { pblock with header := header } nMaxTries, st)

/-! ## The nonce search -/

/-- `IncrementExtraNonce` changes only the coinbase and, in the header, the merkle
root. -/
theorem IncrementExtraNonce_header {env : ChainEnv} {pblock : CBlock} {pindexPrev : CBlockIndex}
    {st : ExtraNonceState} {pblock' : CBlock} {st' : ExtraNonceState}
    (h : IncrementExtraNonce env pblock pindexPrev st = .ok (pblock', st')) :
    pblock'.header = { pblock.header with hashMerkleRoot := pblock'.header.hashMerkleRoot } := by
  unfold IncrementExtraNonce at h
  obtain ⟨txCoinbase, -, h⟩ := Checked.bind_eq_ok h
  obtain ⟨txin, -, h⟩ := Checked.bind_eq_ok h
  obtain ⟨_, -, h⟩ := Checked.bind_eq_ok h
  cases h
  rfl

section Scan

variable (env : ChainEnv)

/-- The search changes only the nonce, which stays at most `nInnerLoopCount`, and ends
out of tries, out of nonces, or at a header that meets its target. -/
theorem scanNonce_spec {header header' : CBlockHeader} {nMaxTries nMaxTries' : Nat}
    (hle : header.nNonce.toNat ≤ nInnerLoopCount)
    (h : scanNonce env header nMaxTries = .ok (header', nMaxTries')) :
    header' = { header with nNonce := header'.nNonce } ∧
      header'.nNonce.toNat ≤ nInnerLoopCount ∧
      (nMaxTries' = 0 ∨ header'.nNonce.toNat = nInnerLoopCount ∨
        (CheckProofOfWork env.params (env.powHash header') header'.nBits :
          Checked String Bool) = .ok true) := by
  induction nMaxTries generalizing header with
  | zero =>
    cases h
    exact ⟨rfl, hle, .inl rfl⟩
  | succ n ih =>
    simp only [scanNonce] at h
    split at h
    · rename_i hlt
      obtain ⟨found, hpow, h⟩ := Checked.bind_eq_ok h
      cases found
      · -- the hash misses: the search goes on at the next nonce
        have hnext : ({ header with nNonce := header.nNonce + 1 } : CBlockHeader).nNonce.toNat ≤
            nInnerLoopCount := by
          simp only [UInt32.toNat_add, UInt32.toNat_one]
          simp only [nInnerLoopCount] at hlt ⊢
          omega
        exact @ih { header with nNonce := header.nNonce + 1 } hnext h
      · cases h
        exact ⟨rfl, hle, .inr (.inr hpow)⟩
    · cases h
      exact ⟨rfl, hle, .inr (.inl (by omega))⟩

/-- From nonce `i`, with more tries than nonces to go, the search stops at the first
nonce `m` below `nInnerLoopCount` whose hash meets the target. -/
theorem scanNonce_first_hit {header : CBlockHeader} {m : Nat} (hm : m < nInnerLoopCount)
    (hmiss : ∀ k < m, (CheckProofOfWork env.params
      (env.powHash { header with nNonce := UInt32.ofNat k }) header.nBits :
        Checked String Bool) = .ok false)
    (hhit : (CheckProofOfWork env.params (env.powHash { header with nNonce := UInt32.ofNat m })
      header.nBits : Checked String Bool) = .ok true) :
    ∀ j i nMaxTries, i + j = m → j < nMaxTries →
      scanNonce env { header with nNonce := UInt32.ofNat i } nMaxTries =
        .ok ({ header with nNonce := UInt32.ofNat m }, nMaxTries - j) := by
  intro j
  induction j with
  | zero =>
    intro i nMaxTries hij hj
    obtain ⟨n, rfl⟩ : ∃ n, nMaxTries = n + 1 := ⟨nMaxTries - 1, by omega⟩
    obtain rfl : i = m := by omega
    simp [scanNonce, hhit]
  | succ j ih =>
    intro i nMaxTries hij hj
    obtain ⟨n, rfl⟩ : ∃ n, nMaxTries = n + 1 := ⟨nMaxTries - 1, by omega⟩
    have hlt : (UInt32.ofNat i).toNat < nInnerLoopCount := by
      rw [UInt32.toNat_ofNat']
      simp only [nInnerLoopCount] at hm ⊢
      omega
    have hnext : UInt32.ofNat i + 1 = UInt32.ofNat (i + 1) := (UInt32.ofNat_add i 1).symm
    simp only [scanNonce, hlt, if_true, hmiss i (by omega), Checked.ok_bind, Bool.false_eq_true,
      if_false, hnext]
    rw [show n + 1 - (j + 1) = n - j by omega]
    exact ih (i + 1) n (by omega) (by omega)

end Scan

section Round

variable (env : ChainEnv)

/-- A block a round passes on meets its target, when the template's nonce is at most
`nInnerLoopCount`. -/
theorem generateRound_found_pow {pblock : CBlock} {pindexPrev : CBlockIndex}
    {st : ExtraNonceState} {nMaxTries : Nat} {block : CBlock} {n : Nat} {st' : ExtraNonceState}
    (hle : pblock.header.nNonce.toNat ≤ nInnerLoopCount)
    (h : generateRound env pblock pindexPrev st nMaxTries = .ok (.found block n, st')) :
    (CheckProofOfWork env.params (env.powHash block.header) block.header.nBits :
      Checked String Bool) = .ok true := by
  unfold generateRound at h
  obtain ⟨⟨pblock', st₁⟩, hinc, h⟩ := Checked.bind_eq_ok h
  obtain ⟨⟨header, n'⟩, hscan, h⟩ := Checked.bind_eq_ok h
  have hle' : pblock'.header.nNonce.toNat ≤ nInnerLoopCount := by
    rw [IncrementExtraNonce_header hinc]
    exact hle
  obtain ⟨-, -, hend⟩ := scanNonce_spec env hle' hscan
  dsimp only at h
  -- out of tries and out of nonces pass nothing on
  split at h
  · simp at h
  split at h
  · simp at h
  cases h
  rcases hend with h0 | hcount | hpow
  · contradiction
  · contradiction
  · exact hpow

end Round

/-! ## The loop -/

/-- The node `generateBlocks` runs on: the tip, the template
`BlockAssembler(Params()).CreateNewBlock(coinbaseScript->reserveScript)` builds, and
`ProcessNewBlock(Params(), block, true, nullptr)`, which gives the node after a
block it accepts and `none` for one it does not. -/
structure MiningNode (σ : Type) where
  tip : σ → CChain
  createNewBlock : σ → Checked String CBlockTemplate
  processNewBlock : σ → CBlock → Checked String (Option σ)

/-- What a run of `generateBlocks` did: the blocks it passed to `ProcessNewBlock`, in
order, and its result, `none` while it is still running. -/
structure GenerateRun where
  submitted : List CBlock
  result : Option (Checked String (List Uint256))

/-- A run that passed `block` on before the rest. -/
def GenerateRun.submit (block : CBlock) (run : GenerateRun) : GenerateRun :=
  ⟨block :: run.submitted, run.result⟩

section Loop

variable {σ : Type} (env : ChainEnv) (node : MiningNode σ)

/-- The loop `while (nHeight < nHeightEnd)` of `generateBlocks`, for at most `rounds`
more rounds, with the hashes of the blocks accepted so far. -/
def generateBlocksLoop :
    Nat → σ → ExtraNonceState → Int → Int → Nat → List Uint256 → GenerateRun
  | 0, _, _, _, _, _, _ => ⟨[], none⟩
  | rounds + 1, s, st, nHeight, nHeightEnd, nMaxTries, blockHashes =>
    if nHeight < nHeightEnd then
      let round : Checked String (GenerateRound × ExtraNonceState) := do
        let pblocktemplate ← node.createNewBlock s
        let pindexPrev ← Checked.deref (node.tip s)
        generateRound env pblocktemplate.block pindexPrev st nMaxTries
      match round with
      | .error e => ⟨[], some (.error e)⟩
      | .ok (.outOfTries, _) => ⟨[], some (.ok blockHashes)⟩
      | .ok (.nextTemplate nMaxTries, st) =>
        generateBlocksLoop rounds s st nHeight nHeightEnd nMaxTries blockHashes
      | .ok (.found block nMaxTries, st) =>
        match node.processNewBlock s block with
        | .error e => ⟨[block], some (.error e)⟩
        | .ok none => ⟨[block], some (Checked.raise "ProcessNewBlock, block not accepted")⟩
        | .ok (some s) =>
          (generateBlocksLoop rounds s st (nHeight + 1) nHeightEnd nMaxTries
            (blockHashes ++ [env.blockHash block.header])).submit block
    else ⟨[], some (.ok blockHashes)⟩

/-- `generateBlocks(coinbaseScript, nGenerate, nMaxTries, keepScript)`, for at most
`rounds` rounds, with the static `hashPrevBlock` of `IncrementExtraNonce` left by
earlier calls. -/
def generateBlocks (rounds : Nat) (s : σ) (hashPrevBlock : Uint256) (nGenerate : Int)
    (nMaxTries : Nat) : GenerateRun :=
  let nHeight := (node.tip s).Height
  generateBlocksLoop env node rounds s ⟨hashPrevBlock, 0⟩ nHeight (nHeight + nGenerate) nMaxTries
    []

/-- A round of the loop that passes a block on, from a template whose nonce is at most
`nInnerLoopCount`, passes one that meets its target. -/
theorem loopRound_found_pow {s : σ} {st : ExtraNonceState} {nMaxTries : Nat} {block : CBlock}
    {n : Nat} {st' : ExtraNonceState}
    (htmpl : ∀ s pblocktemplate, node.createNewBlock s = .ok pblocktemplate →
      pblocktemplate.block.header.nNonce.toNat ≤ nInnerLoopCount)
    (h : (do
        let pblocktemplate ← node.createNewBlock s
        let pindexPrev ← Checked.deref (node.tip s)
        generateRound env pblocktemplate.block pindexPrev st nMaxTries) =
      .ok (.found block n, st')) :
    (CheckProofOfWork env.params (env.powHash block.header) block.header.nBits :
      Checked String Bool) = .ok true := by
  obtain ⟨pblocktemplate, htemplate, h⟩ := Checked.bind_eq_ok h
  obtain ⟨pindexPrev, -, h⟩ := Checked.bind_eq_ok h
  exact generateRound_found_pow env (htmpl s pblocktemplate htemplate) h

/-- Every block a run passes to `ProcessNewBlock` meets its target, on a node whose
templates have a nonce of at most `nInnerLoopCount` (a PoW template of
`CreateNewBlock` has nonce 0, `CreateNewBlock_nNonce`). -/
theorem generateBlocksLoop_submitted_pow
    (htmpl : ∀ s pblocktemplate, node.createNewBlock s = .ok pblocktemplate →
      pblocktemplate.block.header.nNonce.toNat ≤ nInnerLoopCount) :
    ∀ rounds s st nHeight nHeightEnd nMaxTries blockHashes,
      ∀ block ∈ (generateBlocksLoop env node rounds s st nHeight nHeightEnd nMaxTries
        blockHashes).submitted,
      (CheckProofOfWork env.params (env.powHash block.header) block.header.nBits :
        Checked String Bool) = .ok true := by
  intro rounds
  induction rounds with
  | zero =>
    intro s st nHeight nHeightEnd nMaxTries blockHashes block hblock
    simp [generateBlocksLoop] at hblock
  | succ rounds ih =>
    intro s st nHeight nHeightEnd nMaxTries blockHashes block hblock
    simp only [generateBlocksLoop] at hblock
    split at hblock
    · split at hblock
      · simp at hblock
      · simp at hblock
      · exact ih _ _ _ _ _ _ block hblock
      · -- the round passed a block on: it is the one submitted, or a later round's
        rename_i found nMaxTries' st' hround
        have hfound := loopRound_found_pow env node htmpl hround
        split at hblock
        · simp only [List.mem_singleton] at hblock
          rw [hblock]
          exact hfound
        · simp only [List.mem_singleton] at hblock
          rw [hblock]
          exact hfound
        · rcases List.mem_cons.mp hblock with rfl | hrest
          · exact hfound
          · exact ih _ _ _ _ _ _ block hrest
    · simp at hblock

/-- Every block `generateBlocks` passes to `ProcessNewBlock` meets its target, on a
node whose templates have a nonce of at most `nInnerLoopCount`. -/
theorem generateBlocks_submitted_pow
    (htmpl : ∀ s pblocktemplate, node.createNewBlock s = .ok pblocktemplate →
      pblocktemplate.block.header.nNonce.toNat ≤ nInnerLoopCount)
    (rounds : Nat) (s : σ) (hashPrevBlock : Uint256) (nGenerate : Int) (nMaxTries : Nat) :
    ∀ block ∈ (generateBlocks env node rounds s hashPrevBlock nGenerate nMaxTries).submitted,
      (CheckProofOfWork env.params (env.powHash block.header) block.header.nBits :
        Checked String Bool) = .ok true :=
  generateBlocksLoop_submitted_pow env node htmpl _ _ _ _ _ _ _

end Loop

/-! ## The hive marker -/

/-- The nonce search does not skip the hive marker. On a PoW template of
`CreateNewBlock`, when the first nonce whose hash meets the target is the marker and
the tries reach it, the round passes on the block with the marker as nonce, which
`IsHiveMined` takes for a hive block: `CheckBlockHeader` skips its proof of work and
`CheckBlock` runs `CheckHiveProof` on it. -/
theorem generateRound_passes_hive_marker (env : ChainEnv) (menv : MinerEnv)
    (options : BlockAssemblerOptions) (chainActive : CChain) (mempool : CTxMemPool)
    (candidates : List PackageCandidate) (scriptPubKeyIn : CScript) (fMineWitnessTx : Bool)
    (powType : POW_TYPE) {pblocktemplate : CBlockTemplate}
    (htmpl : CreateNewBlock env menv options chainActive mempool candidates scriptPubKeyIn
      fMineWitnessTx none powType = .ok pblocktemplate)
    (pindexPrev : CBlockIndex) (st : ExtraNonceState) (nMaxTries : Nat) {pblock : CBlock}
    {st' : ExtraNonceState}
    (hinc : IncrementExtraNonce env pblocktemplate.block pindexPrev st = .ok (pblock, st'))
    (hpow : ∀ nNonce : UInt32, (CheckProofOfWork env.params
      (env.powHash { pblock.header with nNonce := nNonce }) pblock.header.nBits :
        Checked String Bool) = .ok (nNonce == env.params.hiveNonceMarker))
    (hmarker : env.params.hiveNonceMarker.toNat < nInnerLoopCount)
    (htries : env.params.hiveNonceMarker.toNat < nMaxTries) :
    generateRound env pblocktemplate.block pindexPrev st nMaxTries =
        .ok (.found { pblock with header :=
            { pblock.header with nNonce := env.params.hiveNonceMarker } }
          (nMaxTries - env.params.hiveNonceMarker.toNat), st') ∧
      ({ pblock.header with nNonce := env.params.hiveNonceMarker } : CBlockHeader).IsHiveMined
        env.params.hiveNonceMarker = true := by
  -- the template's nonce is 0, and the extra nonce leaves it
  have hnonce0 : pblock.header.nNonce = UInt32.ofNat 0 := by
    rw [IncrementExtraNonce_header hinc]
    simpa using CreateNewBlock_nNonce env menv options chainActive mempool candidates
      scriptPubKeyIn fMineWitnessTx none powType htmpl
  have hstart : ({ pblock.header with nNonce := UInt32.ofNat 0 } : CBlockHeader) =
      pblock.header := by
    rw [← hnonce0]
  -- every nonce below the marker misses the target, the marker meets it
  have hmiss : ∀ k < env.params.hiveNonceMarker.toNat, (CheckProofOfWork env.params
      (env.powHash { pblock.header with nNonce := UInt32.ofNat k }) pblock.header.nBits :
        Checked String Bool) = .ok false := by
    intro k hk
    rw [hpow, beq_eq_false_iff_ne.mpr]
    intro heq
    have hk' := congrArg UInt32.toNat heq
    rw [UInt32.toNat_ofNat'] at hk'
    have := UInt32.toNat_lt env.params.hiveNonceMarker
    omega
  have hhit : (CheckProofOfWork env.params (env.powHash
      { pblock.header with nNonce := UInt32.ofNat env.params.hiveNonceMarker.toNat })
        pblock.header.nBits : Checked String Bool) = .ok true := by
    rw [UInt32.ofNat_toNat, hpow]
    simp
  have hscan := scanNonce_first_hit env hmarker hmiss hhit env.params.hiveNonceMarker.toNat 0
    nMaxTries (by omega) htries
  rw [hstart, UInt32.ofNat_toNat] at hscan
  have hleft : nMaxTries - env.params.hiveNonceMarker.toNat ≠ 0 := by omega
  have hbelow : env.params.hiveNonceMarker.toNat ≠ nInnerLoopCount := by omega
  refine ⟨?_, by simp [CBlockHeader.IsHiveMined]⟩
  simp only [generateRound, hinc, Checked.ok_bind, hscan, hleft, hbelow, if_false]
  rfl

set_option maxRecDepth 8000 in
/-- On a network whose three PoW limits are `2 ^ 255 - 1`, before MinotaurX, with a
PoW hash that meets the target `0x207fffff` at nonce 192 only: the first round on the
genesis block with 1000 tries passes on a block with nonce 192, and `CheckBlock`
rejects it as a hive block without a hive proof. -/
theorem generateRound_passes_hive_marker_at_192 :
    let lim : Uint256 := ⟨2 ^ 255 - 1, by decide⟩
    let params : ConsensusParams := { mainParams with powTypeLimits := [lim, lim, lim] }
    let env : ChainEnv := { constEnv params with
      deploymentActive := fun d _ => d != .DEPLOYMENT_MINOTAURX
      powHash := fun header =>
        if header.nNonce = 192 then Uint256.zero else ⟨2 ^ 256 - 1, by decide⟩ }
    let menv : MinerEnv := ⟨fun _ => 0x20000000, none, 1000, fun _ => true, 0,
      fun _ _ _ => true, fun _ => Uint256.zero, fun _ _ => 0x207fffff, fun _ _ => none⟩
    let genesis := CBlockIndex.genesis Uint256.zero ⟨1, Uint256.zero, Uint256.zero, 0, 0, 0⟩ true 1
    let node : NodeState := { NodeState.empty with
      mapBlockIndex := fun hash => if hash = Uint256.zero then some (some genesis) else none
      chainActive := some genesis }
    let mempool : CTxMemPool := ⟨fun _ => ⟨⟨[], []⟩, 0, 0, 0, 0, false⟩, fun _ => []⟩
    let pblock : CBlock := ⟨⟨0x20000000, Uint256.zero, Uint256.zero, 1000, 0x207fffff, 0⟩,
      [⟨[⟨COutPoint.null, [0x51, 0x01, 0x01]⟩], [⟨50 * COIN, [OP_TRUE]⟩]⟩], false⟩
    ∃ pblocktemplate, CreateNewBlock env menv ⟨4000000, ⟨1000⟩⟩ (some genesis) mempool []
        [OP_TRUE] true none .POW_TYPE_SHA256 = .ok pblocktemplate ∧
      IncrementExtraNonce env pblocktemplate.block genesis ⟨Uint256.zero, 0⟩ =
        .ok (pblock, ⟨Uint256.zero, 1⟩) ∧
      (∀ nNonce : UInt32, (CheckProofOfWork env.params
        (env.powHash { pblock.header with nNonce := nNonce }) pblock.header.nBits :
          Checked String Bool) = .ok (nNonce == env.params.hiveNonceMarker)) ∧
      env.params.hiveNonceMarker.toNat < nInnerLoopCount ∧
      env.params.hiveNonceMarker.toNat < 1000 ∧
      generateRound env pblocktemplate.block genesis ⟨Uint256.zero, 0⟩ 1000 =
        .ok (.found { pblock with header :=
            { pblock.header with nNonce := env.params.hiveNonceMarker } }
          (1000 - env.params.hiveNonceMarker.toNat), ⟨Uint256.zero, 1⟩) ∧
      ({ pblock.header with nNonce := env.params.hiveNonceMarker } : CBlockHeader).IsHiveMined
        env.params.hiveNonceMarker = true ∧
      CheckBlock env node 0 { pblock with header :=
          { pblock.header with nNonce := env.params.hiveNonceMarker } } true true =
        .error (.reject ⟨100, .invalid, "bad-hive-proof"⟩) := by
  intro lim params env menv genesis node mempool pblock
  obtain ⟨pblocktemplate, htmpl⟩ : ∃ t, CreateNewBlock env menv ⟨4000000, ⟨1000⟩⟩ (some genesis)
      mempool [] [OP_TRUE] true none .POW_TYPE_SHA256 = .ok t := ⟨_, rfl⟩
  -- the template's block, read off through a projection `decide` evaluates
  have hblock : pblocktemplate.block =
      ⟨pblock.header, [⟨[⟨COutPoint.null, [0x51, 0x00]⟩], [⟨50 * COIN, [OP_TRUE]⟩]⟩], false⟩ := by
    have h := (by decide : (CreateNewBlock env menv ⟨4000000, ⟨1000⟩⟩ (some genesis) mempool []
      [OP_TRUE] true none .POW_TYPE_SHA256).toOption.map CBlockTemplate.block =
        some ⟨pblock.header, [⟨[⟨COutPoint.null, [0x51, 0x00]⟩], [⟨50 * COIN, [OP_TRUE]⟩]⟩], false⟩)
    rw [htmpl] at h
    exact Option.some.inj h
  have hinc : IncrementExtraNonce env pblocktemplate.block genesis ⟨Uint256.zero, 0⟩ =
      .ok (pblock, ⟨Uint256.zero, 1⟩) := by
    rw [hblock]
    decide
  have hpow : ∀ nNonce : UInt32, (CheckProofOfWork env.params
      (env.powHash { pblock.header with nNonce := nNonce }) pblock.header.nBits :
        Checked String Bool) = .ok (nNonce == env.params.hiveNonceMarker) := by
    intro nNonce
    by_cases hn : nNonce = 192
    · subst hn
      decide
    · have hmarker : env.params.hiveNonceMarker = 192 := rfl
      have hne : (nNonce == env.params.hiveNonceMarker) = false := by
        rw [hmarker]
        simpa using hn
      rw [hne]
      simp only [env, hn, if_false]
      decide
  have hmarker : env.params.hiveNonceMarker.toNat < nInnerLoopCount := by decide
  have htries : env.params.hiveNonceMarker.toNat < 1000 := by decide
  obtain ⟨hround, hhive⟩ := generateRound_passes_hive_marker env menv ⟨4000000, ⟨1000⟩⟩
    (some genesis) mempool [] [OP_TRUE] true .POW_TYPE_SHA256 htmpl genesis ⟨Uint256.zero, 0⟩ 1000
    hinc hpow hmarker htries
  exact ⟨pblocktemplate, htmpl, hinc, hpow, hmarker, htries, hround, hhive, by decide⟩

end Cascoin
