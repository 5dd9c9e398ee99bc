import Cascoin.Models.Chain.Node

/-!
# The Rialto white pages

A nick creation transaction (NCT) pays the nick creation address in `vout[0]`
and carries `OP_RETURN <33-byte key> OP_NICK_CREATE <nick>` in `vout[1]`
(`CTransaction.IsNCT`). `ConnectTip` registers the nick of each NCT of the block
in the global white pages, when Rialto is enabled and the nick is free;
`DisconnectTip` removes the nick of every NCT of the block, with no activation
check and whether or not this block registered it.

Over a chain of connected blocks the white pages are meant to be the first-come
registry of the NCTs of the chain (`firstComeWhitePages`). Connecting a block
keeps that invariant; disconnecting the tip keeps it exactly when no NCT of the
tip names a nick the blocks below registered (`RialtoNode.disconnect_consistent`,
`RialtoNode.disconnect_inconsistent`), so it holds on every run that never
connects such a duplicate (`RialtoNode.Reachable.consistent`). A duplicate that
`ConnectTip` ignored is erased by `DisconnectTip`
(`DisconnectTipNicks_forgets_prior_nick`).

The white pages of the wallet's own nicks (`pmynicks`) are not modelled.
-/

namespace Cascoin

/-- A white pages database: the hex string of the public key of each nick. -/
abbrev WhitePages := List UInt8 → Option (List UInt8)

/-! ## The nick creation transaction -/

/-- `CTransaction::IsNCT(consensusParams, scriptPubKeyNCF, &pubKey, &nickname)`: the
key's hex string and the nick, when the transaction is a valid NCT. -/
def CTransaction.IsNCT (env : ChainEnv) (scriptPubKeyNCF : CScript) (tx : CTransaction) :
    Option (List UInt8 × List UInt8) := do
  let out0 :: out1 :: _ := tx.vout | none
  if out0.scriptPubKey != scriptPubKeyNCF then none
  if out1.nValue < env.params.nickCreationAntiDust then none
  -- `OP_RETURN <byte count> <pubKey[33]> OP_NICK_CREATE <byte count> <nick[3]>` at least
  if out1.scriptPubKey.length < 40 then none
  if out1.scriptPubKey[0]? != some OP_RETURN || out1.scriptPubKey[35]? != some OP_NICK_CREATE then
    none
  let s := (out1.scriptPubKey.take 35).drop 2
  let p := Bytes.HexStr s
  -- `CPubKey k(ParseHex(p))`: parsing the hex string gives the bytes back
  if !env.pubKeyIsFullyValid s then none
  let n := out1.scriptPubKey.drop 37
  if n.length < 3 || n.length > 20 then none
  if n.any fun c => (c < 0x61 || c > 0x7a) && c != 0x5f then none
  let registrationCost :=
    if n.length = 3 then env.params.nickCreationCost3Char
    else if n.length = 4 then env.params.nickCreationCost4Char
    else env.params.nickCreationCostStandard
  if out0.nValue < registrationCost - env.params.nickCreationAntiDust then none
  return (p, n)

/-- The registrations a block's NCTs make, nick first, in transaction order. -/
def nctRegistrations (env : ChainEnv) (block : CBlock) : List (List UInt8 × List UInt8) :=
  block.vtx.filterMap fun tx =>
    (tx.IsNCT env (env.scriptForAddress env.params.nickCreationAddress)).map fun r => (r.2, r.1)

/-- The nicks a block's NCTs name. -/
def nctNicks (env : ChainEnv) (block : CBlock) : List (List UInt8) :=
  (nctRegistrations env block).map Prod.fst

/-! ## Connecting and disconnecting a block -/

/-- The Rialto step of `CChainState::ConnectTip` for the block `pindexNew` indexes: each
NCT registers its nick with its key unless the nick exists; nothing is registered
unless Rialto is enabled at `pindexNew`. -/
def ConnectTipNicks (env : ChainEnv) (pindexNew : CBlockIndex) (block : CBlock)
    (whitepages : WhitePages) : WhitePages :=
  if IsRialtoEnabled env (some pindexNew) then
    let scriptPubKeyNCF := env.scriptForAddress env.params.nickCreationAddress
    block.vtx.foldl (fun whitepages tx =>
      match tx.IsNCT env scriptPubKeyNCF with
      | some (pubKeyStr, nickname) =>
        -- a duplicate registration is ignored
        if (whitepages nickname).isSome then whitepages
        else FunMap.insert whitepages nickname pubKeyStr
      | none => whitepages) whitepages
  else whitepages

/-- The Rialto step of `CChainState::DisconnectTip`: the nick of each NCT of the block
is removed, the transactions undone in reverse order. -/
def DisconnectTipNicks (env : ChainEnv) (block : CBlock) (whitepages : WhitePages) :
    WhitePages :=
  let scriptPubKeyNCF := env.scriptForAddress env.params.nickCreationAddress
  block.vtx.reverse.foldl (fun whitepages tx =>
    match tx.IsNCT env scriptPubKeyNCF with
    | some (_, nick) =>
      if (whitepages nick).isSome then FunMap.erase whitepages nick else whitepages
    | none => whitepages) whitepages

/-- Connecting registers the block's NCTs first come, first served. -/
theorem ConnectTipNicks_eq (env : ChainEnv) (pindexNew : CBlockIndex) (block : CBlock)
    (whitepages : WhitePages) :
    ConnectTipNicks env pindexNew block whitepages =
      if IsRialtoEnabled env (some pindexNew) then
        FunMap.firstCome whitepages (nctRegistrations env block)
      else whitepages := by
  unfold ConnectTipNicks nctRegistrations
  split
  · -- the loop over the transactions is the registry over their NCTs
    induction block.vtx generalizing whitepages with
    | nil => rfl
    | cons tx txs ih =>
      rw [List.foldl_cons, ih, List.filterMap_cons]
      cases h : tx.IsNCT env (env.scriptForAddress env.params.nickCreationAddress) with
      | none => rfl
      | some r => rfl
  · rfl

/-- Disconnecting erases the nicks of the block's NCTs. -/
theorem DisconnectTipNicks_eq (env : ChainEnv) (block : CBlock) (whitepages : WhitePages) :
    DisconnectTipNicks env block whitepages =
      FunMap.eraseAll whitepages (nctNicks env block).reverse := by
  unfold DisconnectTipNicks nctNicks nctRegistrations
  rw [← List.map_reverse, ← List.filterMap_reverse]
  induction block.vtx.reverse generalizing whitepages with
  | nil => rfl
  | cons tx txs ih =>
    rw [List.foldl_cons, ih, List.filterMap_cons]
    cases h : tx.IsNCT env (env.scriptForAddress env.params.nickCreationAddress) with
    | none => rfl
    | some r =>
      -- removing a nick only if it exists is erasing it
      have herase : (if (whitepages r.2).isSome then FunMap.erase whitepages r.2 else whitepages) =
          FunMap.erase whitepages r.2 := by
        split
        · rfl
        · exact (FunMap.erase_of_none (Option.not_isSome_iff_eq_none.1 (by assumption))).symm
      simp only [Option.map_some]
      rw [herase]
      rfl

/-- Connecting a block and disconnecting it again erases every nick its NCTs name:
the white pages come back only where none of them was registered before. -/
theorem DisconnectTipNicks_ConnectTipNicks (env : ChainEnv) (pindexNew : CBlockIndex)
    (block : CBlock) (whitepages : WhitePages) :
    DisconnectTipNicks env block (ConnectTipNicks env pindexNew block whitepages) =
      FunMap.eraseAll whitepages (nctNicks env block).reverse := by
  rw [DisconnectTipNicks_eq, ConnectTipNicks_eq]
  split
  · exact FunMap.eraseAll_firstCome whitepages _ fun k hk => List.mem_reverse.2 hk
  · rfl

/-- A nick registered before a block that carries an NCT for it survives the
connection, the NCT being ignored as a duplicate, and is gone once the block is
disconnected. -/
theorem DisconnectTipNicks_forgets_prior_nick (env : ChainEnv) (pindexNew : CBlockIndex)
    {block : CBlock} {whitepages : WhitePages} {nick pubKey : List UInt8}
    (hmem : nick ∈ nctNicks env block) (hprior : whitepages nick = some pubKey) :
    ConnectTipNicks env pindexNew block whitepages nick = some pubKey ∧
      DisconnectTipNicks env block (ConnectTipNicks env pindexNew block whitepages) nick =
        none := by
  refine ⟨?_, ?_⟩
  · rw [ConnectTipNicks_eq]
    split
    · rw [FunMap.firstCome_of_isSome _ (by simp [hprior]), hprior]
    · exact hprior
  · rw [DisconnectTipNicks_ConnectTipNicks, FunMap.eraseAll_apply,
      if_pos (List.mem_reverse.2 hmem)]

/-- On the main network, with every deployment active: "alice", registered before,
is named again by an NCT of the block; connecting keeps the first key, and
disconnecting the block removes "alice". -/
theorem DisconnectTipNicks_forgets_prior_nick_alice :
    let env := constEnv mainParams
    let alice : List UInt8 := [0x61, 0x6c, 0x69, 0x63, 0x65]
    let nct : CTransaction :=
      ⟨[], [⟨1000000000, []⟩,
        ⟨10000, [OP_RETURN, 33] ++ List.replicate 33 2 ++ [OP_NICK_CREATE, 5] ++ alice⟩]⟩
    let block : CBlock := ⟨⟨1, Uint256.zero, Uint256.zero, 0, 0, 0⟩, [nct], false⟩
    let whitepages : WhitePages :=
      FunMap.insert (fun _ => none) alice (Bytes.HexStr (List.replicate 33 3))
    (alice ∈ nctNicks env block ∧ whitepages alice = some (Bytes.HexStr (List.replicate 33 3))) ∧
      ConnectTipNicks env (CBlockIndex.genesis Uint256.zero ⟨1, Uint256.zero, Uint256.zero, 0, 0, 0⟩ true 1) block whitepages alice =
        some (Bytes.HexStr (List.replicate 33 3)) ∧
      DisconnectTipNicks env block (ConnectTipNicks env (CBlockIndex.genesis Uint256.zero ⟨1, Uint256.zero, Uint256.zero, 0, 0, 0⟩ true 1) block whitepages) alice =
        none :=
  ⟨⟨by decide, rfl⟩, DisconnectTipNicks_forgets_prior_nick _ _ (by decide) rfl⟩

/-! ## The white pages of a chain -/

section Chain

variable (env : ChainEnv)

/-- The registrations of a chain, oldest block first. The chain is listed tip first,
each block with whether Rialto was enabled when it was connected. -/
def chainRegistrations : List (CBlock × Bool) → List (List UInt8 × List UInt8)
  | [] => []
  | (block, rialto) :: rest =>
    chainRegistrations rest ++ if rialto then nctRegistrations env block else []

/-- What the white pages are for: the first-come registry of the chain's NCTs. -/
def firstComeWhitePages (chain : List (CBlock × Bool)) : WhitePages :=
  FunMap.firstCome (fun _ => none) (chainRegistrations env chain)

/-- A node's connected blocks and its global white pages. -/
structure RialtoNode where
  /-- The connected blocks, tip first, each with `IsRialtoEnabled` at it. -/
  chain : List (CBlock × Bool)
  whitepages : WhitePages

/-- `ConnectTip` of the block `pindexNew` indexes. -/
def RialtoNode.connect (n : RialtoNode) (pindexNew : CBlockIndex) (block : CBlock) :
    RialtoNode :=
  ⟨(block, IsRialtoEnabled env (some pindexNew)) :: n.chain,
    ConnectTipNicks env pindexNew block n.whitepages⟩

/-- `DisconnectTip` of the tip; a node with no block has none to disconnect. -/
def RialtoNode.disconnect (n : RialtoNode) : RialtoNode :=
  match n.chain with
  | [] => n
  | (block, _) :: rest => ⟨rest, DisconnectTipNicks env block n.whitepages⟩

/-- The white pages are the first-come registry of the connected chain. -/
def RialtoNode.Consistent (n : RialtoNode) : Prop :=
  n.whitepages = firstComeWhitePages env n.chain

/-- No block of the chain has an NCT naming a nick the blocks below it registered. -/
def NoShadowedNicks : List (CBlock × Bool) → Prop
  | [] => True
  | (block, _) :: rest =>
    (∀ nick ∈ nctNicks env block, firstComeWhitePages env rest nick = none) ∧
      NoShadowedNicks rest

variable {env}

/-- Connecting a block keeps the white pages consistent. -/
theorem RialtoNode.connect_consistent {n : RialtoNode} (h : n.Consistent env)
    (pindexNew : CBlockIndex) (block : CBlock) : (n.connect env pindexNew block).Consistent env := by
  unfold RialtoNode.Consistent at h ⊢
  simp only [RialtoNode.connect, firstComeWhitePages, chainRegistrations, FunMap.firstCome_append,
    ConnectTipNicks_eq, h]
  split <;> rfl

/-- Disconnecting a tip none of whose NCTs names a nick registered below it keeps the
white pages consistent. -/
theorem RialtoNode.disconnect_consistent {n : RialtoNode} (h : n.Consistent env)
    {block : CBlock} {rialto : Bool} {rest : List (CBlock × Bool)}
    (hchain : n.chain = (block, rialto) :: rest)
    (hfresh : ∀ nick ∈ nctNicks env block, firstComeWhitePages env rest nick = none) :
    (n.disconnect env).Consistent env := by
  unfold RialtoNode.Consistent at h ⊢
  simp only [RialtoNode.disconnect, hchain, DisconnectTipNicks_eq, h]
  funext nick
  rw [FunMap.eraseAll_apply]
  split
  · rename_i hmem
    exact (hfresh nick (List.mem_reverse.1 hmem)).symm
  · rename_i hmem
    -- the tip's registrations name only its own nicks
    simp only [firstComeWhitePages, chainRegistrations, FunMap.firstCome_append]
    split
    · exact FunMap.firstCome_of_not_mem _ fun h' => hmem (List.mem_reverse.2 h')
    · rfl

/-- Disconnecting a tip with an NCT for a nick registered below it leaves the white
pages without the nick, while the chain that remains registers it. -/
theorem RialtoNode.disconnect_inconsistent {n : RialtoNode}
    {block : CBlock} {rialto : Bool} {rest : List (CBlock × Bool)} {nick : List UInt8}
    (hchain : n.chain = (block, rialto) :: rest) (hmem : nick ∈ nctNicks env block)
    (hprior : (firstComeWhitePages env rest nick).isSome) :
    ¬ (n.disconnect env).Consistent env := by
  unfold RialtoNode.Consistent
  simp only [RialtoNode.disconnect, hchain, DisconnectTipNicks_eq]
  intro he
  have hnick := congrFun he nick
  rw [FunMap.eraseAll_apply, if_pos (List.mem_reverse.2 hmem)] at hnick
  rw [← hnick] at hprior
  exact Bool.false_ne_true hprior

variable (env)

/-- The states a node reaches from no block by connecting blocks none of whose NCTs
names a registered nick, and by disconnecting tips. -/
inductive RialtoNode.Reachable : RialtoNode → Prop
  | init : RialtoNode.Reachable ⟨[], fun _ => none⟩
  | connect {n : RialtoNode} (pindexNew : CBlockIndex) (block : CBlock) :
      RialtoNode.Reachable n → (∀ nick ∈ nctNicks env block, n.whitepages nick = none) →
      RialtoNode.Reachable (n.connect env pindexNew block)
  | disconnect {n : RialtoNode} : RialtoNode.Reachable n → RialtoNode.Reachable (n.disconnect env)

variable {env}

/-- On every such run the white pages are the first-come registry of the chain, and
no block shadows a registration below it. -/
theorem RialtoNode.Reachable.consistent {n : RialtoNode} (h : n.Reachable env) :
    n.Consistent env ∧ NoShadowedNicks env n.chain := by
  induction h with
  | init => exact ⟨rfl, trivial⟩
  | connect pindexNew block _ hfresh ih =>
    obtain ⟨hcons, hshadow⟩ := ih
    refine ⟨RialtoNode.connect_consistent hcons pindexNew block, ?_, hshadow⟩
    intro nick hnick
    rw [← hcons]
    exact hfresh nick hnick
  | @disconnect n _ ih =>
    obtain ⟨hcons, hshadow⟩ := ih
    -- the tip's freshness is the head of the shadowing invariant
    cases hchain : n.chain with
    | nil =>
      simp only [RialtoNode.disconnect, hchain]
      exact ⟨hcons, hchain ▸ hshadow⟩
    | cons top rest =>
      obtain ⟨block, rialto⟩ := top
      rw [hchain] at hshadow
      refine ⟨RialtoNode.disconnect_consistent hcons hchain hshadow.1, ?_⟩
      simp only [RialtoNode.disconnect, hchain]
      exact hshadow.2

end Chain

end Cascoin
