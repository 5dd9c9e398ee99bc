import Cascoin.Core.Map
import Cascoin.Models.Consensus.Params
import Cascoin.Models.Chain.Block

/-!
# The node's state and the code it calls

`NodeState` is the part of the node's globals that validation reads:
`mapBlockIndex`, `chainActive`, the UTXO view `pcoinsTip`, the block files and
`fHavePruned`. `ChainEnv` gathers what the modelled code calls but the model
does not translate: the hash functions, script solving, key recovery, the hive
difficulty retarget and the versionbits state of the deployments. A result
stated for every `ChainEnv` holds whatever those functions compute; where a later
module models one of them, a constructor such as `ChainEnv.withStandard` or
`ChainEnv.withVersionBits` puts the model in its place.

`mapBlockIndex` maps a hash to the stored `CBlockIndex*`, which may be null;
`operator[]` (`FunMap.subscript` with default `nullptr`) inserts a null entry
on a miss.
-/

namespace Cascoin

/-- `Coin`: an unspent output and the height of the block that created it, a
31-bit field. -/
structure Coin where
  out : CTxOut
  nHeight : UInt32
  fCoinBase : Bool
  nHeight_lt : nHeight.toNat < 2 ^ 31

/-- `CTxDestination`, the variant `ExtractDestination` fills in. -/
inductive CTxDestination where
  | CNoDestination
  | CKeyID (id : List UInt8)
  | CScriptID (id : List UInt8)
  | WitnessV0ScriptHash (h : List UInt8)
  | WitnessV0KeyHash (h : List UInt8)
  | WitnessUnknown (version : Nat) (program : List UInt8)
  deriving DecidableEq, Repr

/-- `txnouttype`, the script kinds `Solver` recognises. -/
inductive txnouttype where
  | TX_NONSTANDARD
  | TX_PUBKEY
  | TX_PUBKEYHASH
  | TX_SCRIPTHASH
  | TX_MULTISIG
  | TX_NULL_DATA
  | TX_WITNESS_V0_SCRIPTHASH
  | TX_WITNESS_V0_KEYHASH
  | TX_WITNESS_UNKNOWN
  deriving DecidableEq, Repr

/-- `IsValidDestination`. -/
def IsValidDestination : CTxDestination → Bool
  | .CNoDestination => false
  | _ => true

/-- `boost::get<CKeyID>(&dest)`: the key ID, or `nullptr` for another kind. -/
def CTxDestination.keyID? : CTxDestination → Option (List UInt8)
  | .CKeyID id => some id
  | _ => none

/-- `mapBlockIndex`: a hash, when present, maps to a possibly null `CBlockIndex*`. -/
abbrev BlockMap := Uint256 → Option (Option CBlockIndex)

/-- The globals validation reads. -/
structure NodeState where
  mapBlockIndex : BlockMap
  chainActive : CChain
  /-- `pcoinsTip`: null, or the view whose `GetCoin` finds an unspent coin. -/
  pcoinsTip : Option (COutPoint → Option Coin)
  /-- The block an index's disk position holds, when the file opens and
  deserialises. -/
  blockAt : BlockIndexEntry → Option CBlock
  fHavePruned : Bool

/-- `pcoinsTip && pcoinsTip->GetCoin(outpoint, coin)`. -/
def NodeState.GetCoin (s : NodeState) (outpoint : COutPoint) : Option Coin :=
  s.pcoinsTip.bind fun view => view outpoint

/-- The versionbits deployments of the Cascoin forks, `Consensus::DeploymentPos`. -/
inductive Deployment where
  | DEPLOYMENT_HIVE
  | DEPLOYMENT_HIVE_1_1
  | DEPLOYMENT_MINOTAURX
  | DEPLOYMENT_RIALTO
  deriving DecidableEq, Repr

/-- What the modelled code calls but the model does not translate. -/
structure ChainEnv where
  params : ConsensusParams
  /-- `DecodeDestination`: `CNoDestination` for a string that does not decode. -/
  decodeDestination : String → CTxDestination
  /-- `GetScriptForDestination`. -/
  scriptForDestination : CTxDestination → CScript
  /-- `CHashWriter(SER_GETHASH, 0)`'s `GetHash()` over the bytes written to it. -/
  hashWriter : List UInt8 → Uint256
  /-- `Minotaur(begin, end, false)` over a byte range. -/
  minotaur : List UInt8 → Uint256
  /-- `CBlockHeader::GetHash`. -/
  blockHash : CBlockHeader → Uint256
  /-- `CBlockHeader::GetPoWHash`. -/
  powHash : CBlockHeader → Uint256
  /-- `CTransaction::GetHash`. -/
  txHash : CTransaction → Uint256
  /-- `CPartialMerkleTree(vTxid, vMatch).ExtractMatches`: the root it computes and
  the matched txids. -/
  extractMatches : List Uint256 → List Bool → Uint256 × List Uint256
  /-- `BlockMerkleRoot(block, &mutated)` of the block's transactions. -/
  blockMerkleRoot : List CTransaction → Uint256 × Bool
  /-- `ExtractDestination`. -/
  extractDestination : CScript → Option CTxDestination
  /-- `CPubKey::RecoverCompact(hash, sig)`: the recovered key's bytes. -/
  recoverCompact : Uint256 → List UInt8 → Option (List UInt8)
  /-- `CPubKey::GetID`: the key's Hash160. -/
  pubKeyID : List UInt8 → List UInt8
  /-- `CPubKey::IsFullyValid` of the key with the given bytes. -/
  pubKeyIsFullyValid : List UInt8 → Bool
  /-- `GetNextHiveWorkRequired(pindexPrev, params)`. -/
  nextHiveWorkRequired : CBlockIndex → UInt32
  /-- `GetLegacySigOpCount`. -/
  legacySigOpCount : CTransaction → Nat
  /-- `IsValidDestinationString`, as the NFT validators of `CheckTransaction` use it. -/
  validAddress : List UInt8 → Bool
  /-- `VersionBitsState(pindexPrev, params, pos, versionbitscache) == THRESHOLD_ACTIVE`. -/
  deploymentActive : Deployment → Option CBlockIndex → Bool

/-- `GetScriptForDestination(DecodeDestination(address))`, the script of an address
of the consensus parameters. -/
def ChainEnv.scriptForAddress (env : ChainEnv) (address : String) : CScript :=
  env.scriptForDestination (env.decodeDestination address)

/-- The node before any block is known: empty maps, no chain, no UTXO view. -/
def NodeState.empty : NodeState where
  mapBlockIndex := fun _ => none
  chainActive := none
  pcoinsTip := none
  blockAt := fun _ => none
  fHavePruned := false

/-- An environment whose given functions are constant, every deployment active. -/
def constEnv (params : ConsensusParams) : ChainEnv where
  params := params
  decodeDestination := fun _ => .CNoDestination
  scriptForDestination := fun _ => []
  hashWriter := fun _ => Uint256.zero
  minotaur := fun _ => Uint256.zero
  blockHash := fun _ => Uint256.zero
  powHash := fun _ => Uint256.zero
  txHash := fun _ => Uint256.zero
  extractMatches := fun _ _ => (Uint256.zero, [])
  blockMerkleRoot := fun _ => (Uint256.zero, false)
  extractDestination := fun _ => none
  recoverCompact := fun _ _ => none
  pubKeyID := fun _ => []
  pubKeyIsFullyValid := fun _ => true
  nextHiveWorkRequired := fun _ => 0
  legacySigOpCount := fun _ => 0
  validAddress := fun _ => true
  deploymentActive := fun _ _ => true

section Deployments

variable (env : ChainEnv) (pindexPrev : Option CBlockIndex)

/-- `IsHiveEnabled`. -/
def IsHiveEnabled : Bool := env.deploymentActive .DEPLOYMENT_HIVE pindexPrev

/-- `IsHive11Enabled`. -/
def IsHive11Enabled : Bool := env.deploymentActive .DEPLOYMENT_HIVE_1_1 pindexPrev

/-- `IsMinotaurXEnabled`. -/
def IsMinotaurXEnabled : Bool := env.deploymentActive .DEPLOYMENT_MINOTAURX pindexPrev

/-- `IsRialtoEnabled`. -/
def IsRialtoEnabled : Bool := env.deploymentActive .DEPLOYMENT_RIALTO pindexPrev

end Deployments

end Cascoin
