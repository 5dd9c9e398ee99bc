import Cascoin.Core.Checked
import Cascoin.Core.Bytes
import Cascoin.Core.Map
import Cascoin.Core.Median
import Cascoin.Core.Binary32
import Cascoin.Core.ModPrime
import Cascoin.Core.MerkleTree
import Cascoin.Core.Decimal
import Cascoin.Core.Limbs
import Cascoin.Core.Radix
import Cascoin.Core.ShiftRegister
import Cascoin.Models.Primitives.Script
import Cascoin.Models.Primitives.Transaction
import Cascoin.Models.Primitives.Serialize
import Cascoin.Models.BeeNFT.Validate
import Cascoin.Models.Consensus.TxVerify
import Cascoin.Models.Chain.Block
import Cascoin.Models.Chain.Skip
import Cascoin.Models.Consensus.Params
import Cascoin.Models.Arith.Compact
import Cascoin.Models.Consensus.Pow
import Cascoin.Models.Chain.Node
import Cascoin.Models.Consensus.Subsidy
import Cascoin.Models.Hive.Proof
import Cascoin.Models.Hive.Miner
import Cascoin.Models.Hive.DeepDrill
import Cascoin.Models.Consensus.CheckBlock
import Cascoin.Models.Consensus.Merkle
import Cascoin.Models.Chain.MerkleBlock
import Cascoin.Models.Wallet.Bees
import Cascoin.Models.Hive.Binning
import Cascoin.Models.Rialto.WhitePages
import Cascoin.Models.Rialto.Envelope
import Cascoin.Models.Rialto.Nick
import Cascoin.Models.Rialto.Relay
import Cascoin.Models.Crypto.Secp256k1
import Cascoin.Models.Wallet.BctDb
import Cascoin.Models.Consensus.Supply
import Cascoin.Models.Consensus.Versionbits
import Cascoin.Models.Coins.Cache
import Cascoin.Models.Coins.Undo
import Cascoin.Models.Coins.Compressor
import Cascoin.Models.Policy.FeeRate
import Cascoin.Models.Script.Standard
import Cascoin.Models.Policy.Standard
import Cascoin.Models.Script.ScriptNum
import Cascoin.Models.Mining.Assembler
import Cascoin.Models.Mining.Generate
import Cascoin.Models.Script.Interpreter
import Cascoin.Models.Script.Sign
import Cascoin.Models.Script.SigEncoding
import Cascoin.Models.Consensus.HiveRetarget
import Cascoin.Models.BeeNFT.Codec
import Cascoin.Models.BeeNFT.Generic
import Cascoin.Models.BeeNFT.MemoryManager
import Cascoin.Models.Util.Money
import Cascoin.Models.Util.Base58
import Cascoin.Models.Arith.BaseUint
import Cascoin.Models.Arith.ArithUint256
import Cascoin.Models.Util.Bech32
import Cascoin.Models.Util.Destination
import Cascoin.Core.Closure
import Cascoin.Models.Mempool.Add
import Cascoin.Models.Mempool.Remove
import Cascoin.Models.Mempool.Asserts
import Cascoin.Models.Mempool.Run
