import Cascoin.Models.Chain.Node
import Cascoin.Models.Consensus.Subsidy
import Cascoin.Models.Script.Standard

/-!
# The BCT database

`BCTDatabaseSQLite` keeps the wallet's bee creation transactions in the table
`bcts` and the hive rewards they earned in the table `rewards`. As blocks
connect, `processBlock` inserts the BCTs a block creates, records the rewards
its hive coinbase pays, and moves the statuses forward with two SQL updates;
`handleReorg(forkHeight)` deletes what lies above the fork height and
recomputes `rewardsPaid` and `profit`, but not `blocksFound` or `status`.

The tables are lists of rows; `txid` is the primary key of `bcts` and
`coinbase_txid` that of `rewards`, whose `bct_txid` references `bcts` with
`ON DELETE CASCADE` (`PRAGMA foreign_keys=ON`). Columns the modelled code
neither reads nor compares (`honey_address`, `timestamp`, `checksum`,
`updated_at`) are left out.

Over whole runs of `processBlock` with rising heights, every record's status is
the one its creation height gives at the last processed height
(`processBlocks_status`). `handleReorg` keeps that status, the one at the old
tip, where replaying the blocks up to the fork height gives the status at the
fork height (`handleReorg_status_differs_from_replay`).
-/

namespace Cascoin

/-- The `status` column of `bcts`. -/
inductive BCTStatus where
  | immature
  | mature
  | expired
  deriving DecidableEq, Repr

/-- A row of `bcts` (`BCTRecord`), with the columns the modelled code reads or writes. -/
structure BCTRecord where
  txid : List UInt8
  status : BCTStatus
  beeCount : Int
  creationHeight : Int
  maturityHeight : Int
  expirationHeight : Int
  cost : Int
  blocksFound : Int
  rewardsPaid : Int
  profit : Int
  deriving DecidableEq, Repr

/-- `BCTRecord::updateStatus(currentHeight)`: a record without heights keeps its status. -/
def BCTRecord.updateStatus (r : BCTRecord) (currentHeight : Int) : BCTRecord :=
  if r.creationHeight = 0 ∨ r.maturityHeight = 0 ∨ r.expirationHeight = 0 then r
  else if currentHeight ≥ r.expirationHeight then { r with status := .expired }
  else if currentHeight ≥ r.maturityHeight then { r with status := .mature }
  else { r with status := .immature }

/-- A row of `rewards`. -/
structure RewardRow where
  coinbaseTxid : List UInt8
  bctTxid : List UInt8
  amount : Int
  height : Int
  deriving DecidableEq, Repr

/-- The tables `bcts` and `rewards`, and `last_processed_height` of `sync_state`. -/
structure BCTDatabase where
  bcts : List BCTRecord
  rewards : List RewardRow
  lastProcessedHeight : Option Int
  deriving DecidableEq, Repr

namespace BCTDatabase

/-- A database with empty tables. -/
def empty : BCTDatabase := ⟨[], [], none⟩

/-- `bctExists(txid)`. -/
def bctExists (db : BCTDatabase) (txid : List UInt8) : Bool := db.bcts.any (·.txid == txid)

/-- `getBCT(txid)`, `none` where the C++ returns a default record. -/
def getBCT (db : BCTDatabase) (txid : List UInt8) : Option BCTRecord :=
  db.bcts.find? (·.txid == txid)

/-- `insertBCT(record)`: an `INSERT` that fails on a `txid` already present. -/
def insertBCT (db : BCTDatabase) (record : BCTRecord) : BCTDatabase :=
  if db.bctExists record.txid then db else { db with bcts := db.bcts ++ [record] }

/-- `updateBCT(txid, record)`: every column of the row with this `txid` but the key. -/
def updateBCT (db : BCTDatabase) (txid : List UInt8) (record : BCTRecord) : BCTDatabase :=
  { db with
    bcts := db.bcts.map fun b => if b.txid == txid then { record with txid := b.txid } else b }

/-- `insertReward(coinbaseTxid, bctTxid, amount, height)`: `INSERT OR REPLACE` keyed by
the coinbase txid; the foreign key refuses a BCT that is not in `bcts`. -/
def insertReward (db : BCTDatabase) (coinbaseTxid bctTxid : List UInt8) (amount height : Int) :
    BCTDatabase :=
  if db.bctExists bctTxid then
    { db with rewards := db.rewards.filter (·.coinbaseTxid != coinbaseTxid) ++
        [⟨coinbaseTxid, bctTxid, amount, height⟩] }
  else db

/-- `getTotalRewardsForBCT(bctTxid)`: `SUM(amount)`, read as 0 when there is no row. -/
def getTotalRewardsForBCT (db : BCTDatabase) (bctTxid : List UInt8) : Int :=
  ((db.rewards.filter (·.bctTxid == bctTxid)).map (·.amount)).sum

/-- `setLastProcessedHeight(height)`. -/
def setLastProcessedHeight (db : BCTDatabase) (height : Int) : BCTDatabase :=
  { db with lastProcessedHeight := some height }

/-- `deleteBCTsAfterHeight(height)`; the rewards of a deleted BCT go with it. -/
def deleteBCTsAfterHeight (db : BCTDatabase) (height : Int) : BCTDatabase :=
  let deleted := db.bcts.filter (height < ·.creationHeight)
  { db with
    bcts := db.bcts.filter (·.creationHeight ≤ height)
    rewards := db.rewards.filter fun w => !deleted.any (·.txid == w.bctTxid) }

/-- `deleteRewardsAfterHeight(height)`. -/
def deleteRewardsAfterHeight (db : BCTDatabase) (height : Int) : BCTDatabase :=
  { db with rewards := db.rewards.filter (·.height ≤ height) }

end BCTDatabase

section Statuses

variable (params : ConsensusParams) (currentHeight : Int)

/-- The first `UPDATE` of `updateAllStatuses` on one row: immature to mature between
maturity and expiry. -/
def markMature (b : BCTRecord) : BCTRecord :=
  if b.status = .immature ∧ 0 < b.creationHeight ∧
      b.creationHeight + params.beeGestationBlocks ≤ currentHeight ∧
      currentHeight < b.creationHeight + params.beeGestationBlocks + params.beeLifespanBlocks then
    { b with status := .mature }
  else b

/-- The second `UPDATE` of `updateAllStatuses` on one row: anything past expiry expires. -/
def markExpired (b : BCTRecord) : BCTRecord :=
  if b.status ≠ .expired ∧ 0 < b.creationHeight ∧
      b.creationHeight + params.beeGestationBlocks + params.beeLifespanBlocks ≤ currentHeight then
    { b with status := .expired }
  else b

/-- `updateAllStatuses(currentHeight)`. -/
def updateAllStatuses (db : BCTDatabase) : BCTDatabase :=
  { db with
    bcts := (db.bcts.map (markMature params currentHeight)).map (markExpired params currentHeight) }

/-- The status a BCT created at `creationHeight` has at `currentHeight`. -/
def statusAt (creationHeight : Int) : BCTStatus :=
  if creationHeight + params.beeGestationBlocks + params.beeLifespanBlocks ≤ currentHeight then
    .expired
  else if creationHeight + params.beeGestationBlocks ≤ currentHeight then .mature
  else .immature

end Statuses

section Scan

variable (env : ChainEnv) (walletFilter : Option (CTransaction → Bool)) (height : Int)

/-- The record `processBlock` makes for a BCT paying `beeFeePaid` at `height`. -/
def newBCTRecord (tx : CTransaction) (beeFeePaid : Int) : BCTRecord where
  txid := (env.txHash tx).GetHex
  status := .immature
  beeCount := beeFeePaid.tdiv (GetBeeCost height env.params)
  creationHeight := height
  maturityHeight := height + env.params.beeGestationBlocks
  expirationHeight := height + env.params.beeGestationBlocks + env.params.beeLifespanBlocks
  cost := beeFeePaid
  blocksFound := 0
  rewardsPaid := 0
  profit := -beeFeePaid

/-- The fee of a BCT with its community contribution, `vout[1]` when it pays the fund. -/
def bctFeeWithContribution (tx : CTransaction) (beeFeePaid : Int) : Int :=
  match tx.vout with
  | _ :: out1 :: _ =>
    if out1.scriptPubKey = env.scriptForAddress env.params.hiveCommunityAddress then
      beeFeePaid + out1.nValue
    else beeFeePaid
  | _ => beeFeePaid

/-- The BCT part of the loop body of `processBlock`: the database after it, or `none`
where the body `continue`s, which skips the reward part too. With a wallet
(`walletFilter = some isOurs`) only transactions of the wallet that spend only its
coins count. -/
def recordBCT (db : BCTDatabase) (tx : CTransaction) : Checked String (Option BCTDatabase) := do
  match ← tx.IsBCTFee (env.scriptForAddress env.params.beeCreationAddress) with
  | none => return some db
  | some (beeFeePaid, scriptPubKeyHoney) =>
    if walletFilter.any (fun isOurs => !isOurs tx) then return none
    else if (env.extractDestination scriptPubKeyHoney).isNone then return none
    else
      let record := newBCTRecord env height tx (bctFeeWithContribution env tx beeFeePaid)
      return some (db.insertBCT record)

/-- `IsHiveCoinBase()` with the size check of `processBlock`: the BCT txid the proof
script carries at bytes 14 to 78. -/
def hiveRewardTxid (tx : CTransaction) : Checked String (Option (List UInt8)) := do
  if tx.IsCoinBase then
    let out0 ← Checked.get tx.vout 0
    let script := out0.scriptPubKey
    if out0.nValue = 0 ∧ script[0]? = some OP_RETURN ∧ script[1]? = some OP_BEE ∧
        78 ≤ script.length then
      return some ((script.drop 14).take 64)
    else return none
  else return none

/-- The reward part of the loop body: a hive coinbase that pays a BCT in `bcts` adds a
reward row and one found block to the BCT. -/
def recordReward (db : BCTDatabase) (tx : CTransaction) : Checked String BCTDatabase := do
  match ← hiveRewardTxid tx with
  | none => return db
  | some bctTxid =>
    if db.bctExists bctTxid then
      let rewardAmount := (← Checked.get tx.vout 1).nValue
      let db := db.insertReward (env.txHash tx).GetHex bctTxid rewardAmount height
      match db.getBCT bctTxid with
      | some bct =>
        let rewardsPaid := bct.rewardsPaid + rewardAmount
        return db.updateBCT bctTxid
          { bct with blocksFound := bct.blocksFound + 1, rewardsPaid := rewardsPaid,
                     profit := rewardsPaid - bct.cost }
      | none => return db
    else return db

/-- One pass of the loop of `processBlock` over the block's transactions. -/
def processTx (db : BCTDatabase) (tx : CTransaction) : Checked String BCTDatabase := do
  match ← recordBCT env walletFilter height db tx with
  | none => return db
  | some db => recordReward env height db tx

/-- `BCTDatabaseSQLite::processBlock(block, pindex, pwallet)` for a block at `height`. -/
def processBlock (db : BCTDatabase) (block : CBlock) : Checked String BCTDatabase := do
  let db ← block.vtx.foldlM (processTx env walletFilter height) db
  return (updateAllStatuses env.params height db).setLastProcessedHeight height

/-- `processBlock` on each block of a run, with its height. -/
def processBlocks (db : BCTDatabase) (run : List (CBlock × Int)) : Checked String BCTDatabase :=
  run.foldlM (fun db blockAt => processBlock env walletFilter blockAt.2 db blockAt.1) db

end Scan

/-- `handleReorg`'s recount for one record of the snapshot `getAllBCTs(true)`. -/
def BCTDatabase.recountRewards (db : BCTDatabase) (bct : BCTRecord) : BCTDatabase :=
  let totalRewards := db.getTotalRewardsForBCT bct.txid
  if bct.rewardsPaid != totalRewards then
    db.updateBCT bct.txid { bct with rewardsPaid := totalRewards, profit := totalRewards - bct.cost }
  else db

/-- `BCTDatabaseSQLite::handleReorg(forkHeight)`. -/
def BCTDatabase.handleReorg (db : BCTDatabase) (forkHeight : Int) : BCTDatabase :=
  let db := ((db.deleteBCTsAfterHeight forkHeight).deleteRewardsAfterHeight forkHeight)
    |>.setLastProcessedHeight forkHeight
  db.bcts.foldl BCTDatabase.recountRewards db

/-! ## Rows under the table operations

What the status argument follows of a row is its stamp: its key, creation height
and status. `updateBCT` keeps the stamps when it writes a row's own creation
height and status back, which it does wherever `txid` is a key. -/

/-- A row's key, creation height and status. -/
def BCTRecord.stamp (r : BCTRecord) : List UInt8 × Int × BCTStatus :=
  (r.txid, r.creationHeight, r.status)

/-- A row's key and creation height. -/
def BCTRecord.key (r : BCTRecord) : List UInt8 × Int := (r.txid, r.creationHeight)

namespace BCTDatabase

/-- `txid` is the primary key of `bcts`. -/
def KeysUnique (db : BCTDatabase) : Prop := (db.bcts.map (·.txid)).Nodup

theorem getBCT_mem {db : BCTDatabase} {txid : List UInt8} {bct : BCTRecord}
    (h : db.getBCT txid = some bct) : bct ∈ db.bcts ∧ bct.txid = txid := by
  refine ⟨List.mem_of_find?_eq_some h, ?_⟩
  simpa using List.find?_some h

/-- With unique keys a row is the only one with its `txid`. -/
theorem eq_of_txid_eq {db : BCTDatabase} (hkeys : db.KeysUnique) {b b' : BCTRecord}
    (hb : b ∈ db.bcts) (hb' : b' ∈ db.bcts) (htxid : b.txid = b'.txid) : b = b' :=
  List.inj_on_of_nodup_map hkeys hb hb' htxid

@[simp] theorem bcts_insertReward (db : BCTDatabase) (coinbaseTxid bctTxid : List UInt8)
    (amount height : Int) : (db.insertReward coinbaseTxid bctTxid amount height).bcts = db.bcts := by
  unfold insertReward
  split <;> rfl

@[simp] theorem bcts_setLastProcessedHeight (db : BCTDatabase) (height : Int) :
    (db.setLastProcessedHeight height).bcts = db.bcts := rfl

@[simp] theorem txids_updateBCT (db : BCTDatabase) (txid : List UInt8) (record : BCTRecord) :
    (db.updateBCT txid record).bcts.map (·.txid) = db.bcts.map (·.txid) := by
  simp only [updateBCT, List.map_map]
  apply List.map_congr_left
  intro b _
  by_cases ht : b.txid = txid <;> simp [ht]

/-- An update that writes a row's own creation height and status back keeps every
row's stamp. -/
theorem stamps_updateBCT {db : BCTDatabase} {txid : List UInt8} {record : BCTRecord}
    (hsame : ∀ b ∈ db.bcts, b.txid = txid →
      b.creationHeight = record.creationHeight ∧ b.status = record.status) :
    (db.updateBCT txid record).bcts.map BCTRecord.stamp = db.bcts.map BCTRecord.stamp := by
  simp only [updateBCT, List.map_map]
  apply List.map_congr_left
  intro b hb
  by_cases ht : b.txid = txid
  · obtain ⟨hc, hs⟩ := hsame b hb ht
    simp [ht, BCTRecord.stamp, hc, hs]
  · simp [ht]

/-- Writing back a row found by its key, with only its counters changed, keeps the stamps. -/
theorem stamps_updateBCT_of_mem {db : BCTDatabase} (hkeys : db.KeysUnique) {bct record : BCTRecord}
    (hbct : bct ∈ db.bcts) (hc : record.creationHeight = bct.creationHeight)
    (hs : record.status = bct.status) :
    (db.updateBCT bct.txid record).bcts.map BCTRecord.stamp = db.bcts.map BCTRecord.stamp := by
  apply stamps_updateBCT
  intro b hb ht
  rw [eq_of_txid_eq hkeys hb hbct ht, hc, hs]
  exact ⟨rfl, rfl⟩

/-- `insertBCT` adds the record at the end, or nothing when its key is taken. -/
theorem insertBCT_bcts (db : BCTDatabase) (record : BCTRecord) :
    (db.insertBCT record).bcts = db.bcts ∨ (db.insertBCT record).bcts = db.bcts ++ [record] := by
  unfold insertBCT
  split
  · exact .inl rfl
  · exact .inr rfl

theorem keysUnique_insertBCT {db : BCTDatabase} (hkeys : db.KeysUnique) (record : BCTRecord) :
    (db.insertBCT record).KeysUnique := by
  unfold insertBCT
  split
  · exact hkeys
  · rename_i hnew
    have hfresh : ∀ b ∈ db.bcts, b.txid ≠ record.txid := by
      simpa [bctExists] using hnew
    simp only [KeysUnique, List.map_append, List.map_cons, List.map_nil, List.nodup_append,
      List.nodup_singleton, List.mem_singleton, List.mem_map]
    refine ⟨hkeys, trivial, ?_⟩
    rintro _ ⟨b, hb, rfl⟩ _ rfl
    exact hfresh b hb

end BCTDatabase

/-! ## The status updates -/

section Statuses

variable {params : ConsensusParams} {currentHeight : Int}

@[simp] theorem txid_markMature (b : BCTRecord) : (markMature params currentHeight b).txid = b.txid := by
  unfold markMature
  split <;> rfl

@[simp] theorem creationHeight_markMature (b : BCTRecord) :
    (markMature params currentHeight b).creationHeight = b.creationHeight := by
  unfold markMature
  split <;> rfl

@[simp] theorem txid_markExpired (b : BCTRecord) : (markExpired params currentHeight b).txid = b.txid := by
  unfold markExpired
  split <;> rfl

@[simp] theorem creationHeight_markExpired (b : BCTRecord) :
    (markExpired params currentHeight b).creationHeight = b.creationHeight := by
  unfold markExpired
  split <;> rfl

/-- Past expiry both updates leave a row expired. -/
theorem status_update_of_expired {b : BCTRecord} (hpos : 0 < b.creationHeight)
    (he : b.creationHeight + params.beeGestationBlocks + params.beeLifespanBlocks ≤ currentHeight) :
    (markExpired params currentHeight (markMature params currentHeight b)).status = .expired := by
  have hmature : markMature params currentHeight b = b := by
    unfold markMature
    rw [if_neg (by omega)]
  rw [hmature]
  unfold markExpired
  by_cases hs : b.status = .expired
  · rw [if_neg (by simp [hs])]
    exact hs
  · rw [if_pos ⟨hs, hpos, he⟩]

/-- Between maturity and expiry an immature or mature row comes out mature. -/
theorem status_update_of_mature {b : BCTRecord} (hpos : 0 < b.creationHeight)
    (hm : b.creationHeight + params.beeGestationBlocks ≤ currentHeight)
    (he : currentHeight < b.creationHeight + params.beeGestationBlocks + params.beeLifespanBlocks)
    (hs : b.status ≠ .expired) :
    (markExpired params currentHeight (markMature params currentHeight b)).status = .mature := by
  have hexpired (b' : BCTRecord) (hc : b'.creationHeight = b.creationHeight) :
      markExpired params currentHeight b' = b' := by
    unfold markExpired
    rw [if_neg (by omega)]
  rw [hexpired _ (creationHeight_markMature b)]
  unfold markMature
  cases hb : b.status with
  | immature => rw [if_pos ⟨rfl, hpos, hm, he⟩]
  | mature =>
    rw [if_neg (by simp)]
    exact hb
  | expired => exact absurd hb hs

/-- Before maturity neither update touches a row. -/
theorem update_of_immature {b : BCTRecord}
    (hm : currentHeight < b.creationHeight + params.beeGestationBlocks)
    (hlife : 0 ≤ params.beeLifespanBlocks) :
    markExpired params currentHeight (markMature params currentHeight b) = b := by
  have hmature : markMature params currentHeight b = b := by
    unfold markMature
    rw [if_neg (by omega)]
  rw [hmature]
  unfold markExpired
  rw [if_neg (by omega)]

/-- The status of a row moves to the one its creation height gives at the new height,
from the one at an earlier height, or from `immature` for a row created at the new
height. -/
theorem status_update {b : BCTRecord} {previousHeight : Int}
    (hlife : 0 ≤ params.beeLifespanBlocks)
    (hpos : 0 < b.creationHeight)
    (hb : (previousHeight < currentHeight ∧
        b.status = statusAt params previousHeight b.creationHeight) ∨
      (b.creationHeight = currentHeight ∧ b.status = .immature)) :
    (markExpired params currentHeight (markMature params currentHeight b)).status =
      statusAt params currentHeight b.creationHeight := by
  -- the row is not expired unless its expiry has passed at the new height too
  have hnotExpired : b.status = .expired →
      b.creationHeight + params.beeGestationBlocks + params.beeLifespanBlocks ≤ currentHeight := by
    intro hs
    rcases hb with ⟨hlt, hsb⟩ | ⟨-, hsb⟩
    · unfold statusAt at hsb
      rw [hs] at hsb
      split_ifs at hsb with h1
      · omega
    · rw [hsb] at hs
      cases hs
  unfold statusAt
  by_cases he : b.creationHeight + params.beeGestationBlocks + params.beeLifespanBlocks ≤
      currentHeight
  · rw [if_pos he]
    exact status_update_of_expired hpos he
  · rw [if_neg he]
    by_cases hm : b.creationHeight + params.beeGestationBlocks ≤ currentHeight
    · rw [if_pos hm]
      exact status_update_of_mature hpos hm (by omega) fun hs => he (hnotExpired hs)
    · rw [if_neg hm, update_of_immature (by omega) hlife]
      rcases hb with ⟨hlt, hsb⟩ | ⟨-, hsb⟩
      · rw [hsb]
        unfold statusAt
        rw [if_neg (by omega), if_neg (by omega)]
      · exact hsb

end Statuses

/-! ## One block -/

section Scan

variable (env : ChainEnv) (walletFilter : Option (CTransaction → Bool)) (height : Int)

/-- The BCT part either leaves the database as it is or inserts the record of a new BCT. -/
theorem recordBCT_eq_some {db db' : BCTDatabase} {tx : CTransaction}
    (h : recordBCT env walletFilter height db tx = .ok (some db')) :
    db' = db ∨ ∃ beeFeePaid, db' = db.insertBCT (newBCTRecord env height tx beeFeePaid) := by
  unfold recordBCT at h
  obtain ⟨found, -, h⟩ := Checked.bind_eq_ok h
  cases found with
  | none =>
    simp only [Checked.pure_eq, Except.ok.injEq, Option.some.injEq] at h
    exact .inl h.symm
  | some feeAndHoney =>
    simp only at h
    split at h
    · simp at h
    · split at h
      · simp at h
      · simp only [Checked.pure_eq, Except.ok.injEq, Option.some.injEq] at h
        exact .inr ⟨_, h.symm⟩

/-- A hive coinbase's proof script starts with `OP_RETURN OP_BEE`, the bare bee creation
marker, so the BCT part takes the coinbase for a BCT. A wallet did not fund a coinbase,
so with a wallet the loop `continue`s before the reward part: no reward is recorded. -/
theorem processTx_hive_coinbase_with_wallet {db : BCTDatabase} {tx : CTransaction}
    {out0 : CTxOut} {rest : List CTxOut} {proof : List UInt8} {isOurs : CTransaction → Bool}
    (hvout : tx.vout = out0 :: rest) (hscript : out0.scriptPubKey = OP_RETURN :: OP_BEE :: proof)
    (hlen : out0.scriptPubKey.length ≠ 52) (hours : isOurs tx = false) :
    processTx env (some isOurs) height db tx = .ok db := by
  have hbct : ∃ honey, (tx.IsBCTFee (env.scriptForAddress env.params.beeCreationAddress) :
      Checked String _) = .ok (some (out0.nValue, honey)) := by
    cases proof with
    | nil => exact ⟨[], by simp [CTransaction.IsBCTFee, hvout, hscript, IsBCTScript]⟩
    | cons b bs =>
      -- not the 52 bytes of the fee-script format
      have hbs : bs.length ≠ 49 := by
        rw [hscript] at hlen
        simp only [List.length_cons] at hlen
        omega
      exact ⟨b :: bs, by simp [CTransaction.IsBCTFee, hvout, hscript, IsBCTScript, hbs]⟩
  obtain ⟨honey, hfee⟩ := hbct
  simp [processTx, recordBCT, hfee, hours]

/-- The reward part keeps the stamps of the rows: it only counts in the row it finds. -/
theorem recordReward_rows {db db' : BCTDatabase} {tx : CTransaction} (hkeys : db.KeysUnique)
    (h : recordReward env height db tx = .ok db') :
    db'.KeysUnique ∧ db'.bcts.map BCTRecord.stamp = db.bcts.map BCTRecord.stamp := by
  unfold recordReward at h
  obtain ⟨found, -, h⟩ := Checked.bind_eq_ok h
  cases found with
  | none =>
    cases h
    exact ⟨hkeys, rfl⟩
  | some bctTxid =>
    simp only at h
    split at h
    · obtain ⟨out1, -, h⟩ := Checked.bind_eq_ok h
      -- the reward row leaves `bcts` as it is
      set db1 := db.insertReward (env.txHash tx).GetHex bctTxid out1.nValue height with hdb1
      have hbcts : db1.bcts = db.bcts := BCTDatabase.bcts_insertReward _ _ _ _ _
      have hkeys1 : db1.KeysUnique := by
        unfold BCTDatabase.KeysUnique
        rw [hbcts]
        exact hkeys
      split at h
      · rename_i bct hbct
        obtain ⟨hmem, htxid⟩ := BCTDatabase.getBCT_mem hbct
        simp only [Checked.pure_eq, Except.ok.injEq] at h
        subst h
        rw [← htxid]
        refine ⟨?_, ?_⟩
        · unfold BCTDatabase.KeysUnique
          rw [BCTDatabase.txids_updateBCT]
          exact hkeys1
        · rw [← hbcts]
          exact BCTDatabase.stamps_updateBCT_of_mem hkeys1 hmem rfl rfl
      · simp only [Checked.pure_eq, Except.ok.injEq] at h
        subst h
        exact ⟨hkeys1, by rw [hbcts]⟩
    · cases h
      exact ⟨hkeys, rfl⟩

/-- One transaction keeps the stamps of the rows and adds at most a fresh record
created at the block's height. -/
theorem processTx_rows {db db' : BCTDatabase} {tx : CTransaction} (hkeys : db.KeysUnique)
    (h : processTx env walletFilter height db tx = .ok db') :
    db'.KeysUnique ∧ ∃ added : List BCTRecord,
      db'.bcts.map BCTRecord.stamp = (db.bcts ++ added).map BCTRecord.stamp ∧
      ∀ r ∈ added, r.creationHeight = height ∧ r.status = .immature := by
  unfold processTx at h
  obtain ⟨found, hfound, h⟩ := Checked.bind_eq_ok h
  cases found with
  | none =>
    cases h
    exact ⟨hkeys, [], by simp, by simp⟩
  | some db1 =>
    rcases recordBCT_eq_some env walletFilter height hfound with rfl | ⟨beeFeePaid, rfl⟩
    · obtain ⟨hkeys', hstamps⟩ := recordReward_rows env height hkeys h
      exact ⟨hkeys', [], by simpa using hstamps, by simp⟩
    · have hkeys1 := BCTDatabase.keysUnique_insertBCT hkeys (newBCTRecord env height tx beeFeePaid)
      obtain ⟨hkeys', hstamps⟩ := recordReward_rows env height hkeys1 h
      refine ⟨hkeys', ?_⟩
      rcases BCTDatabase.insertBCT_bcts db (newBCTRecord env height tx beeFeePaid) with hb | hb
      · exact ⟨[], by rw [hstamps, hb, List.append_nil], by simp⟩
      · exact ⟨[newBCTRecord env height tx beeFeePaid], by rw [hstamps, hb],
          by simp [newBCTRecord]⟩

end Scan

namespace BCTDatabase

/-- Rows with the same stamps have the same keys. -/
theorem keys_of_stamps {rows rows' : List BCTRecord}
    (h : rows.map BCTRecord.stamp = rows'.map BCTRecord.stamp) :
    rows.map BCTRecord.key = rows'.map BCTRecord.key := by
  have hkey : BCTRecord.key = (fun st => (st.1, st.2.1)) ∘ BCTRecord.stamp := rfl
  rw [hkey, ← List.map_map, h, List.map_map]

/-- A row of a table with the stamps of another has the stamp of one of its rows. -/
theorem exists_stamp_of_mem {rows rows' : List BCTRecord}
    (h : rows.map BCTRecord.stamp = rows'.map BCTRecord.stamp) {b : BCTRecord} (hb : b ∈ rows) :
    ∃ r ∈ rows', r.stamp = b.stamp := by
  have : b.stamp ∈ rows'.map BCTRecord.stamp := h ▸ List.mem_map_of_mem hb
  simpa using this

end BCTDatabase

/-- The statuses of a database whose last processed height is `lastHeight`: every record
was created above the genesis block and no later than that height, and has the status its
creation height gives there. -/
def StatusesAt (params : ConsensusParams) (lastHeight : Int) (db : BCTDatabase) : Prop :=
  ∀ r ∈ db.bcts, 0 < r.creationHeight ∧ r.creationHeight ≤ lastHeight ∧
    r.status = statusAt params lastHeight r.creationHeight

/-- Heights that rise from block to block, all above the genesis block. -/
def RisingHeights (run : List (CBlock × Int)) : Prop :=
  (run.map (·.2)).Pairwise (· < ·) ∧ ∀ blockAt ∈ run, 0 < blockAt.2

/-- The height of the last block of a run, `previous` for an empty run. -/
def lastHeightOf (previous : Int) (run : List (CBlock × Int)) : Int :=
  run.foldl (fun _ blockAt => blockAt.2) previous

section Runs

variable (env : ChainEnv) (walletFilter : Option (CTransaction → Bool))

/-- The loop over a block's transactions keeps the stamps of the rows and adds fresh
records created at the block's height. -/
theorem processTxs_rows {height : Int} {db db' : BCTDatabase} {vtx : List CTransaction}
    (hkeys : db.KeysUnique) (h : vtx.foldlM (processTx env walletFilter height) db = .ok db') :
    db'.KeysUnique ∧ ∃ added : List BCTRecord,
      db'.bcts.map BCTRecord.stamp = (db.bcts ++ added).map BCTRecord.stamp ∧
      ∀ r ∈ added, r.creationHeight = height ∧ r.status = .immature := by
  -- the loop invariant, relative to the database the loop starts from
  let P : BCTDatabase → Prop := fun s => s.KeysUnique ∧ ∃ added : List BCTRecord,
    s.bcts.map BCTRecord.stamp = (db.bcts ++ added).map BCTRecord.stamp ∧
    ∀ r ∈ added, r.creationHeight = height ∧ r.status = .immature
  have hinit : P db := ⟨hkeys, [], by simp, by simp⟩
  have hstep : ∀ s tx s', tx ∈ vtx → P s → processTx env walletFilter height s tx = .ok s' →
      P s' := by
    rintro s tx s' - ⟨hkeys_s, added, hstamps, hadded⟩ hstep
    obtain ⟨hkeys', added', hstamps', hadded'⟩ :=
      processTx_rows env walletFilter height hkeys_s hstep
    refine ⟨hkeys', added ++ added', ?_, ?_⟩
    · rw [hstamps', List.map_append, hstamps, ← List.map_append, List.append_assoc]
    · intro r hr
      rcases List.mem_append.1 hr with hr | hr
      · exact hadded r hr
      · exact hadded' r hr
  have hres : P db' := Checked.foldlM_invariant hinit hstep h
  exact hres

/-- One block keeps the rows' keys, adds records created at its height, and moves every
status to the one at its height. -/
theorem processBlock_rows {height : Int} {db db' : BCTDatabase} {block : CBlock}
    (hkeys : db.KeysUnique) (h : processBlock env walletFilter height db block = .ok db') :
    db'.KeysUnique ∧ ∃ added : List BCTRecord,
      db'.bcts.map BCTRecord.key = (db.bcts ++ added).map BCTRecord.key ∧
      ∀ r ∈ added, r.creationHeight = height := by
  unfold processBlock at h
  obtain ⟨s, hs, h⟩ := Checked.bind_eq_ok h
  simp only [Checked.pure_eq, Except.ok.injEq] at h
  subst h
  obtain ⟨hkeys_s, added, hstamps, hadded⟩ := processTxs_rows env walletFilter hkeys hs
  -- the status updates keep every txid and creation height
  have hkeys_upd : (updateAllStatuses env.params height s).bcts.map BCTRecord.key =
      s.bcts.map BCTRecord.key := by
    simp [updateAllStatuses, BCTRecord.key, Function.comp_def]
  refine ⟨?_, added, ?_, fun r hr => (hadded r hr).1⟩
  · have htxids : (updateAllStatuses env.params height s).bcts.map (·.txid) =
        s.bcts.map (·.txid) := by
      simp [updateAllStatuses, Function.comp_def]
    unfold BCTDatabase.KeysUnique at *
    simpa [htxids] using hkeys_s
  · simpa [hkeys_upd] using BCTDatabase.keys_of_stamps hstamps

/-- One block at a height above the last processed one moves the statuses to that height. -/
theorem processBlock_statuses (hlife : 0 ≤ env.params.beeLifespanBlocks)
    {height lastHeight : Int} {db db' : BCTDatabase} {block : CBlock} (hpos : 0 < height)
    (hrise : lastHeight < height) (hkeys : db.KeysUnique)
    (hst : StatusesAt env.params lastHeight db)
    (h : processBlock env walletFilter height db block = .ok db') :
    StatusesAt env.params height db' := by
  unfold processBlock at h
  obtain ⟨s, hs, h⟩ := Checked.bind_eq_ok h
  simp only [Checked.pure_eq, Except.ok.injEq] at h
  subst h
  obtain ⟨-, added, hstamps, hadded⟩ := processTxs_rows env walletFilter hkeys hs
  intro r' hr'
  simp only [BCTDatabase.bcts_setLastProcessedHeight, updateAllStatuses, List.map_map,
    List.mem_map, Function.comp_apply] at hr'
  obtain ⟨b, hb, rfl⟩ := hr'
  obtain ⟨r, hr, hstamp⟩ := BCTDatabase.exists_stamp_of_mem hstamps hb
  simp only [BCTRecord.stamp, Prod.mk.injEq] at hstamp
  obtain ⟨-, hc, hstatus⟩ := hstamp
  simp only [creationHeight_markExpired, creationHeight_markMature]
  rcases List.mem_append.1 hr with hr | hr
  · -- a record of the database: its status was the one at the last height
    obtain ⟨hpos_r, hle, hst_r⟩ := hst r hr
    refine ⟨hc ▸ hpos_r, by omega, ?_⟩
    exact status_update hlife (hc ▸ hpos_r) (.inl ⟨hrise, by rw [← hstatus, hst_r, hc]⟩)
  · -- a record this block created
    obtain ⟨hcr, hsr⟩ := hadded r hr
    refine ⟨by omega, by omega, ?_⟩
    exact @status_update env.params height b lastHeight hlife (by omega)
      (.inr ⟨by omega, by rw [← hstatus, hsr]⟩)

end Runs

/-! ## Runs of blocks -/

section Runs

variable (env : ChainEnv) (walletFilter : Option (CTransaction → Bool))

theorem processBlocks_cons (db : BCTDatabase) (blockAt : CBlock × Int)
    (run : List (CBlock × Int)) :
    processBlocks env walletFilter db (blockAt :: run) =
      processBlock env walletFilter blockAt.2 db blockAt.1 >>= fun db =>
        processBlocks env walletFilter db run := by
  simp [processBlocks]

theorem processBlocks_append (db : BCTDatabase) (run run' : List (CBlock × Int)) :
    processBlocks env walletFilter db (run ++ run') =
      processBlocks env walletFilter db run >>= fun db => processBlocks env walletFilter db run' := by
  simp [processBlocks, List.foldlM_append]

theorem RisingHeights.tail {blockAt : CBlock × Int} {run : List (CBlock × Int)}
    (h : RisingHeights (blockAt :: run)) :
    RisingHeights run ∧ ∀ later ∈ run, blockAt.2 < later.2 := by
  obtain ⟨hpair, hpos⟩ := h
  simp only [List.map_cons, List.pairwise_cons, List.mem_map] at hpair
  refine ⟨⟨hpair.2, fun b hb => hpos b (by simp [hb])⟩, fun later hl => ?_⟩
  exact hpair.1 _ ⟨later, hl, rfl⟩

/-- Over a run of blocks with rising heights above the last processed one, the keys stay
unique and every status becomes the one at the run's last height. -/
theorem processBlocks_statuses (hlife : 0 ≤ env.params.beeLifespanBlocks)
    {run : List (CBlock × Int)} {lastHeight : Int} {db db' : BCTDatabase}
    (hrise : RisingHeights run) (habove : ∀ blockAt ∈ run, lastHeight < blockAt.2)
    (hkeys : db.KeysUnique) (hst : StatusesAt env.params lastHeight db)
    (h : processBlocks env walletFilter db run = .ok db') :
    db'.KeysUnique ∧ StatusesAt env.params (lastHeightOf lastHeight run) db' := by
  -- induction on the run, one block at a time
  induction run generalizing lastHeight db with
  | nil =>
    cases h
    exact ⟨hkeys, hst⟩
  | cons blockAt run ih =>
    rw [processBlocks_cons] at h
    obtain ⟨db1, h1, h⟩ := Checked.bind_eq_ok h
    obtain ⟨hrise', hlater⟩ := hrise.tail
    have hpos : 0 < blockAt.2 := hrise.2 blockAt (by simp)
    have hkeys1 := (processBlock_rows env walletFilter hkeys h1).1
    have hst1 := processBlock_statuses env walletFilter hlife hpos (habove blockAt (by simp))
      hkeys hst h1
    exact ih hrise' hlater hkeys1 hst1 h

/-- Over a run, the rows keep their keys and the new ones are created at heights of the
run. -/
theorem processBlocks_rows {run : List (CBlock × Int)} {db db' : BCTDatabase}
    (hkeys : db.KeysUnique) (h : processBlocks env walletFilter db run = .ok db') :
    ∃ added : List BCTRecord,
      db'.bcts.map BCTRecord.key = (db.bcts ++ added).map BCTRecord.key ∧
      ∀ r ∈ added, ∃ blockAt ∈ run, r.creationHeight = blockAt.2 := by
  induction run generalizing db with
  | nil =>
    cases h
    exact ⟨[], by simp, by simp⟩
  | cons blockAt run ih =>
    rw [processBlocks_cons] at h
    obtain ⟨db1, h1, h⟩ := Checked.bind_eq_ok h
    obtain ⟨hkeys1, added1, hkeys_eq1, hadded1⟩ := processBlock_rows env walletFilter hkeys h1
    obtain ⟨added2, hkeys_eq2, hadded2⟩ := ih hkeys1 h
    refine ⟨added1 ++ added2, ?_, ?_⟩
    · rw [hkeys_eq2, List.map_append, hkeys_eq1, ← List.map_append, List.append_assoc]
    · intro r hr
      rcases List.mem_append.1 hr with hr | hr
      · exact ⟨blockAt, by simp, hadded1 r hr⟩
      · obtain ⟨later, hlater, hc⟩ := hadded2 r hr
        exact ⟨later, by simp [hlater], hc⟩

end Runs

/-! ## Reorganisations -/

namespace BCTDatabase

/-- The recount writes a row of the snapshot back with only its rewards changed. -/
theorem stamps_recountRewards {db : BCTDatabase} {bct : BCTRecord}
    (hsame : ∀ b ∈ db.bcts, b.txid = bct.txid →
      b.creationHeight = bct.creationHeight ∧ b.status = bct.status) :
    (db.recountRewards bct).bcts.map BCTRecord.stamp = db.bcts.map BCTRecord.stamp := by
  unfold recountRewards
  dsimp only
  split
  · exact stamps_updateBCT hsame
  · rfl

/-- `handleReorg` keeps the key, creation height and status of every record created at
or below the fork height, and deletes the others. -/
theorem stamps_handleReorg {db : BCTDatabase} (hkeys : db.KeysUnique) (forkHeight : Int) :
    (db.handleReorg forkHeight).bcts.map BCTRecord.stamp =
      (db.bcts.filter (·.creationHeight ≤ forkHeight)).map BCTRecord.stamp := by
  set db0 := ((db.deleteBCTsAfterHeight forkHeight).deleteRewardsAfterHeight forkHeight)
    |>.setLastProcessedHeight forkHeight with hdb0
  have hbcts0 : db0.bcts = db.bcts.filter (·.creationHeight ≤ forkHeight) := rfl
  have hkeys0 : db0.KeysUnique := by
    unfold KeysUnique at *
    rw [hbcts0]
    exact hkeys.sublist ((List.filter_sublist).map _)
  -- the recount loop over the snapshot keeps the stamps of the rows
  have hloop : ∀ (snapshot : List BCTRecord) (s : BCTDatabase), (∀ b ∈ snapshot, b ∈ db0.bcts) →
      s.bcts.map BCTRecord.stamp = db0.bcts.map BCTRecord.stamp →
      (snapshot.foldl recountRewards s).bcts.map BCTRecord.stamp =
        db0.bcts.map BCTRecord.stamp := by
    intro snapshot
    induction snapshot with
    | nil => exact fun s _ hs => hs
    | cons bct snapshot ih =>
      intro s hsub hs
      apply ih _ (fun b hb => hsub b (by simp [hb]))
      rw [stamps_recountRewards, hs]
      intro b hb htxid
      obtain ⟨r, hr, hstamp⟩ := exists_stamp_of_mem hs hb
      simp only [BCTRecord.stamp, Prod.mk.injEq] at hstamp
      have hrb : r = bct := eq_of_txid_eq hkeys0 hr (hsub bct (by simp)) (hstamp.1.trans htxid)
      subst hrb
      exact ⟨hstamp.2.1.symm, hstamp.2.2.symm⟩
  rw [← hbcts0]
  exact hloop db0.bcts db0 (fun _ hb => hb) rfl

end BCTDatabase

/-- A reorganisation does not bring the records back to what replaying the blocks up to
the fork height gives: for a run of blocks with rising heights, `handleReorg` keeps
exactly the records the replay makes, but with the statuses of the old tip's height,
where the replay has those of its own last height. -/
theorem handleReorg_status_differs_from_replay (env : ChainEnv)
    (walletFilter : Option (CTransaction → Bool)) (hlife : 0 ≤ env.params.beeLifespanBlocks)
    {replayed orphaned : List (CBlock × Int)} {forkHeight : Int}
    (hrising : RisingHeights (replayed ++ orphaned))
    (hreplayed : ∀ blockAt ∈ replayed, blockAt.2 ≤ forkHeight)
    (horphaned : ∀ blockAt ∈ orphaned, forkHeight < blockAt.2)
    {dbReplay db : BCTDatabase}
    (hdbReplay : processBlocks env walletFilter BCTDatabase.empty replayed = .ok dbReplay)
    (hdb : processBlocks env walletFilter BCTDatabase.empty (replayed ++ orphaned) = .ok db) :
    (db.handleReorg forkHeight).bcts.map BCTRecord.key = dbReplay.bcts.map BCTRecord.key ∧
      (∀ r ∈ (db.handleReorg forkHeight).bcts,
        r.status = statusAt env.params (lastHeightOf 0 (replayed ++ orphaned)) r.creationHeight) ∧
      ∀ r ∈ dbReplay.bcts,
        r.status = statusAt env.params (lastHeightOf 0 replayed) r.creationHeight := by
  have hkeys0 : BCTDatabase.empty.KeysUnique := List.nodup_nil
  have hst0 : StatusesAt env.params 0 BCTDatabase.empty := fun _ hr => absurd hr (by simp [BCTDatabase.empty])
  have hpos : ∀ blockAt ∈ replayed ++ orphaned, 0 < blockAt.2 := hrising.2
  have hriseReplay : RisingHeights replayed :=
    ⟨(List.pairwise_append.1 (by simpa using hrising.1)).1, fun b hb => hpos b (by simp [hb])⟩
  -- the whole run, and the replay of its blocks up to the fork height
  obtain ⟨hkeys, hst⟩ := processBlocks_statuses env walletFilter hlife hrising hpos hkeys0 hst0 hdb
  obtain ⟨-, hstReplay⟩ := processBlocks_statuses env walletFilter hlife hriseReplay
    (fun b hb => hpos b (by simp [hb])) hkeys0 hst0 hdbReplay
  obtain ⟨replayRows, hkeysReplay, hreplayRows⟩ :=
    processBlocks_rows env walletFilter hkeys0 hdbReplay
  -- the run is the replay followed by the orphaned blocks
  have hdb' : processBlocks env walletFilter dbReplay orphaned = .ok db := by
    rw [processBlocks_append, hdbReplay] at hdb
    exact hdb
  obtain ⟨orphanRows, hkeysRun, horphanRows⟩ := processBlocks_rows env walletFilter
    ((processBlocks_statuses env walletFilter hlife hriseReplay
      (fun b hb => hpos b (by simp [hb])) hkeys0 hst0 hdbReplay).1) hdb'
  have hstamps := BCTDatabase.stamps_handleReorg hkeys forkHeight
  refine ⟨?_, ?_, fun r hr => (hstReplay r hr).2.2⟩
  · -- keep the rows created at or below the fork height: those of the replay
    have hfilter : ∀ rows : List BCTRecord,
        (rows.filter (·.creationHeight ≤ forkHeight)).map BCTRecord.key =
          (rows.map BCTRecord.key).filter (·.2 ≤ forkHeight) := by
      intro rows
      rw [List.filter_map]
      rfl
    rw [BCTDatabase.keys_of_stamps hstamps, hfilter, hkeysRun, List.map_append,
      List.filter_append]
    have hkeep : (dbReplay.bcts.map BCTRecord.key).filter (·.2 ≤ forkHeight) =
        dbReplay.bcts.map BCTRecord.key := by
      rw [List.filter_eq_self]
      intro k hk
      rw [hkeysReplay] at hk
      simp only [List.nil_append, List.mem_map, BCTDatabase.empty] at hk
      obtain ⟨r, hr, rfl⟩ := hk
      obtain ⟨blockAt, hb, hc⟩ := hreplayRows r hr
      simpa [BCTRecord.key, hc] using hreplayed blockAt hb
    have hdrop : (orphanRows.map BCTRecord.key).filter (·.2 ≤ forkHeight) = [] := by
      rw [List.filter_eq_nil_iff]
      intro k hk
      simp only [List.mem_map] at hk
      obtain ⟨r, hr, rfl⟩ := hk
      obtain ⟨blockAt, hb, hc⟩ := horphanRows r hr
      simpa [BCTRecord.key, hc] using horphaned blockAt hb
    rw [hkeep, hdrop, List.append_nil]
  · -- every kept row has the status of a row of the old tip
    intro r hr
    obtain ⟨b, hb, hstamp⟩ := BCTDatabase.exists_stamp_of_mem hstamps hr
    simp only [BCTRecord.stamp, Prod.mk.injEq] at hstamp
    rw [← hstamp.2.2, ← hstamp.2.1]
    exact (hst b (List.mem_of_mem_filter hb)).2.2

/-- The failing input on testnet, where bees gestate for 40 blocks: a BCT paying its
honey to a key hash in the block at height 1, blocks up to height 41, and a reorganisation
to height 40, with the scripts of `ChainEnv.withStandard`. The record keeps the `mature`
of height 41, where the replay has it `immature`. -/
theorem handleReorg_status_differs_on_testnet :
    let env : ChainEnv := (constEnv testNetParams).withStandard
    let header : CBlockHeader := ⟨0, Uint256.zero, Uint256.zero, 0, 0, 0⟩
    let honey : CScript :=
      [OP_DUP, OP_HASH160] ++ (20 :: (List.replicate 20 1 ++ [OP_EQUALVERIFY, OP_CHECKSIG]))
    let bct : CTransaction := ⟨[⟨⟨Uint256.zero, 0⟩, []⟩], [⟨10000, [OP_RETURN, OP_BEE] ++ honey⟩]⟩
    let replayed : List (CBlock × Int) := (List.range 40).map fun i =>
      (⟨header, if i = 0 then [bct] else [], false⟩, (i : Int) + 1)
    let orphaned : List (CBlock × Int) := [(⟨header, [], false⟩, 41)]
    let dbReplay := (processBlocks env none BCTDatabase.empty replayed).toOption.getD
      BCTDatabase.empty
    let db := (processBlocks env none BCTDatabase.empty (replayed ++ orphaned)).toOption.getD
      BCTDatabase.empty
    (0 ≤ env.params.beeLifespanBlocks ∧ RisingHeights (replayed ++ orphaned) ∧
      (∀ blockAt ∈ replayed, blockAt.2 ≤ 40) ∧ (∀ blockAt ∈ orphaned, 40 < blockAt.2) ∧
      processBlocks env none BCTDatabase.empty replayed = .ok dbReplay ∧
      processBlocks env none BCTDatabase.empty (replayed ++ orphaned) = .ok db) ∧
    ((db.handleReorg 40).bcts.map BCTRecord.key = dbReplay.bcts.map BCTRecord.key ∧
      (∀ r ∈ (db.handleReorg 40).bcts,
        r.status = statusAt env.params (lastHeightOf 0 (replayed ++ orphaned)) r.creationHeight) ∧
      ∀ r ∈ dbReplay.bcts,
        r.status = statusAt env.params (lastHeightOf 0 replayed) r.creationHeight) ∧
    (db.handleReorg 40).bcts.map (·.status) = [.mature] ∧
      dbReplay.bcts.map (·.status) = [.immature] := by
  intro env header honey bct replayed orphaned dbReplay db
  have hlife : 0 ≤ env.params.beeLifespanBlocks := by decide
  have hrising : RisingHeights (replayed ++ orphaned) := by
    unfold RisingHeights
    decide +kernel
  have hreplayed : ∀ blockAt ∈ replayed, blockAt.2 ≤ 40 := by decide +kernel
  have horphaned : ∀ blockAt ∈ orphaned, 40 < blockAt.2 := by decide +kernel
  have hdbReplay : processBlocks env none BCTDatabase.empty replayed = .ok dbReplay := by
    decide +kernel
  have hdb : processBlocks env none BCTDatabase.empty (replayed ++ orphaned) = .ok db := by
    decide +kernel
  have hafter : (db.handleReorg 40).bcts.map (·.status) = [.mature] := by decide +kernel
  have hreplay : dbReplay.bcts.map (·.status) = [.immature] := by decide +kernel
  exact ⟨⟨hlife, hrising, hreplayed, horphaned, hdbReplay, hdb⟩,
    handleReorg_status_differs_from_replay env none hlife hrising hreplayed horphaned hdbReplay hdb,
    hafter, hreplay⟩

end Cascoin
