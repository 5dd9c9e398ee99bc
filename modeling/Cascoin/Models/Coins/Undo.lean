import Cascoin.Models.Coins.Cache
import Cascoin.Models.Consensus.TxVerify

/-!
# Block undo

`ConnectBlock` applies `UpdateCoins` to the transactions of a block in order:
each transaction's inputs are spent and the coins they held moved into its
`CTxUndo`, then its outputs are added at the block's height; the coinbase's
undo goes to a dummy. `DisconnectBlock` runs through the block from the last
transaction, spends each spendable output and checks it against the block, and
puts the inputs back from the undo data with `ApplyTxInUndo`, from the last.

Both run on a `CCoinsViewCache` over the caches below it. Under the flag
discipline of `Cascoin.Models.Coins.Cache` each call is an update of the map
the cache shows (`CCoinsViewCache.Shows`), so the two loops are a batch of
erasures and insertions and its inverse (`FunMap.eraseAll_insertAll`). The
inverse is exact when every coin a transaction spends is unspent, its outputs
land where nothing is unspent, and no spent coin has height 0: a height of 0 in
an undo record is the mark of the old format without heights, and
`ApplyTxInUndo` then looks for another output of the same transaction
(`DisconnectBlock_undoes_ConnectBlockCoins`, `DisconnectBlock_fails_on_height_zero`).
-/

namespace Cascoin

/-- `Coin(out, nHeight, fCoinBase)`: the height kept in the 31-bit field. -/
def Coin.ofTxOut (out : CTxOut) (nHeight : Nat) (fCoinBase : Bool) : Coin where
  out := out
  nHeight := UInt32.ofNat (nHeight % 2 ^ 31)
  fCoinBase := fCoinBase
  nHeight_lt := by
    have : nHeight % 2 ^ 31 < 2 ^ 31 := Nat.mod_lt _ (by norm_num)
    rw [UInt32.toNat_ofNat']
    omega

/-- `CTxOut::SetNull`: the value `-1` and no script. -/
def CTxOut.null : CTxOut := ⟨-1, []⟩

/-- The output, height and coinbase flag of a `Coin` that may be spent: `Clear()` leaves
the null output, height 0 and no coinbase flag. -/
def Coin.fields : Option Coin → CTxOut × Nat × Bool
  | some coin => (coin.out, coin.nHeight.toNat, coin.fCoinBase)
  | none => (CTxOut.null, 0, false)

/-- `CTxUndo`: the coins the inputs spent, in input order. -/
structure CTxUndo where
  vprevout : List (Option Coin)

/-- `CBlockUndo`: an undo record for each transaction but the coinbase. -/
structure CBlockUndo where
  vtxundo : List CTxUndo

/-- `DisconnectResult`. -/
inductive DisconnectResult where
  | DISCONNECT_OK
  | DISCONNECT_UNCLEAN
  | DISCONNECT_FAILED
  deriving DecidableEq, Repr

/-- A `CCoinsViewCache`: its entries and the caches below it, over the database. -/
abbrev CCoinsViewCache := CCoinsMap × List CCoinsMap

/-- `MIN_TRANSACTION_OUTPUT_WEIGHT`: the weight of a null output. -/
def MIN_TRANSACTION_OUTPUT_WEIGHT : Nat := WITNESS_SCALE_FACTOR * CTxOut.null.serializeSize

/-- `MAX_OUTPUTS_PER_BLOCK`. -/
def MAX_OUTPUTS_PER_BLOCK : Nat := MAX_BLOCK_WEIGHT / MIN_TRANSACTION_OUTPUT_WEIGHT

section Code

variable (db : CoinsDB) (txHash : CTransaction → Uint256)

/-- `view.HaveCoin(outpoint)`: the entry `FetchCoin` finds holds an unspent coin, the same
lookup as `AccessCoin`. -/
def CCoinsViewCache.HaveCoin (view : CCoinsViewCache) (outpoint : COutPoint) :
    Bool × CCoinsViewCache :=
  let (coin, cacheCoins, below) := AccessCoin db view.1 view.2 outpoint
  (coin.isSome, (cacheCoins, below))

/-- One pass of the loop of `AddCoins` for the transaction hashing to `txid`: the output `out`
at index `i`, a possible overwrite where the cache has a coin (`check`) or for a coinbase. -/
def addCoinsStep (txid : Uint256) (fCoinbase : Bool) (nHeight : Nat) (check : Bool)
    (view : CCoinsViewCache) (x : CTxOut × Nat) : Checked String CCoinsViewCache :=
  let outpoint : COutPoint := ⟨txid, UInt32.ofNat x.2⟩
  let (overwrite, view) := if check then view.HaveCoin db outpoint else (fCoinbase, view)
  do
    let cacheCoins ← AddCoin view.1 outpoint (Coin.ofTxOut x.1 nHeight fCoinbase) overwrite
    pure (cacheCoins, view.2)

/-- `AddCoins(cache, tx, nHeight, check)`. -/
def AddCoins (view : CCoinsViewCache) (tx : CTransaction) (nHeight : Nat) (check : Bool) :
    Checked String CCoinsViewCache :=
  tx.vout.zipIdx.foldlM (addCoinsStep db (txHash tx) tx.IsCoinBase nHeight check) view

/-- One pass of the input loop of `UpdateCoins`: spend the input, `assert(is_spent)`, and
move the coin into the undo record. -/
def spendInput (acc : CCoinsViewCache × List (Option Coin)) (txin : CTxIn) :
    Checked String (CCoinsViewCache × List (Option Coin)) :=
  let ((is_spent, coin), cacheCoins, below) := SpendCoin db acc.1.1 acc.1.2 txin.prevout
  do
    Checked.assert is_spent
    pure ((cacheCoins, below), acc.2 ++ [coin])

/-- `UpdateCoins(tx, inputs, txundo, nHeight)`: the inputs spent unless a coinbase, then
the outputs added. -/
def UpdateCoins (inputs : CCoinsViewCache) (tx : CTransaction) (nHeight : Nat) :
    Checked String (CCoinsViewCache × CTxUndo) := do
  let (inputs, vprevout) ←
    if tx.IsCoinBase then pure (inputs, []) else tx.vin.foldlM (spendInput db) (inputs, [])
  let inputs ← AddCoins db txHash inputs tx nHeight false
  pure (inputs, ⟨vprevout⟩)

/-- One pass of the transaction loop of `ConnectBlock`, as far as the coins go: the
transaction at index `i` updates the view, and its undo record is kept unless `i = 0`. -/
def connectStep (nHeight : Nat) (acc : CCoinsViewCache × CBlockUndo) (x : CTransaction × Nat) :
    Checked String (CCoinsViewCache × CBlockUndo) := do
  let (view, txundo) ← UpdateCoins db txHash acc.1 x.1 nHeight
  pure (view, if x.2 > 0 then ⟨acc.2.vtxundo ++ [txundo]⟩ else acc.2)

/-- The coins part of `ConnectBlock`'s transaction loop for a block at `nHeight`. -/
def ConnectBlockCoins (view : CCoinsViewCache) (vtx : List CTransaction) (nHeight : Nat) :
    Checked String (CCoinsViewCache × CBlockUndo) :=
  vtx.zipIdx.foldlM (connectStep db txHash nHeight) (view, ⟨[]⟩)

/-- The loop of `AccessByTxid` from the index `n`, with `fuel` indices left below the bound. -/
def accessByTxidFrom (txid : Uint256) : Nat → Nat → CCoinsViewCache → Option Coin × CCoinsViewCache
  | 0, _, view => (none, view)
  | fuel + 1, n, view =>
    let (alternate, cacheCoins, below) := AccessCoin db view.1 view.2 ⟨txid, UInt32.ofNat n⟩
    match alternate with
    | some coin => (some coin, (cacheCoins, below))
    | none => accessByTxidFrom txid fuel (n + 1) (cacheCoins, below)

/-- `AccessByTxid(view, txid)`: the first unspent output of `txid` below
`MAX_OUTPUTS_PER_BLOCK`, or the spent `coinEmpty`. -/
def AccessByTxid (view : CCoinsViewCache) (txid : Uint256) : Option Coin × CCoinsViewCache :=
  accessByTxidFrom db txid MAX_OUTPUTS_PER_BLOCK 0 view

/-- `ApplyTxInUndo(undo, view, out)`. -/
def ApplyTxInUndo (undo : Option Coin) (view : CCoinsViewCache) (out : COutPoint) :
    Checked String (DisconnectResult × CCoinsViewCache) :=
  let (fHave, view) := view.HaveCoin db out
  let fClean := !fHave
  -- height 0: an old undo record, without the height and the coinbase flag
  let (undo, view) : Option (Option Coin) × CCoinsViewCache :=
    if (Coin.fields undo).2.1 == 0 then
      let (alternate, view) := AccessByTxid db view out.hash
      (alternate.map fun alt => undo.map fun coin =>
        { coin with nHeight := alt.nHeight, fCoinBase := alt.fCoinBase, nHeight_lt := alt.nHeight_lt },
        view)
    else (some undo, view)
  match undo with
  | none => pure (.DISCONNECT_FAILED, view)
  -- `AddCoin` asserts that the coin is unspent
  | some none => .error (.fault .assertFailure)
  | some (some coin) => do
    let cacheCoins ← AddCoin view.1 out coin (!fClean)
    pure (if fClean then .DISCONNECT_OK else .DISCONNECT_UNCLEAN, (cacheCoins, view.2))

/-- One pass of the output check of `DisconnectBlock`: a spendable output is spent, and
`fClean` cleared when it was missing or differs from the block's. -/
def spendOutputStep (txid : Uint256) (is_coinbase : Bool) (nHeight : Nat)
    (acc : Bool × CCoinsViewCache) (x : CTxOut × Nat) : Bool × CCoinsViewCache :=
  if IsUnspendable x.1.scriptPubKey then acc
  else
    let ((is_spent, coin), cacheCoins, below) := SpendCoin db acc.2.1 acc.2.2 ⟨txid, UInt32.ofNat x.2⟩
    let (out, height, fCoinBase) := Coin.fields coin
    let mismatch := !is_spent || x.1 != out || nHeight != height || is_coinbase != fCoinBase
    (acc.1 && !mismatch, (cacheCoins, below))

/-- The restore loop of `DisconnectBlock` for one transaction, over the undo records and the
inputs from the last: `none` for `DISCONNECT_FAILED`, else whether every input was clean. -/
def restoreInputs (view : CCoinsViewCache) :
    List (Option Coin × COutPoint) → Checked String (Option Bool × CCoinsViewCache)
  | [] => pure (some true, view)
  | (undo, out) :: rest => do
    let (res, view) ← ApplyTxInUndo db undo view out
    if res == .DISCONNECT_FAILED then pure (none, view)
    else
      let (fClean, view) ← restoreInputs view rest
      pure (fClean.map (· && res != .DISCONNECT_UNCLEAN), view)

/-- The transaction loop of `DisconnectBlock` for a block at `nHeight`, from the last
transaction, each with its undo record (none for the first). -/
def disconnectTxs (nHeight : Nat) :
    List (CTransaction × Option CTxUndo) → Bool → CCoinsViewCache →
      Checked String (DisconnectResult × CCoinsViewCache)
  | [], fClean, view => pure (if fClean then .DISCONNECT_OK else .DISCONNECT_UNCLEAN, view)
  | (tx, txundo) :: rest, fClean, view =>
    let (fClean, view) :=
      tx.vout.zipIdx.foldl (spendOutputStep db (txHash tx) tx.IsCoinBase nHeight) (fClean, view)
    match txundo with
    | none => disconnectTxs nHeight rest fClean view
    | some txundo =>
      if txundo.vprevout.length != tx.vin.length then pure (.DISCONNECT_FAILED, view)
      else do
        let (res, view) ←
          restoreInputs db view (txundo.vprevout.zip (tx.vin.map (·.prevout))).reverse
        match res with
        | none => pure (.DISCONNECT_FAILED, view)
        | some fClean' => disconnectTxs nHeight rest (fClean && fClean') view

/-- `DisconnectBlock(block, pindex, view)` with the undo data `blockUndo` read, for a block
at `nHeight`. -/
def DisconnectBlock (vtx : List CTransaction) (blockUndo : CBlockUndo) (nHeight : Nat)
    (view : CCoinsViewCache) : Checked String (DisconnectResult × CCoinsViewCache) :=
  if blockUndo.vtxundo.length + 1 != vtx.length then pure (.DISCONNECT_FAILED, view)
  else disconnectTxs db txHash nHeight (vtx.zip (none :: blockUndo.vtxundo.map some)).reverse true view

end Code

/-! ## The map a cache shows -/

/-- The cache keeps the flag discipline over the caches below it and shows `coins`. -/
def CCoinsViewCache.Shows (db : CoinsDB) (view : CCoinsViewCache) (coins : CoinsDB) : Prop :=
  StackInv db (view.1 :: view.2) ∧ stackView db (view.1 :: view.2) = coins

section Calls

variable {db : CoinsDB}

/-- `SpendCoin` reports a spend whenever it moves out an unspent coin. -/
theorem SpendCoin_fst_of_isSome {cacheCoins : CCoinsMap} {below : List CCoinsMap}
    {outpoint : COutPoint} {is_spent : Bool} {coin : Option Coin} {cacheCoins' : CCoinsMap}
    {below' : List CCoinsMap}
    (hs : SpendCoin db cacheCoins below outpoint = ((is_spent, coin), cacheCoins', below'))
    (hcoin : coin.isSome) : is_spent = true := by
  unfold SpendCoin at hs
  split at hs
  · simp only [Prod.mk.injEq] at hs
    rw [← hs.1.2] at hcoin
    cases hcoin
  · split at hs <;> exact (Prod.mk.inj (Prod.mk.inj hs).1).1.symm

namespace CCoinsViewCache.Shows

theorem SpendCoin {view : CCoinsViewCache} {coins : CoinsDB} (h : view.Shows db coins)
    {outpoint : COutPoint} {is_spent : Bool} {coin : Option Coin} {cacheCoins : CCoinsMap}
    {below : List CCoinsMap}
    (hs : Cascoin.SpendCoin db view.1 view.2 outpoint = ((is_spent, coin), cacheCoins, below)) :
    coin = coins outpoint ∧ ((coins outpoint).isSome → is_spent = true) ∧
      CCoinsViewCache.Shows db (cacheCoins, below) (FunMap.erase coins outpoint) := by
  obtain ⟨hcoin, hview, hinv⟩ := SpendCoin_spec db h.1 hs
  have hmoved : coin = coins outpoint := by rw [← h.2]; exact hcoin
  rw [h.2] at hview
  refine ⟨hmoved, fun hsome => SpendCoin_fst_of_isSome hs (hmoved ▸ hsome), hinv, hview⟩

theorem AccessCoin {view : CCoinsViewCache} {coins : CoinsDB} (h : view.Shows db coins)
    (outpoint : COutPoint) :
    (Cascoin.AccessCoin db view.1 view.2 outpoint).1 = coins outpoint ∧
      CCoinsViewCache.Shows db (Cascoin.AccessCoin db view.1 view.2 outpoint).2 coins := by
  obtain ⟨hcoin, hview, hinv⟩ := AccessCoin_spec db outpoint h.1
  rw [h.2] at hcoin hview
  exact ⟨hcoin, hinv, hview⟩

theorem HaveCoin {view : CCoinsViewCache} {coins : CoinsDB} (h : view.Shows db coins)
    (outpoint : COutPoint) :
    (view.HaveCoin db outpoint).1 = (coins outpoint).isSome ∧
      CCoinsViewCache.Shows db (view.HaveCoin db outpoint).2 coins := by
  obtain ⟨hcoin, hshows⟩ := h.AccessCoin outpoint
  simp only [CCoinsViewCache.HaveCoin]
  exact ⟨by rw [hcoin], hshows⟩

/-- `AddCoin` on the cache: the coin is shown unless its script is unspendable. -/
theorem AddCoin {view : CCoinsViewCache} {coins : CoinsDB} (h : view.Shows db coins)
    (outpoint : COutPoint) (coin : Coin) (possible_overwrite : Bool)
    (hfree : IsUnspendable coin.out.scriptPubKey = false → possible_overwrite = false →
      coins outpoint = none) :
    ∃ cacheCoins, Cascoin.AddCoin view.1 outpoint coin possible_overwrite = .ok cacheCoins ∧
      CCoinsViewCache.Shows db (cacheCoins, view.2)
        (if IsUnspendable coin.out.scriptPubKey then coins else FunMap.insert coins outpoint coin) := by
  by_cases hspend : IsUnspendable coin.out.scriptPubKey = true
  · refine ⟨view.1, by simp [Cascoin.AddCoin, hspend], ?_⟩
    rw [if_pos hspend]
    exact h
  · have htop : stackView (stackView db view.2) [view.1] = coins :=
      (stackView_append db [view.1] view.2).trans h.2
    obtain ⟨cacheCoins, hadd, hinv, hview⟩ := AddCoin_spec h.1.1 outpoint coin possible_overwrite
      (fun hpo => htop ▸ hfree (by simpa using hspend) hpo)
    refine ⟨cacheCoins, hadd, ⟨hinv, h.1.2⟩, ?_⟩
    rw [htop] at hview
    exact (stackView_append db [cacheCoins] view.2).trans hview

end CCoinsViewCache.Shows

/-- The empty cache over a stack keeping the flag discipline shows what the stack shows. -/
theorem CCoinsViewCache.shows_empty {below : List CCoinsMap} (hinv : StackInv db below) :
    CCoinsViewCache.Shows db (∅, below) (stackView db below) := by
  refine ⟨⟨LayerInv_empty _, hinv⟩, ?_⟩
  funext outpoint
  simp [stackView, entryView]

end Calls

/-! ## The map a block leaves -/

section Abstract

variable (txHash : CTransaction → Uint256)

/-- The map once the inputs of `tx` are spent, none for a coinbase. -/
def txSpent (coins : CoinsDB) (tx : CTransaction) : CoinsDB :=
  if tx.IsCoinBase then coins else FunMap.eraseAll coins (tx.vin.map (·.prevout))

/-- The coins `AddCoins` stores for the outputs `xs` with their indices: the spendable ones. -/
def spendableOutputs (txid : Uint256) (fCoinbase : Bool) (nHeight : Nat)
    (xs : List (CTxOut × Nat)) : List (COutPoint × Coin) :=
  xs.filterMap fun x =>
    if IsUnspendable x.1.scriptPubKey then none
    else some (⟨txid, UInt32.ofNat x.2⟩, Coin.ofTxOut x.1 nHeight fCoinbase)

/-- The coins the outputs of `tx` add at `nHeight`. -/
def txOutputs (tx : CTransaction) (nHeight : Nat) : List (COutPoint × Coin) :=
  spendableOutputs (txHash tx) tx.IsCoinBase nHeight tx.vout.zipIdx

/-- The map after `UpdateCoins`. -/
def UpdateCoinsMap (coins : CoinsDB) (tx : CTransaction) (nHeight : Nat) : CoinsDB :=
  FunMap.insertAll (txSpent coins tx) (txOutputs txHash tx nHeight)

/-- The map after the transactions of a block, in order. -/
def blockCoins (nHeight : Nat) (coins : CoinsDB) (vtx : List CTransaction) : CoinsDB :=
  vtx.foldl (fun coins tx => UpdateCoinsMap txHash coins tx nHeight) coins

/-- What connecting `tx` at the map `coins` needs: unless a coinbase, distinct inputs, each
unspent; spendable outputs at distinct outpoints, none unspent once the inputs are spent. -/
def TxAdmissible (coins : CoinsDB) (tx : CTransaction) (nHeight : Nat) : Prop :=
  (tx.IsCoinBase = false →
    (tx.vin.map (·.prevout)).Nodup ∧ ∀ txin ∈ tx.vin, (coins txin.prevout).isSome) ∧
  ((txOutputs txHash tx nHeight).map Prod.fst).Nodup ∧
    ∀ p ∈ txOutputs txHash tx nHeight, txSpent coins tx p.1 = none

instance TxAdmissible.instDecidable (coins : CoinsDB) (tx : CTransaction) (nHeight : Nat) :
    Decidable (TxAdmissible txHash coins tx nHeight) :=
  inferInstanceAs (Decidable (_ ∧ _))

/-- Every transaction of the block is admissible at the map before it. -/
def TxsAdmissible (nHeight : Nat) : CoinsDB → List CTransaction → Prop
  | _, [] => True
  | coins, tx :: vtx => TxAdmissible txHash coins tx nHeight ∧
      TxsAdmissible nHeight (UpdateCoinsMap txHash coins tx nHeight) vtx

/-- An undo record `ApplyTxInUndo` puts back as it is: an unspent coin at a nonzero height
with a spendable script. -/
def Restorable : Option Coin → Prop
  | some coin => coin.nHeight.toNat ≠ 0 ∧ IsUnspendable coin.out.scriptPubKey = false
  | none => False

instance Restorable.instDecidable : (undo : Option Coin) → Decidable (Restorable undo)
  | some _ => inferInstanceAs (Decidable (_ ∧ _))
  | none => isFalse id

/-- Every transaction of the block is admissible at the map before it, and the coins each
one but a coinbase spends are restorable. -/
def BlockAdmissible (nHeight : Nat) : CoinsDB → List CTransaction → Prop
  | _, [] => True
  | coins, tx :: vtx => TxAdmissible txHash coins tx nHeight ∧
      (tx.IsCoinBase = false → ∀ txin ∈ tx.vin, Restorable (coins txin.prevout)) ∧
      BlockAdmissible nHeight (UpdateCoinsMap txHash coins tx nHeight) vtx

instance BlockAdmissible.instDecidable (nHeight : Nat) : (coins : CoinsDB) →
    (vtx : List CTransaction) → Decidable (BlockAdmissible txHash nHeight coins vtx)
  | _, [] => isTrue trivial
  | coins, tx :: vtx =>
    have := BlockAdmissible.instDecidable nHeight (UpdateCoinsMap txHash coins tx nHeight) vtx
    inferInstanceAs (Decidable (_ ∧ _ ∧ _))

theorem BlockAdmissible.txsAdmissible {nHeight : Nat} : ∀ {coins : CoinsDB} {vtx : List CTransaction},
    BlockAdmissible txHash nHeight coins vtx → TxsAdmissible txHash nHeight coins vtx
  | _, [], _ => trivial
  | _, _ :: _, hadm => ⟨hadm.1, BlockAdmissible.txsAdmissible hadm.2.2⟩

/-- The undo record `UpdateCoins` fills for `tx` at the map `coins`. -/
def txUndoOf (coins : CoinsDB) (tx : CTransaction) : CTxUndo :=
  ⟨if tx.IsCoinBase then [] else tx.vin.map (coins ·.prevout)⟩

/-- The undo records of the transactions of a block, in order. -/
def blockUndoRecords (nHeight : Nat) : CoinsDB → List CTransaction → List CTxUndo
  | _, [] => []
  | coins, tx :: vtx =>
    txUndoOf coins tx :: blockUndoRecords nHeight (UpdateCoinsMap txHash coins tx nHeight) vtx

/-- What an undo record must be for `tx` at the map `coins`: nothing for a coinbase, else its
inputs' coins, each restorable. -/
def UndoRecord (coins : CoinsDB) (tx : CTransaction) : Option CTxUndo → Prop
  | none => tx.IsCoinBase = true
  | some txundo => tx.IsCoinBase = false ∧ txundo = txUndoOf coins tx ∧
      ∀ txin ∈ tx.vin, Restorable (coins txin.prevout)

/-- The transactions `items`, the last first, with their undo records, take the map `after`
back to `before`: each was admissible at the map before it, with the record it made there. -/
def Undoes (nHeight : Nat) : CoinsDB → List (CTransaction × Option CTxUndo) → CoinsDB → Prop
  | after, [], before => after = before
  | after, (tx, txundo) :: items, before => ∃ coins, after = UpdateCoinsMap txHash coins tx nHeight ∧
      TxAdmissible txHash coins tx nHeight ∧ UndoRecord coins tx txundo ∧
      Undoes nHeight coins items before

theorem spendableOutputs_cons (txid : Uint256) (fCoinbase : Bool) (nHeight : Nat) (x : CTxOut × Nat)
    (xs : List (CTxOut × Nat)) :
    spendableOutputs txid fCoinbase nHeight (x :: xs) =
      if IsUnspendable x.1.scriptPubKey then spendableOutputs txid fCoinbase nHeight xs
      else (⟨txid, UInt32.ofNat x.2⟩, Coin.ofTxOut x.1 nHeight fCoinbase) ::
        spendableOutputs txid fCoinbase nHeight xs := by
  unfold spendableOutputs
  split <;> simp [*]

theorem length_blockUndoRecords (nHeight : Nat) : ∀ (coins : CoinsDB) (vtx : List CTransaction),
    (blockUndoRecords txHash nHeight coins vtx).length = vtx.length
  | _, [] => rfl
  | coins, _ :: vtx => by
    rw [blockUndoRecords, List.length_cons, length_blockUndoRecords nHeight _ vtx, List.length_cons]

/-- A coin made at a height that fits in an `int` keeps it. -/
theorem Coin.fields_ofTxOut (out : CTxOut) {nHeight : Nat} (hheight : nHeight < 2 ^ 31)
    (fCoinBase : Bool) : Coin.fields (some (Coin.ofTxOut out nHeight fCoinBase)) = (out, nHeight, fCoinBase) := by
  simp only [Coin.fields, Coin.ofTxOut, UInt32.toNat_ofNat', Prod.mk.injEq, true_and, and_true]
  omega

/-- A block whose transactions after the first are not coinbases, admissible at `coins`, leaves
the undo records its run makes as the records that take it back to `coins`. -/
theorem Undoes_blockUndoRecords {nHeight : Nat} : ∀ (vtx : List CTransaction) {coins before : CoinsDB}
    {items : List (CTransaction × Option CTxUndo)},
    (∀ tx ∈ vtx, tx.IsCoinBase = false) → BlockAdmissible txHash nHeight coins vtx →
    Undoes txHash nHeight coins items before →
    Undoes txHash nHeight (blockCoins txHash nHeight coins vtx)
      ((vtx.zip ((blockUndoRecords txHash nHeight coins vtx).map some)).reverse ++ items) before
  | [], _, _, _, _, _, hundo => hundo
  | tx :: vtx, coins, before, items, hcb, hadm, hundo => by
    have hstep : Undoes txHash nHeight (UpdateCoinsMap txHash coins tx nHeight)
        ((tx, some (txUndoOf coins tx)) :: items) before :=
      ⟨coins, rfl, hadm.1, ⟨hcb tx (by simp), rfl, hadm.2.1 (hcb tx (by simp))⟩, hundo⟩
    have hrest := Undoes_blockUndoRecords vtx (fun t ht => hcb t (List.mem_cons_of_mem tx ht))
      hadm.2.2 hstep
    simpa [blockCoins, blockUndoRecords] using hrest

end Abstract

/-! ## Connecting -/

section Connect

variable {db : CoinsDB} {txHash : CTransaction → Uint256}

/-- The input loop of `UpdateCoins` on distinct unspent inputs: each coin moved into the undo
record, each input spent. -/
theorem foldlM_spendInput : ∀ (txins : List CTxIn) {view : CCoinsViewCache} {coins : CoinsDB}
    (acc : List (Option Coin)), view.Shows db coins → (txins.map (·.prevout)).Nodup →
    (∀ txin ∈ txins, (coins txin.prevout).isSome) →
    ∃ view', txins.foldlM (spendInput db) (view, acc) =
        .ok (view', acc ++ txins.map (coins ·.prevout)) ∧
      view'.Shows db (FunMap.eraseAll coins (txins.map (·.prevout)))
  | [], view, _, acc, h, _, _ => ⟨view, by simp, h⟩
  | txin :: txins, view, coins, acc, h, hnd, hsome => by
    rw [List.map_cons, List.nodup_cons] at hnd
    rcases hs : SpendCoin db view.1 view.2 txin.prevout with ⟨⟨is_spent, coin⟩, cacheCoins, below⟩
    obtain ⟨hcoin, hspent, hshows⟩ := h.SpendCoin hs
    have hstep : spendInput db (view, acc) txin = .ok ((cacheCoins, below), acc ++ [coins txin.prevout]) := by
      simp [spendInput, hs, hspent (hsome txin (by simp)), Checked.assert, hcoin]
    -- the later inputs read the same coins after this spend
    have hsame : ∀ txin' ∈ txins, FunMap.erase coins txin.prevout txin'.prevout = coins txin'.prevout := by
      intro txin' hin
      exact FunMap.erase_other coins (fun he => hnd.1 (he ▸ List.mem_map_of_mem hin))
    obtain ⟨view', hfold, hshows'⟩ := foldlM_spendInput txins _ hshows hnd.2
      (fun txin' hin => (hsame txin' hin).symm ▸ hsome txin' (List.mem_cons_of_mem txin hin))
    refine ⟨view', ?_, hshows'⟩
    rw [List.foldlM_cons, hstep]
    simp only [Checked.ok_bind]
    rw [hfold, List.map_congr_left hsame]
    simp

/-- The output loop of `AddCoins` without `check`, where the spendable outputs have distinct
outpoints with nothing unspent: each spendable output stored. -/
theorem foldlM_addCoinsStep {txid : Uint256} {fCoinbase : Bool} {nHeight : Nat} :
    ∀ (xs : List (CTxOut × Nat)) {view : CCoinsViewCache} {coins : CoinsDB}, view.Shows db coins →
    ((spendableOutputs txid fCoinbase nHeight xs).map Prod.fst).Nodup →
    (∀ p ∈ spendableOutputs txid fCoinbase nHeight xs, coins p.1 = none) →
    ∃ view', xs.foldlM (addCoinsStep db txid fCoinbase nHeight false) view = .ok view' ∧
      view'.Shows db (FunMap.insertAll coins (spendableOutputs txid fCoinbase nHeight xs))
  | [], view, _, h, _, _ => ⟨view, rfl, h⟩
  | x :: xs, view, coins, h, hnd, hfree => by
    rw [spendableOutputs_cons] at hnd hfree ⊢
    obtain ⟨cacheCoins, hadd, hshows⟩ := h.AddCoin ⟨txid, UInt32.ofNat x.2⟩
      (Coin.ofTxOut x.1 nHeight fCoinbase) fCoinbase (fun hspend _ => by
        have hspend' : IsUnspendable x.1.scriptPubKey = false := hspend
        rw [if_neg (by simp [hspend'])] at hfree
        exact hfree _ List.mem_cons_self)
    have hstep : addCoinsStep db txid fCoinbase nHeight false view x = .ok (cacheCoins, view.2) := by
      simp [addCoinsStep, hadd]
    rw [List.foldlM_cons, hstep]
    simp only [Checked.ok_bind]
    by_cases hspend : IsUnspendable x.1.scriptPubKey = true
    · -- an unspendable output is not stored
      simp only [Coin.ofTxOut, hspend, if_true] at hshows hnd hfree ⊢
      exact foldlM_addCoinsStep xs hshows hnd hfree
    · simp only [Coin.ofTxOut, hspend, Bool.false_eq_true, if_false] at hshows hnd hfree ⊢
      rw [List.map_cons, List.nodup_cons] at hnd
      have hfree' : ∀ p ∈ spendableOutputs txid fCoinbase nHeight xs,
          FunMap.insert coins ⟨txid, UInt32.ofNat x.2⟩ (Coin.ofTxOut x.1 nHeight fCoinbase) p.1 = none := by
        intro p hp
        have hne : p.1 ≠ ⟨txid, UInt32.ofNat x.2⟩ := by
          intro he
          apply hnd.1
          simpa [he] using List.mem_map_of_mem (f := Prod.fst) hp
        rw [FunMap.insert_other _ _ hne]
        exact hfree p (List.mem_cons_of_mem _ hp)
      exact foldlM_addCoinsStep xs hshows hnd.2 hfree'

/-- `UpdateCoins` on an admissible transaction: no `assert` fails and no exception is thrown,
the record holds the coins the inputs spent, and the cache shows `UpdateCoinsMap`. -/
theorem UpdateCoins_spec {view : CCoinsViewCache} {coins : CoinsDB} (h : view.Shows db coins)
    {tx : CTransaction} {nHeight : Nat} (hadm : TxAdmissible txHash coins tx nHeight) :
    ∃ view', UpdateCoins db txHash view tx nHeight = .ok (view', txUndoOf coins tx) ∧
      view'.Shows db (UpdateCoinsMap txHash coins tx nHeight) := by
  obtain ⟨hinputs, hnd, hfree⟩ := hadm
  -- the inputs first: nothing for a coinbase
  obtain ⟨view₁, hshows₁, hrun⟩ : ∃ view₁ : CCoinsViewCache, view₁.Shows db (txSpent coins tx) ∧
      ∀ view', AddCoins db txHash view₁ tx nHeight false = .ok view' →
        UpdateCoins db txHash view tx nHeight = .ok (view', txUndoOf coins tx) := by
    cases hcb : tx.IsCoinBase with
    | true =>
      refine ⟨view, by simpa [txSpent, hcb] using h, fun view' hadd => ?_⟩
      simp [UpdateCoins, hcb, hadd, txUndoOf]
    | false =>
      obtain ⟨hnodup, hsome⟩ := hinputs hcb
      obtain ⟨view₁, hfold, hshows₁⟩ := foldlM_spendInput tx.vin [] h hnodup hsome
      refine ⟨view₁, by simpa [txSpent, hcb] using hshows₁, fun view' hadd => ?_⟩
      simp [UpdateCoins, hcb, hfold, hadd, txUndoOf]
  obtain ⟨view', hadd, hshows'⟩ := foldlM_addCoinsStep tx.vout.zipIdx hshows₁ hnd hfree
  exact ⟨view', hrun view' hadd, hshows'⟩

/-- The transaction loop of `ConnectBlock` past the coinbase, over transactions that are not
coinbases, admissible in order: each record kept. -/
theorem foldlM_connectStep {nHeight : Nat} : ∀ (vtx : List CTransaction) {k : Nat}
    {view : CCoinsViewCache} {coins : CoinsDB} (us : List CTxUndo), 0 < k → view.Shows db coins →
    TxsAdmissible txHash nHeight coins vtx →
    ∃ view', (vtx.zipIdx k).foldlM (connectStep db txHash nHeight) (view, ⟨us⟩) =
        .ok (view', ⟨us ++ blockUndoRecords txHash nHeight coins vtx⟩) ∧
      view'.Shows db (blockCoins txHash nHeight coins vtx)
  | [], _, view, _, us, _, h, _ => ⟨view, by simp [blockUndoRecords], h⟩
  | tx :: vtx, k, view, coins, us, hk, h, hadm => by
    obtain ⟨view₁, hupdate, hshows₁⟩ := UpdateCoins_spec h hadm.1
    have hstep : connectStep db txHash nHeight (view, ⟨us⟩) (tx, k) =
        .ok (view₁, ⟨us ++ [txUndoOf coins tx]⟩) := by
      simp [connectStep, hupdate, hk]
    obtain ⟨view', hfold, hshows'⟩ := foldlM_connectStep vtx (us ++ [txUndoOf coins tx])
      (Nat.succ_pos k) hshows₁ hadm.2
    refine ⟨view', ?_, hshows'⟩
    rw [List.zipIdx_cons, List.foldlM_cons, hstep]
    simp only [Checked.ok_bind]
    rw [hfold]
    simp [blockUndoRecords]

/-- `ConnectBlockCoins` on a block admissible in order: the cache shows `blockCoins`, and the
undo data holds a record for each transaction after the first. -/
theorem ConnectBlockCoins_spec {view : CCoinsViewCache} {coins : CoinsDB} (h : view.Shows db coins)
    {cb : CTransaction} {vtx : List CTransaction} {nHeight : Nat}
    (hadm : TxsAdmissible txHash nHeight coins (cb :: vtx)) :
    ∃ view', ConnectBlockCoins db txHash view (cb :: vtx) nHeight =
        .ok (view', ⟨blockUndoRecords txHash nHeight (UpdateCoinsMap txHash coins cb nHeight) vtx⟩) ∧
      view'.Shows db (blockCoins txHash nHeight coins (cb :: vtx)) := by
  obtain ⟨view₁, hupdate, hshows₁⟩ := UpdateCoins_spec h hadm.1
  -- the coinbase's record goes to `undoDummy`
  have hstep : connectStep db txHash nHeight (view, ⟨[]⟩) (cb, 0) = .ok (view₁, ⟨[]⟩) := by
    simp [connectStep, hupdate]
  obtain ⟨view', hfold, hshows'⟩ := foldlM_connectStep vtx [] Nat.one_pos hshows₁ hadm.2
  refine ⟨view', ?_, hshows'⟩
  rw [ConnectBlockCoins, List.zipIdx_cons, List.foldlM_cons, hstep]
  simp only [Checked.ok_bind]
  rw [hfold]
  rfl

end Connect

/-! ## Disconnecting -/

section Disconnect

variable {db : CoinsDB} {txHash : CTransaction → Uint256}

/-- The output check of `DisconnectBlock` over outputs the map shows as the block made them:
each one spent, and `fClean` kept. -/
theorem foldl_spendOutputStep {txid : Uint256} {is_coinbase : Bool} {nHeight : Nat}
    (hheight : nHeight < 2 ^ 31) : ∀ (xs : List (CTxOut × Nat)) (fClean : Bool)
    {view : CCoinsViewCache} {coins : CoinsDB}, view.Shows db coins →
    ((spendableOutputs txid is_coinbase nHeight xs).map Prod.fst).Nodup →
    (∀ p ∈ spendableOutputs txid is_coinbase nHeight xs, coins p.1 = some p.2) →
    (xs.foldl (spendOutputStep db txid is_coinbase nHeight) (fClean, view)).1 = fClean ∧
      (xs.foldl (spendOutputStep db txid is_coinbase nHeight) (fClean, view)).2.Shows db
        (FunMap.eraseAll coins ((spendableOutputs txid is_coinbase nHeight xs).map Prod.fst))
  | [], _, _, _, h, _, _ => ⟨rfl, h⟩
  | x :: xs, fClean, view, coins, h, hnd, hcoins => by
    rw [spendableOutputs_cons] at hnd hcoins ⊢
    rw [List.foldl_cons]
    by_cases hspend : IsUnspendable x.1.scriptPubKey = true
    · -- an unspendable output was never stored
      simp only [hspend, if_true] at hnd hcoins ⊢
      have hstep : spendOutputStep db txid is_coinbase nHeight (fClean, view) x = (fClean, view) := by
        simp [spendOutputStep, hspend]
      rw [hstep]
      exact foldl_spendOutputStep hheight xs fClean h hnd hcoins
    · simp only [hspend, Bool.false_eq_true, if_false] at hnd hcoins ⊢
      rw [List.map_cons, List.nodup_cons] at hnd
      have hcoin : coins ⟨txid, UInt32.ofNat x.2⟩ = some (Coin.ofTxOut x.1 nHeight is_coinbase) :=
        hcoins _ List.mem_cons_self
      rcases hs : SpendCoin db view.1 view.2 ⟨txid, UInt32.ofNat x.2⟩ with
        ⟨⟨is_spent, coin⟩, cacheCoins, below⟩
      obtain ⟨hmoved, hspent, hshows⟩ := h.SpendCoin hs
      rw [hcoin] at hmoved hspent
      -- the coin moved out is the block's output, so the check passes
      have hstep : spendOutputStep db txid is_coinbase nHeight (fClean, view) x =
          (fClean, (cacheCoins, below)) := by
        simp [spendOutputStep, hspend, hs, hmoved, hspent rfl, Coin.fields_ofTxOut _ hheight]
      rw [hstep]
      have hcoins' : ∀ p ∈ spendableOutputs txid is_coinbase nHeight xs,
          FunMap.erase coins ⟨txid, UInt32.ofNat x.2⟩ p.1 = some p.2 := by
        intro p hp
        have hne : p.1 ≠ ⟨txid, UInt32.ofNat x.2⟩ := by
          intro he
          apply hnd.1
          simpa [he] using List.mem_map_of_mem (f := Prod.fst) hp
        rw [FunMap.erase_other coins hne]
        exact hcoins p (List.mem_cons_of_mem _ hp)
      exact foldl_spendOutputStep hheight xs fClean hshows hnd.2 hcoins'

/-- The loop of `AccessByTxid` returns the first unspent output of `txid` it reaches and
changes no view. -/
theorem accessByTxidFrom_spec (txid : Uint256) : ∀ (fuel n : Nat) {view : CCoinsViewCache}
    {coins : CoinsDB}, view.Shows db coins →
    (accessByTxidFrom db txid fuel n view).1 =
        (List.range' n fuel).findSome? (fun i => coins ⟨txid, UInt32.ofNat i⟩) ∧
      (accessByTxidFrom db txid fuel n view).2.Shows db coins
  | 0, _, _, _, h => ⟨rfl, h⟩
  | fuel + 1, n, view, coins, h => by
    obtain ⟨halt, hshows⟩ := h.AccessCoin ⟨txid, UInt32.ofNat n⟩
    rcases ha : AccessCoin db view.1 view.2 ⟨txid, UInt32.ofNat n⟩ with ⟨alternate, cacheCoins, below⟩
    rw [ha] at halt hshows
    simp only at halt
    rw [List.range'_succ, List.findSome?_cons, ← halt]
    cases alternate with
    | some coin => exact ⟨by simp [accessByTxidFrom, ha], by simpa [accessByTxidFrom, ha] using hshows⟩
    | none =>
      obtain ⟨hrest, hshows'⟩ := accessByTxidFrom_spec txid fuel (n + 1) hshows
      exact ⟨by simp [accessByTxidFrom, ha, hrest], by simpa [accessByTxidFrom, ha] using hshows'⟩

/-- `ApplyTxInUndo` of a restorable coin where the map has none: the coin back, clean. -/
theorem ApplyTxInUndo_of_restorable {view : CCoinsViewCache} {coins : CoinsDB} (h : view.Shows db coins)
    {out : COutPoint} (hout : coins out = none) {coin : Coin} (hcoin : Restorable (some coin)) :
    ∃ view', ApplyTxInUndo db (some coin) view out = .ok (.DISCONNECT_OK, view') ∧
      view'.Shows db (FunMap.insert coins out coin) := by
  obtain ⟨hheight, hspend⟩ := hcoin
  obtain ⟨hhave, hshows₁⟩ := h.HaveCoin out
  rcases hh : view.HaveCoin db out with ⟨fHave, view₁⟩
  rw [hh, hout] at hhave
  rw [hh] at hshows₁
  obtain ⟨cacheCoins, hadd, hshows⟩ := hshows₁.AddCoin out coin false (fun _ _ => hout)
  rw [if_neg (by simp [hspend])] at hshows
  refine ⟨(cacheCoins, view₁.2), ?_, hshows⟩
  simp only at hhave
  simp [ApplyTxInUndo, hh, hhave, Coin.fields, hheight, hadd]

/-- `ApplyTxInUndo` of a record at height 0 when the map holds no output of the same
transaction below `MAX_OUTPUTS_PER_BLOCK`: `DISCONNECT_FAILED`. -/
theorem ApplyTxInUndo_of_height_zero {view : CCoinsViewCache} {coins : CoinsDB}
    (h : view.Shows db coins) (out : COutPoint) {undo : Option Coin} (hzero : (Coin.fields undo).2.1 = 0)
    (hnone : ∀ i < MAX_OUTPUTS_PER_BLOCK, coins ⟨out.hash, UInt32.ofNat i⟩ = none) :
    ∃ view', ApplyTxInUndo db undo view out = .ok (.DISCONNECT_FAILED, view') := by
  obtain ⟨-, hshows₁⟩ := h.HaveCoin out
  rcases hh : view.HaveCoin db out with ⟨fHave, view₁⟩
  rw [hh] at hshows₁
  have halt := (accessByTxidFrom_spec out.hash MAX_OUTPUTS_PER_BLOCK 0 hshows₁).1
  rcases ha : AccessByTxid db view₁ out.hash with ⟨alternate, view₂⟩
  have hnoalt : alternate = none := by
    rw [AccessByTxid] at ha
    rw [ha] at halt
    simp only at halt
    rw [halt, List.findSome?_eq_none_iff]
    intro i hi
    exact hnone i (by simpa using hi)
  refine ⟨view₂, ?_⟩
  simp [ApplyTxInUndo, hh, hzero, ha, hnoalt]

/-- The restore loop of `DisconnectBlock` over distinct outpoints the map has no coin at, with
restorable records of `coins₀`: each one put back, clean. -/
theorem restoreInputs_spec (coins₀ : CoinsDB) : ∀ (os : List COutPoint) {view : CCoinsViewCache}
    {coins : CoinsDB}, view.Shows db coins → os.Nodup → (∀ o ∈ os, coins o = none) →
    (∀ o ∈ os, Restorable (coins₀ o)) →
    ∃ view', restoreInputs db view (os.map fun o => (coins₀ o, o)) = .ok (some true, view') ∧
      view'.Shows db (fun k => if k ∈ os then coins₀ k else coins k)
  | [], view, _, h, _, _, _ => ⟨view, rfl, by simpa using h⟩
  | o :: os, view, coins, h, hnd, hfree, hrest => by
    rw [List.nodup_cons] at hnd
    have hrest₀ := hrest o List.mem_cons_self
    obtain ⟨coin, hcoin⟩ : ∃ coin, coins₀ o = some coin := by
      cases hc : coins₀ o with
      | none => rw [hc] at hrest₀; exact hrest₀.elim
      | some coin => exact ⟨coin, rfl⟩
    rw [hcoin] at hrest₀
    obtain ⟨view₁, happly, hshows₁⟩ := ApplyTxInUndo_of_restorable h (hfree o List.mem_cons_self) hrest₀
    -- the later outpoints are still free after this one is put back
    have hfree' : ∀ o' ∈ os, FunMap.insert coins o coin o' = none := by
      intro o' ho'
      rw [FunMap.insert_other coins coin (fun he => hnd.1 (by rw [← he]; exact ho'))]
      exact hfree o' (List.mem_cons_of_mem o ho')
    obtain ⟨view', hrestore, hshows'⟩ := restoreInputs_spec coins₀ os hshows₁ hnd.2 hfree'
      (fun o' ho' => hrest o' (List.mem_cons_of_mem o ho'))
    have hmap : (fun k => if k ∈ os then coins₀ k else FunMap.insert coins o coin k) =
        fun k => if k ∈ o :: os then coins₀ k else coins k := by
      funext k
      by_cases hk : k = o
      · subst hk
        simp [hnd.1, hcoin]
      · simp [hk]
    refine ⟨view', ?_, hmap ▸ hshows'⟩
    rw [List.map_cons, restoreInputs, hcoin, happly]
    simp [hrestore]

/-- The transaction loop of `DisconnectBlock` over records that take the map the cache shows
back to `before`: no exception, `fClean` kept, and the cache then shows `before`. -/
theorem disconnectTxs_spec {nHeight : Nat} (hheight : nHeight < 2 ^ 31) :
    ∀ (items : List (CTransaction × Option CTxUndo)) (fClean : Bool) {after before : CoinsDB}
    {view : CCoinsViewCache}, view.Shows db after → Undoes txHash nHeight after items before →
    ∃ view', disconnectTxs db txHash nHeight items fClean view =
        .ok (if fClean then .DISCONNECT_OK else .DISCONNECT_UNCLEAN, view') ∧ view'.Shows db before
  | [], _, _, _, view, h, hundo => ⟨view, rfl, hundo ▸ h⟩
  | (tx, txundo) :: items, fClean, after, before, view, h, hundo => by
    obtain ⟨coins, rfl, ⟨hinputs, hnd, hfree⟩, hrecord, hundo'⟩ := hundo
    -- the outputs first: spending them leaves the map with the inputs spent
    have hcoins : ∀ p ∈ txOutputs txHash tx nHeight, UpdateCoinsMap txHash coins tx nHeight p.1 = some p.2 :=
      fun p hp => FunMap.insertAll_of_mem _ hnd hp
    obtain ⟨hclean, hshows₁⟩ := foldl_spendOutputStep hheight tx.vout.zipIdx fClean h hnd hcoins
    have hspent : FunMap.eraseAll (UpdateCoinsMap txHash coins tx nHeight)
        ((spendableOutputs (txHash tx) tx.IsCoinBase nHeight tx.vout.zipIdx).map Prod.fst) =
          txSpent coins tx := by
      rw [UpdateCoinsMap, txOutputs, FunMap.eraseAll_insertAll, FunMap.eraseAll_of_forall_none]
      intro k hk
      obtain ⟨p, hp, rfl⟩ := List.mem_map.1 hk
      exact hfree p hp
    rcases hout : tx.vout.zipIdx.foldl (spendOutputStep db (txHash tx) tx.IsCoinBase nHeight) (fClean, view)
      with ⟨fClean₁, view₁⟩
    rw [hout] at hclean hshows₁
    simp only at hclean hshows₁
    subst hclean
    cases txundo with
    | none =>
      -- the coinbase spent nothing
      have hcb : tx.IsCoinBase = true := hrecord
      have hback : txSpent coins tx = coins := by simp [txSpent, hcb]
      rw [hspent, hback] at hshows₁
      obtain ⟨view', hrun, hshows'⟩ := disconnectTxs_spec hheight items fClean₁ hshows₁ hundo'
      exact ⟨view', by simp [disconnectTxs, hout, hrun], hshows'⟩
    | some txundo =>
      obtain ⟨hcb, rfl, hrestorable⟩ := hrecord
      obtain ⟨hnodup, hsome⟩ := hinputs hcb
      have hspent' : txSpent coins tx = FunMap.eraseAll coins (tx.vin.map (·.prevout)) := by
        simp [txSpent, hcb]
      rw [hspent, hspent'] at hshows₁
      -- the records are the inputs' coins, put back from the last input
      have hlist : ((txUndoOf coins tx).vprevout.zip (tx.vin.map (·.prevout))).reverse =
          (tx.vin.map (·.prevout)).reverse.map fun o => (coins o, o) := by
        simp [txUndoOf, hcb, List.zip_map', List.map_reverse]
      have hlen : (txUndoOf coins tx).vprevout.length = tx.vin.length := by simp [txUndoOf, hcb]
      obtain ⟨view₂, hrestore, hshows₂⟩ := restoreInputs_spec coins (tx.vin.map (·.prevout)).reverse
        hshows₁ (List.nodup_reverse.2 hnodup)
        (fun o ho => by rw [FunMap.eraseAll_apply, if_pos (List.mem_reverse.1 ho)])
        (fun o ho => by
          obtain ⟨txin, hin, rfl⟩ := List.mem_map.1 (List.mem_reverse.1 ho)
          exact hrestorable txin hin)
      have hback : (fun k => if k ∈ (tx.vin.map (·.prevout)).reverse then coins k
          else FunMap.eraseAll coins (tx.vin.map (·.prevout)) k) = coins := by
        funext k
        rw [FunMap.eraseAll_apply]
        by_cases hk : k ∈ tx.vin.map (·.prevout) <;> simp [hk]
      rw [hback] at hshows₂
      obtain ⟨view', hrun, hshows'⟩ := disconnectTxs_spec hheight items (fClean₁ && true) hshows₂ hundo'
      refine ⟨view', ?_, hshows'⟩
      simp only [Bool.and_true] at hrun
      simp only [disconnectTxs, hout, hlen, hlist, hrestore, bne_self_eq_false, Bool.false_eq_true,
        if_false, Checked.ok_bind, Bool.and_true, hrun]

end Disconnect

/-! ## The round trip -/

/-- Connecting a block whose first transaction is its only coinbase, admissible in order at
the map the cache shows and spending only restorable coins, then disconnecting it with the
undo data the connection made: no `assert` fails and no exception is thrown,
`DisconnectBlock` returns `DISCONNECT_OK`, and the cache shows the map it showed before, with
the flag discipline kept. -/
theorem DisconnectBlock_undoes_ConnectBlockCoins (db : CoinsDB) (txHash : CTransaction → Uint256)
    (view : CCoinsViewCache) (hinv : StackInv db (view.1 :: view.2)) (cb : CTransaction)
    (vtx : List CTransaction) (nHeight : Nat) (hheight : nHeight < 2 ^ 31)
    (hcb : cb.IsCoinBase = true) (hvtx : ∀ tx ∈ vtx, tx.IsCoinBase = false)
    (hadm : BlockAdmissible txHash nHeight (stackView db (view.1 :: view.2)) (cb :: vtx)) :
    ∃ view₁ blockUndo, ConnectBlockCoins db txHash view (cb :: vtx) nHeight = .ok (view₁, blockUndo) ∧
      ∃ view₂, DisconnectBlock db txHash (cb :: vtx) blockUndo nHeight view₁ =
          .ok (.DISCONNECT_OK, view₂) ∧
        StackInv db (view₂.1 :: view₂.2) ∧
        stackView db (view₂.1 :: view₂.2) = stackView db (view.1 :: view.2) := by
  have h : view.Shows db (stackView db (view.1 :: view.2)) := ⟨hinv, rfl⟩
  obtain ⟨view₁, hconnect, hshows₁⟩ := ConnectBlockCoins_spec h hadm.txsAdmissible
  refine ⟨view₁, _, hconnect, ?_⟩
  -- the records, the last first, take the block's map back: the coinbase's last of all
  have hfirst : Undoes txHash nHeight (UpdateCoinsMap txHash (stackView db (view.1 :: view.2)) cb nHeight)
      [(cb, none)] (stackView db (view.1 :: view.2)) := ⟨_, rfl, hadm.1, hcb, rfl⟩
  have hundo := Undoes_blockUndoRecords txHash vtx hvtx hadm.2.2 hfirst
  obtain ⟨view₂, hdis, hshows₂⟩ := disconnectTxs_spec hheight _ true hshows₁ hundo
  refine ⟨view₂, ?_, hshows₂⟩
  have hlen := length_blockUndoRecords txHash nHeight
    (UpdateCoinsMap txHash (stackView db (view.1 :: view.2)) cb nHeight) vtx
  have hitems : ((cb :: vtx).zip (none :: (blockUndoRecords txHash nHeight
      (UpdateCoinsMap txHash (stackView db (view.1 :: view.2)) cb nHeight) vtx).map some)).reverse =
      (vtx.zip ((blockUndoRecords txHash nHeight
        (UpdateCoinsMap txHash (stackView db (view.1 :: view.2)) cb nHeight) vtx).map some)).reverse ++
        [(cb, none)] := by
    rw [List.zip_cons_cons, List.reverse_cons]
  rw [DisconnectBlock, if_neg (by simp [hlen]), hitems, hdis]
  rfl

/-- A coinbase paying to a script and a transaction spending a coin of the database, at
height 5, over a cache on the database. -/
theorem DisconnectBlock_undoes_ConnectBlockCoins_spend_and_create :
    let db : CoinsDB := fun o =>
      if o = ⟨Uint256.zero, 0⟩ then some ⟨⟨50, [0x51]⟩, 1, false, by decide⟩ else none
    let txHash : CTransaction → Uint256 := fun tx =>
      if tx.IsCoinBase then ⟨1, by decide⟩ else ⟨2, by decide⟩
    let cb : CTransaction := ⟨[⟨⟨Uint256.zero, 0xffffffff⟩, []⟩], [⟨50, [0x51]⟩]⟩
    let vtx : List CTransaction := [⟨[⟨⟨Uint256.zero, 0⟩, []⟩], [⟨40, [0x51]⟩, ⟨0, [OP_RETURN]⟩]⟩]
    StackInv db [∅] ∧ 5 < 2 ^ 31 ∧ cb.IsCoinBase = true ∧ (∀ tx ∈ vtx, tx.IsCoinBase = false) ∧
      BlockAdmissible txHash 5 (stackView db [∅]) (cb :: vtx) ∧
      ∃ view₁ blockUndo, ConnectBlockCoins db txHash (∅, []) (cb :: vtx) 5 = .ok (view₁, blockUndo) ∧
        ∃ view₂, DisconnectBlock db txHash (cb :: vtx) blockUndo 5 view₁ = .ok (.DISCONNECT_OK, view₂) ∧
          StackInv db (view₂.1 :: view₂.2) ∧ stackView db (view₂.1 :: view₂.2) = stackView db [∅] := by
  intro db txHash cb vtx
  have hinv : StackInv db [∅] := ⟨LayerInv_empty _, trivial⟩
  have hcb : cb.IsCoinBase = true := by decide
  have hvtx : ∀ tx ∈ vtx, tx.IsCoinBase = false := by decide
  have hadm : BlockAdmissible txHash 5 (stackView db [∅]) (cb :: vtx) := by decide +kernel
  exact ⟨hinv, by norm_num, hcb, hvtx, hadm,
    DisconnectBlock_undoes_ConnectBlockCoins db txHash (∅, []) hinv cb vtx 5 (by norm_num) hcb hvtx hadm⟩

/-- A coin at height 0, spent by a block whose outputs are all unspendable: the block is
admissible and the connection goes through, but the undo record of height 0 is taken for the
old format without heights, no other output of the spent coin's transaction is unspent, and
`DisconnectBlock` returns `DISCONNECT_FAILED`, whatever the transaction hashes. -/
theorem DisconnectBlock_failed_of_height_zero (txHash : CTransaction → Uint256) :
    let coin : Coin := ⟨⟨50, [0x51]⟩, 0, false, by decide⟩
    let db : CoinsDB := fun o => if o = ⟨Uint256.zero, 0⟩ then some coin else none
    let cb : CTransaction := ⟨[⟨⟨Uint256.zero, 0xffffffff⟩, []⟩], [⟨0, [OP_RETURN]⟩]⟩
    let tx : CTransaction := ⟨[⟨⟨Uint256.zero, 0⟩, []⟩], [⟨50, [OP_RETURN]⟩]⟩
    cb.IsCoinBase = true ∧ tx.IsCoinBase = false ∧ TxsAdmissible txHash 1 db [cb, tx] ∧
      ∃ view₁ blockUndo, ConnectBlockCoins db txHash (∅, []) [cb, tx] 1 = .ok (view₁, blockUndo) ∧
        ∃ view₂, DisconnectBlock db txHash [cb, tx] blockUndo 1 view₁ = .ok (.DISCONNECT_FAILED, view₂) := by
  intro coin db cb tx
  have hret : IsUnspendable [OP_RETURN] = true := by decide
  have hcb : cb.IsCoinBase = true := by decide
  have htx : tx.IsCoinBase = false := by decide
  have hcbout : txOutputs txHash cb 1 = [] := by simp [txOutputs, spendableOutputs, cb, hret]
  have htxout : txOutputs txHash tx 1 = [] := by simp [txOutputs, spendableOutputs, tx, hret]
  -- the coinbase adds nothing, the transaction spends the one coin
  have hM₁ : UpdateCoinsMap txHash db cb 1 = db := by simp [UpdateCoinsMap, hcbout, txSpent, hcb]
  have hM₂ : UpdateCoinsMap txHash db tx 1 = fun _ => none := by
    funext k
    simp [UpdateCoinsMap, htxout, txSpent, htx, FunMap.eraseAll_apply, db, tx]
  have hadm : TxsAdmissible txHash 1 db [cb, tx] := by
    refine ⟨by simp [TxAdmissible, hcbout, hcb], ?_, trivial⟩
    rw [hM₁]
    simp [TxAdmissible, htxout, db, tx]
  have hbase : StackInv db [] := trivial
  obtain ⟨view₁, hconnect, hshows₁⟩ := ConnectBlockCoins_spec (CCoinsViewCache.shows_empty hbase) hadm
  have hdb : stackView db [] = db := rfl
  rw [hdb] at hconnect hshows₁
  have hempty : blockCoins txHash 1 db [cb, tx] = fun _ => none := by
    change UpdateCoinsMap txHash (UpdateCoinsMap txHash db cb 1) tx 1 = _
    rw [hM₁, hM₂]
  rw [hempty] at hshows₁
  have hundo : blockUndoRecords txHash 1 (UpdateCoinsMap txHash db cb 1) [tx] = [⟨[some coin]⟩] := by
    rw [hM₁]
    simp [blockUndoRecords, txUndoOf, htx, db, tx]
  rw [hundo] at hconnect
  -- the undo record has height 0 and nothing else of its transaction is left
  obtain ⟨view₂, happly⟩ := ApplyTxInUndo_of_height_zero hshows₁ ⟨Uint256.zero, 0⟩
    (show (Coin.fields (some coin)).2.1 = 0 from rfl) (fun _ _ => rfl)
  have hrestore : restoreInputs db view₁ [(some coin, ⟨Uint256.zero, 0⟩)] = .ok (none, view₂) := by
    simp [restoreInputs, happly]
  -- the transaction's only output is unspendable: nothing to spend back
  have hout : tx.vout.zipIdx.foldl (spendOutputStep db (txHash tx) tx.IsCoinBase 1) (true, view₁) =
      (true, view₁) := by
    change spendOutputStep db (txHash tx) tx.IsCoinBase 1 (true, view₁) (⟨50, [OP_RETURN]⟩, 0) = _
    simp [spendOutputStep, hret]
  have hitems : ([cb, tx].zip (none :: ([⟨[some coin]⟩] : List CTxUndo).map some)).reverse =
      [(tx, some ⟨[some coin]⟩), (cb, none)] := rfl
  have hlist : (([some coin] : List (Option Coin)).zip (tx.vin.map (·.prevout))).reverse =
      [(some coin, ⟨Uint256.zero, 0⟩)] := rfl
  have hlen : ([some coin] : List (Option Coin)).length = tx.vin.length := rfl
  refine ⟨hcb, htx, hadm, view₁, _, hconnect, view₂, ?_⟩
  rw [DisconnectBlock, if_neg (by decide), hitems]
  simp only [disconnectTxs, hout, hlen, bne_self_eq_false, Bool.false_eq_true, if_false, hlist,
    hrestore, Checked.ok_bind]
  rfl
/-- `DisconnectBlock_failed_of_height_zero` with every transaction hashing to zero. -/
theorem DisconnectBlock_fails_on_height_zero :
    let txHash : CTransaction → Uint256 := fun _ => Uint256.zero
    let coin : Coin := ⟨⟨50, [0x51]⟩, 0, false, by decide⟩
    let db : CoinsDB := fun o => if o = ⟨Uint256.zero, 0⟩ then some coin else none
    let cb : CTransaction := ⟨[⟨⟨Uint256.zero, 0xffffffff⟩, []⟩], [⟨0, [OP_RETURN]⟩]⟩
    let tx : CTransaction := ⟨[⟨⟨Uint256.zero, 0⟩, []⟩], [⟨50, [OP_RETURN]⟩]⟩
    cb.IsCoinBase = true ∧ tx.IsCoinBase = false ∧ TxsAdmissible txHash 1 db [cb, tx] ∧
      ∃ view₁ blockUndo, ConnectBlockCoins db txHash (∅, []) [cb, tx] 1 = .ok (view₁, blockUndo) ∧
        ∃ view₂, DisconnectBlock db txHash [cb, tx] blockUndo 1 view₁ = .ok (.DISCONNECT_FAILED, view₂) :=
  DisconnectBlock_failed_of_height_zero fun _ => Uint256.zero

end Cascoin
