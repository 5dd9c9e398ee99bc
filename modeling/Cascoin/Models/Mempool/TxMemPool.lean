import Cascoin.Core.Checked
import Cascoin.Core.Closure
import Cascoin.Models.BeeNFT.MemoryManager
import Cascoin.Models.Consensus.TxVerify

/-!
# The mempool

`CTxMemPool` of `txmempool.cpp` keeps the transactions it accepts in `mapTx`, each with the
totals of its package: the count, virtual size and modified fees of the transaction and all its
in-pool ancestors, with their sigop cost, and the count, size and modified fees of the
transaction and all its in-pool descendants. `mapLinks` stores every entry's in-pool parents and
children, `mapNextTx` which in-pool transaction spends an outpoint, and `mapDeltas` the fee
deltas of `PrioritiseTransaction`. The operations update the totals step by step along the
ancestors and descendants they compute from the links.

A `txiter` is the hash `mapTx`'s hashed index is keyed on: `mapTx` is the set of those hashes
and `entry` the entry stored under each; `mapNextTx` stores the spender by its hash. A
`setEntries` is a `Finset` visited in the order of its comparator, the `memcmp` order of the
hashes (`forEach`), and a loop over a set (`setAncestors`, `setDescendants`) that modifies each
member is one `modify` per member.

The fee estimator, the memory usage counters, `vTxHashes` and the notification signals are
left out: no total reads them. So are the limits of `CalculateMemPoolAncestors`: every call
modelled here passes `nNoLimit`, which no `uint64_t` total exceeds.

The totals are integers; `int(nSigOpCostWithAncestors)`, the one narrowing the code makes, is
`Int.bmod` to 32 bits. `UpdateDescendantState` and `UpdateAncestorState` `assert` that the totals
they move stay positive, so every operation that calls them is a `Checked` computation. Each
also has the state it leaves when its `assert`s hold, a plain function named with `State`
(`RemoveStagedState`), which the closed forms of the later modules describe.
-/

namespace Cascoin

namespace Mempool

open Checked

/-- `nBytesPerSigOp`, the `-bytespersigop` setting, at its default `DEFAULT_BYTES_PER_SIGOP`. -/
def nBytesPerSigOp : Int := 20

/-- `GetVirtualTransactionSize(nWeight, nSigOpCost)` of `policy.cpp`. -/
def GetVirtualTransactionSize (nWeight nSigOpCost : Int) : Int :=
  (max nWeight (nSigOpCost * nBytesPerSigOp) + WITNESS_SCALE_FACTOR - 1) / WITNESS_SCALE_FACTOR

/-- `CTxMemPoolEntry`: the transaction, what it was admitted with, and its package totals. The
lock points, the entry height and `spendsCoinbase` are read by no modelled operation. -/
structure CTxMemPoolEntry where
  tx : CTransaction
  nFee : Int
  /-- `GetTransactionWeight(*tx)`, taken when the entry is built. -/
  nTxWeight : Int
  nTime : Int
  sigOpCost : Int
  feeDelta : Int
  nCountWithDescendants : Int
  nSizeWithDescendants : Int
  nModFeesWithDescendants : Int
  nCountWithAncestors : Int
  nSizeWithAncestors : Int
  nModFeesWithAncestors : Int
  nSigOpCostWithAncestors : Int

namespace CTxMemPoolEntry

/-- `GetTxSize()`: the virtual size. -/
def GetTxSize (e : CTxMemPoolEntry) : Int := GetVirtualTransactionSize e.nTxWeight e.sigOpCost

/-- `GetModifiedFee()`: the fee and the delta `PrioritiseTransaction` gave it. -/
def GetModifiedFee (e : CTxMemPoolEntry) : Int := e.nFee + e.feeDelta

/-- The constructor `CTxMemPoolEntry(_tx, _nFee, _nTime, ..., _sigOpsCost, lp)`: a package of
the transaction alone. -/
def create (tx : CTransaction) (nFee nTime nTxWeight sigOpCost : Int) : CTxMemPoolEntry :=
  let size := GetVirtualTransactionSize nTxWeight sigOpCost
  { tx, nFee, nTxWeight, nTime, sigOpCost, feeDelta := 0,
    nCountWithDescendants := 1, nSizeWithDescendants := size, nModFeesWithDescendants := nFee,
    nCountWithAncestors := 1, nSizeWithAncestors := size, nModFeesWithAncestors := nFee,
    nSigOpCostWithAncestors := sigOpCost }

/-- `UpdateFeeDelta(newFeeDelta)`. -/
def UpdateFeeDelta (e : CTxMemPoolEntry) (newFeeDelta : Int) : CTxMemPoolEntry :=
  { e with
    nModFeesWithDescendants := e.nModFeesWithDescendants + (newFeeDelta - e.feeDelta)
    nModFeesWithAncestors := e.nModFeesWithAncestors + (newFeeDelta - e.feeDelta)
    feeDelta := newFeeDelta }

/-- The totals `UpdateDescendantState(modifySize, modifyFee, modifyCount)` leaves. -/
def addDescendantState (e : CTxMemPoolEntry) (modifySize modifyFee modifyCount : Int) :
    CTxMemPoolEntry :=
  { e with
    nSizeWithDescendants := e.nSizeWithDescendants + modifySize
    nModFeesWithDescendants := e.nModFeesWithDescendants + modifyFee
    nCountWithDescendants := e.nCountWithDescendants + modifyCount }

/-- The totals `UpdateAncestorState(modifySize, modifyFee, modifyCount, modifySigOps)` leaves. -/
def addAncestorState (e : CTxMemPoolEntry) (modifySize modifyFee modifyCount modifySigOps : Int) :
    CTxMemPoolEntry :=
  { e with
    nSizeWithAncestors := e.nSizeWithAncestors + modifySize
    nModFeesWithAncestors := e.nModFeesWithAncestors + modifyFee
    nCountWithAncestors := e.nCountWithAncestors + modifyCount
    nSigOpCostWithAncestors := e.nSigOpCostWithAncestors + modifySigOps }

section Fields

variable (e : CTxMemPoolEntry)

@[simp] theorem addDescendantState_tx (s f c : Int) : (e.addDescendantState s f c).tx = e.tx :=
  rfl

@[simp] theorem addDescendantState_GetTxSize (s f c : Int) :
    (e.addDescendantState s f c).GetTxSize = e.GetTxSize := rfl

@[simp] theorem addDescendantState_GetModifiedFee (s f c : Int) :
    (e.addDescendantState s f c).GetModifiedFee = e.GetModifiedFee := rfl

@[simp] theorem addDescendantState_sigOpCost (s f c : Int) :
    (e.addDescendantState s f c).sigOpCost = e.sigOpCost := rfl

@[simp] theorem addDescendantState_feeDelta (s f c : Int) :
    (e.addDescendantState s f c).feeDelta = e.feeDelta := rfl

@[simp] theorem addDescendantState_nTime (s f c : Int) :
    (e.addDescendantState s f c).nTime = e.nTime := rfl

@[simp] theorem addAncestorState_tx (s f c o : Int) : (e.addAncestorState s f c o).tx = e.tx :=
  rfl

@[simp] theorem addAncestorState_GetTxSize (s f c o : Int) :
    (e.addAncestorState s f c o).GetTxSize = e.GetTxSize := rfl

@[simp] theorem addAncestorState_GetModifiedFee (s f c o : Int) :
    (e.addAncestorState s f c o).GetModifiedFee = e.GetModifiedFee := rfl

@[simp] theorem addAncestorState_sigOpCost (s f c o : Int) :
    (e.addAncestorState s f c o).sigOpCost = e.sigOpCost := rfl

@[simp] theorem addAncestorState_feeDelta (s f c o : Int) :
    (e.addAncestorState s f c o).feeDelta = e.feeDelta := rfl

@[simp] theorem addAncestorState_nTime (s f c o : Int) :
    (e.addAncestorState s f c o).nTime = e.nTime := rfl

@[simp] theorem UpdateFeeDelta_tx (d : Int) : (e.UpdateFeeDelta d).tx = e.tx := rfl

@[simp] theorem UpdateFeeDelta_GetTxSize (d : Int) : (e.UpdateFeeDelta d).GetTxSize = e.GetTxSize :=
  rfl

@[simp] theorem UpdateFeeDelta_sigOpCost (d : Int) : (e.UpdateFeeDelta d).sigOpCost = e.sigOpCost :=
  rfl

@[simp] theorem UpdateFeeDelta_feeDelta (d : Int) : (e.UpdateFeeDelta d).feeDelta = d := rfl

@[simp] theorem UpdateFeeDelta_nTime (d : Int) : (e.UpdateFeeDelta d).nTime = e.nTime := rfl

end Fields

section Asserted

variable {ε : Type}

/-- `UpdateDescendantState(modifySize, modifyFee, modifyCount)`: the size and the count with
descendants must stay positive. -/
def UpdateDescendantState (e : CTxMemPoolEntry) (modifySize modifyFee modifyCount : Int) :
    Checked ε CTxMemPoolEntry := do
  let e := { e with nSizeWithDescendants := e.nSizeWithDescendants + modifySize }
  Checked.assert (0 < e.nSizeWithDescendants)
  let e := { e with
    nModFeesWithDescendants := e.nModFeesWithDescendants + modifyFee
    nCountWithDescendants := e.nCountWithDescendants + modifyCount }
  Checked.assert (0 < e.nCountWithDescendants)
  pure e

/-- `UpdateAncestorState(modifySize, modifyFee, modifyCount, modifySigOps)`: the size and the
count with ancestors must stay positive, and the sigop cost with ancestors, cast to `int`, no
less than zero. -/
def UpdateAncestorState (e : CTxMemPoolEntry) (modifySize modifyFee modifyCount modifySigOps : Int) :
    Checked ε CTxMemPoolEntry := do
  let e := { e with nSizeWithAncestors := e.nSizeWithAncestors + modifySize }
  Checked.assert (0 < e.nSizeWithAncestors)
  let e := { e with
    nModFeesWithAncestors := e.nModFeesWithAncestors + modifyFee
    nCountWithAncestors := e.nCountWithAncestors + modifyCount }
  Checked.assert (0 < e.nCountWithAncestors)
  let e := { e with nSigOpCostWithAncestors := e.nSigOpCostWithAncestors + modifySigOps }
  Checked.assert (0 ≤ Int.bmod e.nSigOpCostWithAncestors (2 ^ 32))
  pure e

end Asserted

end CTxMemPoolEntry

/-- `CTxMemPool::TxLinks`: the in-pool parents and children of an entry. -/
structure TxLinks where
  parents : Finset Uint256
  children : Finset Uint256

/-- `TxLinks()`. -/
def TxLinks.empty : TxLinks := ⟨∅, ∅⟩

/-- The state of a `CTxMemPool` the package totals depend on. -/
structure CTxMemPool where
  /-- The hashes of the entries of `mapTx`. -/
  mapTx : Finset Uint256
  /-- The entry stored under each hash of `mapTx`. -/
  entry : Uint256 → CTxMemPoolEntry
  mapLinks : Uint256 → TxLinks
  /-- The in-pool transaction spending an outpoint, by its hash. -/
  mapNextTx : COutPoint → Option Uint256
  mapDeltas : Uint256 → Option Int
  totalTxSize : Int

/-! ## Sets of entries -/

/-- `CompareIteratorByHash`: entries compare by their hashes, and `uint256`s by `memcmp`. -/
def memcmpLE (a b : Uint256) : Prop := a.memcmpKey ≤ b.memcmpKey

instance : DecidableRel memcmpLE := fun a b => inferInstanceAs (Decidable (a.memcmpKey ≤ b.memcmpKey))

instance : IsTrans Uint256 memcmpLE := ⟨fun _ _ _ => Nat.le_trans⟩

instance : Std.Antisymm memcmpLE := ⟨fun _ _ hab hba => Uint256.memcmpKey_injective (Nat.le_antisymm hab hba)⟩

instance : Std.Total memcmpLE := ⟨fun a b => Nat.le_total a.memcmpKey b.memcmpKey⟩

/-- `for (txiter it : s) body`: the members in the set's order. -/
def forEach {σ : Type} (s : Finset Uint256) (body : Uint256 → σ → σ) (init : σ) : σ :=
  (s.sort memcmpLE).foldl (fun acc it => body it acc) init

/-- `for (txiter it : s) body` with a body that may fail an `assert`. -/
def forEachM {ε σ : Type} (s : Finset Uint256) (body : Uint256 → σ → Checked ε σ) (init : σ) :
    Checked ε σ :=
  (s.sort memcmpLE).foldlM (fun acc it => body it acc) init

/-- `*s.begin()`, when the set is not empty. -/
def setBegin (s : Finset Uint256) : Option Uint256 := (s.sort memcmpLE).head?

namespace CTxMemPool

/-- An empty pool (`_clear()`). -/
def empty : CTxMemPool where
  mapTx := ∅
  entry := fun _ => CTxMemPoolEntry.create ⟨[], []⟩ 0 0 0 0
  mapLinks := fun _ => TxLinks.empty
  mapNextTx := fun _ => none
  mapDeltas := fun _ => none
  totalTxSize := 0

variable (pool : CTxMemPool)

/-- `mapTx.modify(it, f)`. -/
def modify (it : Uint256) (f : CTxMemPoolEntry → CTxMemPoolEntry) : CTxMemPool :=
  { pool with entry := Function.update pool.entry it (f (pool.entry it)) }

/-- `mapTx.modify(it, f)` with a modifier that may fail an `assert`. -/
def modifyM {ε : Type} (it : Uint256) (f : CTxMemPoolEntry → Checked ε CTxMemPoolEntry) :
    Checked ε CTxMemPool := do
  let e ← f (pool.entry it)
  pure { pool with entry := Function.update pool.entry it e }

/-- `GetMemPoolParents(entry)`. -/
def GetMemPoolParents (it : Uint256) : Finset Uint256 := (pool.mapLinks it).parents

/-- `GetMemPoolChildren(entry)`. -/
def GetMemPoolChildren (it : Uint256) : Finset Uint256 := (pool.mapLinks it).children

/-- `UpdateChild(entry, child, add)`. -/
def UpdateChild (it child : Uint256) (add : Bool) : CTxMemPool :=
  let links := pool.mapLinks it
  let links := { links with
    children := if add then insert child links.children else links.children.erase child }
  { pool with mapLinks := Function.update pool.mapLinks it links }

/-- `UpdateParent(entry, parent, add)`. -/
def UpdateParent (it parent : Uint256) (add : Bool) : CTxMemPool :=
  let links := pool.mapLinks it
  let links := { links with
    parents := if add then insert parent links.parents else links.parents.erase parent }
  { pool with mapLinks := Function.update pool.mapLinks it links }

/-- `ClearPrioritisation(hash)`. -/
def ClearPrioritisation (hash : Uint256) : CTxMemPool :=
  { pool with mapDeltas := Function.update pool.mapDeltas hash none }

@[simp] theorem modify_mapTx (it : Uint256) (f : CTxMemPoolEntry → CTxMemPoolEntry) :
    (pool.modify it f).mapTx = pool.mapTx := rfl

@[simp] theorem modify_mapLinks (it : Uint256) (f : CTxMemPoolEntry → CTxMemPoolEntry) :
    (pool.modify it f).mapLinks = pool.mapLinks := rfl

@[simp] theorem modify_mapNextTx (it : Uint256) (f : CTxMemPoolEntry → CTxMemPoolEntry) :
    (pool.modify it f).mapNextTx = pool.mapNextTx := rfl

@[simp] theorem modify_mapDeltas (it : Uint256) (f : CTxMemPoolEntry → CTxMemPoolEntry) :
    (pool.modify it f).mapDeltas = pool.mapDeltas := rfl

@[simp] theorem modify_totalTxSize (it : Uint256) (f : CTxMemPoolEntry → CTxMemPoolEntry) :
    (pool.modify it f).totalTxSize = pool.totalTxSize := rfl

@[simp] theorem UpdateChild_mapTx (it child : Uint256) (add : Bool) :
    (pool.UpdateChild it child add).mapTx = pool.mapTx := rfl

@[simp] theorem UpdateChild_entry (it child : Uint256) (add : Bool) :
    (pool.UpdateChild it child add).entry = pool.entry := rfl

@[simp] theorem UpdateChild_mapNextTx (it child : Uint256) (add : Bool) :
    (pool.UpdateChild it child add).mapNextTx = pool.mapNextTx := rfl

@[simp] theorem UpdateChild_mapDeltas (it child : Uint256) (add : Bool) :
    (pool.UpdateChild it child add).mapDeltas = pool.mapDeltas := rfl

@[simp] theorem UpdateChild_totalTxSize (it child : Uint256) (add : Bool) :
    (pool.UpdateChild it child add).totalTxSize = pool.totalTxSize := rfl

@[simp] theorem UpdateParent_mapTx (it parent : Uint256) (add : Bool) :
    (pool.UpdateParent it parent add).mapTx = pool.mapTx := rfl

@[simp] theorem UpdateParent_entry (it parent : Uint256) (add : Bool) :
    (pool.UpdateParent it parent add).entry = pool.entry := rfl

@[simp] theorem UpdateParent_mapNextTx (it parent : Uint256) (add : Bool) :
    (pool.UpdateParent it parent add).mapNextTx = pool.mapNextTx := rfl

@[simp] theorem UpdateParent_mapDeltas (it parent : Uint256) (add : Bool) :
    (pool.UpdateParent it parent add).mapDeltas = pool.mapDeltas := rfl

@[simp] theorem UpdateParent_totalTxSize (it parent : Uint256) (add : Bool) :
    (pool.UpdateParent it parent add).totalTxSize = pool.totalTxSize := rfl

@[simp] theorem ClearPrioritisation_mapTx (hash : Uint256) :
    (pool.ClearPrioritisation hash).mapTx = pool.mapTx := rfl

@[simp] theorem ClearPrioritisation_entry (hash : Uint256) :
    (pool.ClearPrioritisation hash).entry = pool.entry := rfl

@[simp] theorem ClearPrioritisation_mapLinks (hash : Uint256) :
    (pool.ClearPrioritisation hash).mapLinks = pool.mapLinks := rfl

@[simp] theorem ClearPrioritisation_mapNextTx (hash : Uint256) :
    (pool.ClearPrioritisation hash).mapNextTx = pool.mapNextTx := rfl

@[simp] theorem ClearPrioritisation_totalTxSize (hash : Uint256) :
    (pool.ClearPrioritisation hash).totalTxSize = pool.totalTxSize := rfl

/-! ## Ancestors and descendants -/

/-- `CalculateDescendants(entryit, setDescendants)`: `setDescendants` and every entry the
children links reach from `entryit`. Each round adds an entry of `mapTx` to the set, so the loop
runs at most `mapTx.size()` rounds. -/
def CalculateDescendants (entryit : Uint256) (setDescendants : Finset Uint256) : Finset Uint256 :=
  Closure.walk pool.GetMemPoolChildren setBegin pool.mapTx.card
    (if entryit ∈ setDescendants then ∅ else {entryit}) setDescendants

/-- The parents `CalculateMemPoolAncestors` starts from: with `fSearchForParents` the entries of
`mapTx` an input spends from, otherwise the stored parents of the entry's own iterator. -/
def ancestorSearchStart (e : CTxMemPoolEntry) (it : Uint256) (fSearchForParents : Bool) :
    Finset Uint256 :=
  if fSearchForParents then (e.tx.vin.map (·.prevout.hash)).toFinset.filter (· ∈ pool.mapTx)
  else pool.GetMemPoolParents it

/-- `CalculateMemPoolAncestors(entry, setAncestors, nNoLimit, nNoLimit, nNoLimit, nNoLimit,
dummy, fSearchForParents)` into an empty `setAncestors`: every entry the parent links reach. -/
def CalculateMemPoolAncestors (e : CTxMemPoolEntry) (it : Uint256) (fSearchForParents : Bool) :
    Finset Uint256 :=
  Closure.walk pool.GetMemPoolParents setBegin pool.mapTx.card
    (pool.ancestorSearchStart e it fSearchForParents) ∅

/-- The state `UpdateAncestorsOf(add, it, setAncestors)` leaves. -/
def UpdateAncestorsOfState (add : Bool) (it : Uint256) (setAncestors : Finset Uint256) : CTxMemPool :=
  let parentIters := pool.GetMemPoolParents it
  let pool := forEach parentIters (fun piter pool => pool.UpdateChild piter it add) pool
  let updateCount : Int := if add then 1 else -1
  let updateSize := updateCount * (pool.entry it).GetTxSize
  let updateFee := updateCount * (pool.entry it).GetModifiedFee
  forEach setAncestors (fun ancestorIt pool =>
    pool.modify ancestorIt (·.addDescendantState updateSize updateFee updateCount)) pool

/-- The state `UpdateEntryForAncestors(it, setAncestors)` leaves. -/
def UpdateEntryForAncestorsState (it : Uint256) (setAncestors : Finset Uint256) : CTxMemPool :=
  let updateCount : Int := setAncestors.card
  let updateSize := ∑ a ∈ setAncestors, (pool.entry a).GetTxSize
  let updateFee := ∑ a ∈ setAncestors, (pool.entry a).GetModifiedFee
  let updateSigOpsCost := ∑ a ∈ setAncestors, (pool.entry a).sigOpCost
  pool.modify it (·.addAncestorState updateSize updateFee updateCount updateSigOpsCost)

/-- `UpdateChildrenForRemoval(it)`. -/
def UpdateChildrenForRemoval (it : Uint256) : CTxMemPool :=
  forEach (pool.GetMemPoolChildren it) (fun updateIt pool => pool.UpdateParent updateIt it false) pool

/-- The state the body of the first loop of `UpdateForRemoveFromMempool` leaves: the
descendants of `removeIt` stop counting it among their ancestors. -/
def removeFromDescendantsState (removeIt : Uint256) : CTxMemPool :=
  let setDescendants := (pool.CalculateDescendants removeIt ∅).erase removeIt
  let modifySize := -(pool.entry removeIt).GetTxSize
  let modifyFee := -(pool.entry removeIt).GetModifiedFee
  let modifySigOps := -(pool.entry removeIt).sigOpCost
  forEach setDescendants (fun dit pool =>
    pool.modify dit (·.addAncestorState modifySize modifyFee (-1) modifySigOps)) pool

/-- The state `UpdateForRemoveFromMempool(entriesToRemove, updateDescendants)` leaves. -/
def UpdateForRemoveFromMempoolState (entriesToRemove : Finset Uint256) (updateDescendants : Bool) :
    CTxMemPool :=
  let pool := if updateDescendants then
      forEach entriesToRemove (fun removeIt pool => pool.removeFromDescendantsState removeIt) pool
    else pool
  let pool := forEach entriesToRemove (fun removeIt pool =>
    let setAncestors := pool.CalculateMemPoolAncestors (pool.entry removeIt) removeIt false
    pool.UpdateAncestorsOfState false removeIt setAncestors) pool
  forEach entriesToRemove (fun removeIt pool => pool.UpdateChildrenForRemoval removeIt) pool

/-! ## Adding and removing entries -/

/-- `removeUnchecked(it, reason)`. -/
def removeUnchecked (it : Uint256) : CTxMemPool :=
  { pool with
    mapNextTx := (pool.entry it).tx.vin.foldl
      (fun m (txin : CTxIn) => Function.update m txin.prevout none)
      pool.mapNextTx
    totalTxSize := pool.totalTxSize - (pool.entry it).GetTxSize
    mapLinks := Function.update pool.mapLinks it TxLinks.empty
    mapTx := pool.mapTx.erase it }

/-- The state `RemoveStaged(stage, updateDescendants, reason)` leaves. -/
def RemoveStagedState (stage : Finset Uint256) (updateDescendants : Bool) : CTxMemPool :=
  forEach stage (fun it pool => pool.removeUnchecked it)
    (pool.UpdateForRemoveFromMempoolState stage updateDescendants)

/-- The step of `addUnchecked` that gives the new entry the fee delta `mapDeltas` holds for it. -/
def applyDeltas (hash : Uint256) : CTxMemPool :=
  match pool.mapDeltas hash with
  | some delta => if delta ≠ 0 then pool.modify hash (·.UpdateFeeDelta delta) else pool
  | none => pool

/-- The steps of `addUnchecked` before the totals: the entry joins `mapTx` and `mapLinks`, takes
its fee delta, records its spends and links to its in-pool parents. -/
def addUncheckedLinks (hash : Uint256) (e : CTxMemPoolEntry) : CTxMemPool :=
  -- `mapTx.insert` and `mapLinks.insert` add nothing under a hash already there
  let pool := if hash ∈ pool.mapTx then pool else
    { pool with
      mapTx := insert hash pool.mapTx
      entry := Function.update pool.entry hash e
      mapLinks := Function.update pool.mapLinks hash TxLinks.empty }
  let pool := pool.applyDeltas hash
  let tx := (pool.entry hash).tx
  -- `mapNextTx.insert` keeps a spender already recorded
  let pool := { pool with
    mapNextTx := tx.vin.foldl (fun m (txin : CTxIn) =>
      if m txin.prevout = none then Function.update m txin.prevout (some hash) else m) pool.mapNextTx }
  let setParentTransactions := (tx.vin.map (·.prevout.hash)).toFinset
  forEach setParentTransactions (fun phash pool =>
    if phash ∈ pool.mapTx then pool.UpdateParent hash phash true else pool) pool

/-- The state `addUnchecked(hash, entry, setAncestors, validFeeEstimate)` leaves. -/
def addUncheckedAncestorsState (hash : Uint256) (e : CTxMemPoolEntry) (setAncestors : Finset Uint256) :
    CTxMemPool :=
  let pool := pool.addUncheckedLinks hash e
  let pool := pool.UpdateAncestorsOfState true hash setAncestors
  let pool := pool.UpdateEntryForAncestorsState hash setAncestors
  { pool with totalTxSize := pool.totalTxSize + e.GetTxSize }

/-- The state `addUnchecked(hash, entry, validFeeEstimate)` leaves: the ancestors computed from
the inputs. -/
def addUncheckedState (hash : Uint256) (e : CTxMemPoolEntry) : CTxMemPool :=
  pool.addUncheckedAncestorsState hash e (pool.CalculateMemPoolAncestors e hash true)

/-- The state `PrioritiseTransaction(hash, nFeeDelta)` leaves. -/
def PrioritiseTransactionState (hash : Uint256) (nFeeDelta : Int) : CTxMemPool :=
  let delta := (pool.mapDeltas hash).getD 0 + nFeeDelta
  let pool := { pool with mapDeltas := Function.update pool.mapDeltas hash (some delta) }
  if hash ∈ pool.mapTx then
    let pool := pool.modify hash (·.UpdateFeeDelta delta)
    let setAncestors := pool.CalculateMemPoolAncestors (pool.entry hash) hash false
    let pool := forEach setAncestors (fun ancestorIt pool =>
      pool.modify ancestorIt (·.addDescendantState 0 nFeeDelta 0)) pool
    let setDescendants := (pool.CalculateDescendants hash ∅).erase hash
    forEach setDescendants (fun descendantIt pool =>
      pool.modify descendantIt (·.addAncestorState 0 nFeeDelta 0 0)) pool
  else pool

/-- The state `Expire(time)` leaves: the pool without the entries older than `time` and their
descendants, and how many entries went. -/
def ExpireState (time : Int) : CTxMemPool × ℕ :=
  let toremove := pool.mapTx.filter fun it => (pool.entry it).nTime < time
  let stage := forEach toremove (fun removeit stage => pool.CalculateDescendants removeit stage) ∅
  (pool.RemoveStagedState stage false, stage.card)

/-! ## The operations with their `assert`s -/

section Asserted

variable {ε : Type}

/-- `UpdateAncestorsOf(add, it, setAncestors)`. -/
def UpdateAncestorsOf (add : Bool) (it : Uint256) (setAncestors : Finset Uint256) :
    Checked ε CTxMemPool :=
  let parentIters := pool.GetMemPoolParents it
  let pool := forEach parentIters (fun piter pool => pool.UpdateChild piter it add) pool
  let updateCount : Int := if add then 1 else -1
  let updateSize := updateCount * (pool.entry it).GetTxSize
  let updateFee := updateCount * (pool.entry it).GetModifiedFee
  forEachM setAncestors (fun ancestorIt pool =>
    pool.modifyM ancestorIt (·.UpdateDescendantState updateSize updateFee updateCount)) pool

/-- `UpdateEntryForAncestors(it, setAncestors)`. -/
def UpdateEntryForAncestors (it : Uint256) (setAncestors : Finset Uint256) : Checked ε CTxMemPool :=
  let updateCount : Int := setAncestors.card
  let updateSize := ∑ a ∈ setAncestors, (pool.entry a).GetTxSize
  let updateFee := ∑ a ∈ setAncestors, (pool.entry a).GetModifiedFee
  let updateSigOpsCost := ∑ a ∈ setAncestors, (pool.entry a).sigOpCost
  pool.modifyM it (·.UpdateAncestorState updateSize updateFee updateCount updateSigOpsCost)

/-- The body of the first loop of `UpdateForRemoveFromMempool`. -/
def removeFromDescendants (removeIt : Uint256) : Checked ε CTxMemPool :=
  let setDescendants := (pool.CalculateDescendants removeIt ∅).erase removeIt
  let modifySize := -(pool.entry removeIt).GetTxSize
  let modifyFee := -(pool.entry removeIt).GetModifiedFee
  let modifySigOps := -(pool.entry removeIt).sigOpCost
  forEachM setDescendants (fun dit pool =>
    pool.modifyM dit (·.UpdateAncestorState modifySize modifyFee (-1) modifySigOps)) pool

/-- `UpdateForRemoveFromMempool(entriesToRemove, updateDescendants)`. -/
def UpdateForRemoveFromMempool (entriesToRemove : Finset Uint256) (updateDescendants : Bool) :
    Checked ε CTxMemPool := do
  let pool ← if updateDescendants then
      forEachM entriesToRemove (fun removeIt pool => pool.removeFromDescendants removeIt) pool
    else pure pool
  let pool ← forEachM entriesToRemove (fun removeIt pool =>
    let setAncestors := pool.CalculateMemPoolAncestors (pool.entry removeIt) removeIt false
    pool.UpdateAncestorsOf false removeIt setAncestors) pool
  pure (forEach entriesToRemove (fun removeIt pool => pool.UpdateChildrenForRemoval removeIt) pool)

/-- `RemoveStaged(stage, updateDescendants, reason)`. -/
def RemoveStaged (stage : Finset Uint256) (updateDescendants : Bool) : Checked ε CTxMemPool := do
  let pool ← pool.UpdateForRemoveFromMempool stage updateDescendants
  pure (forEach stage (fun it pool => pool.removeUnchecked it) pool)

/-- `addUnchecked(hash, entry, setAncestors, validFeeEstimate)`. -/
def addUncheckedAncestors (hash : Uint256) (e : CTxMemPoolEntry) (setAncestors : Finset Uint256) :
    Checked ε CTxMemPool := do
  let pool := pool.addUncheckedLinks hash e
  let pool ← pool.UpdateAncestorsOf true hash setAncestors
  let pool ← pool.UpdateEntryForAncestors hash setAncestors
  pure { pool with totalTxSize := pool.totalTxSize + e.GetTxSize }

/-- `addUnchecked(hash, entry, validFeeEstimate)`: the ancestors computed from the inputs. -/
def addUnchecked (hash : Uint256) (e : CTxMemPoolEntry) : Checked ε CTxMemPool :=
  pool.addUncheckedAncestors hash e (pool.CalculateMemPoolAncestors e hash true)

/-- `PrioritiseTransaction(hash, nFeeDelta)`. -/
def PrioritiseTransaction (hash : Uint256) (nFeeDelta : Int) : Checked ε CTxMemPool := do
  let delta := (pool.mapDeltas hash).getD 0 + nFeeDelta
  let pool := { pool with mapDeltas := Function.update pool.mapDeltas hash (some delta) }
  if hash ∈ pool.mapTx then
    let pool := pool.modify hash (·.UpdateFeeDelta delta)
    let setAncestors := pool.CalculateMemPoolAncestors (pool.entry hash) hash false
    let pool ← forEachM setAncestors (fun ancestorIt pool =>
      pool.modifyM ancestorIt (·.UpdateDescendantState 0 nFeeDelta 0)) pool
    let setDescendants := (pool.CalculateDescendants hash ∅).erase hash
    forEachM setDescendants (fun descendantIt pool =>
      pool.modifyM descendantIt (·.UpdateAncestorState 0 nFeeDelta 0 0)) pool
  else pure pool

/-- `Expire(time)`: the pool without the entries older than `time` and their descendants, and
how many entries went. -/
def Expire (time : Int) : Checked ε (CTxMemPool × ℕ) := do
  let toremove := pool.mapTx.filter fun it => (pool.entry it).nTime < time
  let stage := forEach toremove (fun removeit stage => pool.CalculateDescendants removeit stage) ∅
  let pool ← pool.RemoveStaged stage false
  pure (pool, stage.card)

end Asserted

section Hash

variable {ε : Type} (txHash : CTransaction → Uint256)

/-- The loop of `removeRecursive` over the outputs of a transaction not in the pool: the entries
`mapNextTx` records as spending them. -/
def spendersOf (hash : Uint256) (nOutputs : ℕ) : Checked ε (Finset Uint256) :=
  (List.range nOutputs).foldlM (fun txToRemove i =>
    match pool.mapNextTx ⟨hash, UInt32.ofNat i⟩ with
    | none => pure txToRemove
    | some nextit => do
      assert (nextit ∈ pool.mapTx)
      pure (insert nextit txToRemove)) ∅

/-- `removeRecursive(origTx, reason)`: the transaction and its descendants, or, when it is not
in the pool, the in-pool spenders of its outputs and their descendants. -/
def removeRecursive (origTx : CTransaction) : Checked ε CTxMemPool := do
  let hash := txHash origTx
  let txToRemove ← if hash ∈ pool.mapTx then pure {hash} else
    pool.spendersOf hash origTx.vout.length
  let setAllRemoves := forEach txToRemove (fun it setAllRemoves =>
    pool.CalculateDescendants it setAllRemoves) ∅
  pool.RemoveStaged setAllRemoves false

/-- `removeConflicts(tx)`: the spenders of the transaction's inputs other than itself, with
their descendants. -/
def removeConflicts (tx : CTransaction) : Checked ε CTxMemPool :=
  tx.vin.foldlM (fun pool (txin : CTxIn) =>
    match pool.mapNextTx txin.prevout with
    | some conflict =>
      let txConflict := (pool.entry conflict).tx
      if txHash txConflict ≠ txHash tx then
        (pool.ClearPrioritisation (txHash txConflict)).removeRecursive txHash txConflict
      else pure pool
    | none => pure pool) pool

/-- `removeForBlock(vtx, nBlockHeight)`: each transaction of the block leaves the pool on its
own, its descendants staying, then its conflicts go. -/
def removeForBlock (vtx : List CTransaction) : Checked ε CTxMemPool :=
  vtx.foldlM (fun pool tx => do
    let hash := txHash tx
    let pool ← if hash ∈ pool.mapTx then pool.RemoveStaged {hash} true else pure pool
    let pool ← pool.removeConflicts txHash tx
    pure (pool.ClearPrioritisation hash)) pool

end Hash

end CTxMemPool

end Mempool

end Cascoin
