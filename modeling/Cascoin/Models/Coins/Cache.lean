import Cascoin.Models.Chain.Node

/-!
# The UTXO cache

`CCoinsViewCache` keeps a map of cache entries over a base view. An entry holds
a coin, spent once `Coin::Clear()` has run, and two flags: `DIRTY` when it may
differ from the base, `FRESH` when the base has no unspent coin there. Caches
stack: each one's base is the cache below it, the lowest one's the coins
database. `FetchCoin` copies what the base returns into the cache, `AddCoin`
and `SpendCoin` change the cache, and `Flush` merges the cache into its base
(`BatchWrite`) and empties it.

The flag discipline (`StackInv`) says that an entry which is not `DIRTY` shows
what the view below it shows, and that a `FRESH` entry's outpoint has no unspent
coin below. Every operation keeps it as long as coins are added and spent on the
top cache; reads, `Uncache` and `Flush` may go to any cache. Then the top cache
shows a single map, the database with the additions and spends applied in
order, no `std::logic_error` is thrown, and flushing the caches from the top down
leaves that map in the database (`runOps_refines`). A spend on a lower cache
breaks the discipline: a cache above it that has read the coin keeps returning
it (`GetCoin_stale_after_lower_spend`).

The memory accounting (`cachedCoinsUsage`) and the best block hash are left out:
no coin that a read returns depends on them.
-/

namespace Cascoin

deriving instance DecidableEq for Coin

/-- `MAX_SCRIPT_SIZE`. -/
def MAX_SCRIPT_SIZE : Nat := 10000

/-- `CScript::IsUnspendable`: an `OP_RETURN` script, or one longer than `MAX_SCRIPT_SIZE`. -/
def IsUnspendable (script : CScript) : Bool :=
  script.head? == some OP_RETURN || script.length > MAX_SCRIPT_SIZE

/-- `CCoinsCacheEntry`: the coin, `none` once spent, and the `DIRTY` and `FRESH` flags. -/
structure CCoinsCacheEntry where
  coin : Option Coin
  dirty : Bool
  fresh : Bool
  deriving DecidableEq

/-- `CCoinsMap`: the cache entries by outpoint, in the order the map iterates them. -/
abbrev CCoinsMap := AList fun _ : COutPoint => CCoinsCacheEntry

/-- The coins database (`CCoinsViewDB`): the unspent coin stored at each outpoint. -/
abbrev CoinsDB := COutPoint → Option Coin

/-! ## Views -/

/-- What a cache shows at an outpoint, from its entry there, over the view `base` below it. -/
def entryView (base : CoinsDB) (outpoint : COutPoint) : Option CCoinsCacheEntry → Option Coin
  | some entry => entry.coin
  | none => base outpoint

/-- What the top of a stack of caches (`layers`, the top first) shows over the database. -/
def stackView (db : CoinsDB) : List CCoinsMap → CoinsDB
  | [] => db
  | cacheCoins :: below => fun outpoint =>
    entryView (stackView db below) outpoint (cacheCoins.lookup outpoint)

/-! ## One cache -/

/-- `FetchCoin(outpoint)` of the cache `cacheCoins` over the caches `below`, whose
`GetCoin` is `baseGetCoin`: the entry, the cache and the caches below, with what the
read copied into them. -/
def FetchCoin (below : List CCoinsMap) (baseGetCoin : COutPoint → Option Coin × List CCoinsMap)
    (cacheCoins : CCoinsMap) (outpoint : COutPoint) :
    Option CCoinsCacheEntry × CCoinsMap × List CCoinsMap :=
  match cacheCoins.lookup outpoint with
  | some entry => (some entry, cacheCoins, below)
  | none =>
    match baseGetCoin outpoint with
    | (none, below) => (none, cacheCoins, below)
    | (some coin, below) =>
      -- a base returns unspent coins only, so the `FRESH` branch for a spent one is dead
      let entry : CCoinsCacheEntry := ⟨some coin, false, false⟩
      (some entry, cacheCoins.insert outpoint entry, below)

section Stack

variable (db : CoinsDB)

/-- `GetCoin(outpoint, coin)` on the top of the stack: the coin when it is unspent, and the
caches with what `FetchCoin` copied into them. Under the caches, `CCoinsViewDB::GetCoin`. -/
def GetCoin : List CCoinsMap → COutPoint → Option Coin × List CCoinsMap
  | [], outpoint => (db outpoint, [])
  | cacheCoins :: below, outpoint =>
    let (it, cacheCoins, below) := FetchCoin below (GetCoin below) cacheCoins outpoint
    (it.bind CCoinsCacheEntry.coin, cacheCoins :: below)

/-- `HaveCoin(outpoint)` on the top of the stack. Under the caches, `CCoinsViewDB::HaveCoin`. -/
def HaveCoin : List CCoinsMap → COutPoint → Bool × List CCoinsMap
  | [], outpoint => ((db outpoint).isSome, [])
  | cacheCoins :: below, outpoint =>
    let (it, cacheCoins, below) := FetchCoin below (GetCoin db below) cacheCoins outpoint
    ((it.bind CCoinsCacheEntry.coin).isSome, cacheCoins :: below)

/-- `AccessCoin(outpoint)` on a cache: the entry's coin, or the spent `coinEmpty`. -/
def AccessCoin (cacheCoins : CCoinsMap) (below : List CCoinsMap) (outpoint : COutPoint) :
    Option Coin × CCoinsMap × List CCoinsMap :=
  let (it, cacheCoins, below) := FetchCoin below (GetCoin db below) cacheCoins outpoint
  (it.bind CCoinsCacheEntry.coin, cacheCoins, below)

/-- `SpendCoin(outpoint, moveout)` on a cache: whether it had an entry and the coin moved
out, the cache and the caches below. -/
def SpendCoin (cacheCoins : CCoinsMap) (below : List CCoinsMap) (outpoint : COutPoint) :
    (Bool × Option Coin) × CCoinsMap × List CCoinsMap :=
  match FetchCoin below (GetCoin db below) cacheCoins outpoint with
  | (none, cacheCoins, below) => ((false, none), cacheCoins, below)
  | (some entry, cacheCoins, below) =>
    if entry.fresh then ((true, entry.coin), cacheCoins.erase outpoint, below)
    else ((true, entry.coin), cacheCoins.insert outpoint { entry with coin := none, dirty := true },
      below)

end Stack

/-- `AddCoin(outpoint, coin, possible_overwrite)` on a cache. The model's coins are unspent,
as the `assert` at the start requires. -/
def AddCoin (cacheCoins : CCoinsMap) (outpoint : COutPoint) (coin : Coin)
    (possible_overwrite : Bool) : Checked String CCoinsMap :=
  if IsUnspendable coin.out.scriptPubKey then pure cacheCoins
  else
    -- `emplace` finds the entry or makes a spent one without flags
    let it := (cacheCoins.lookup outpoint).getD ⟨none, false, false⟩
    if !possible_overwrite && it.coin.isSome then
      Checked.raise "Adding new coin that replaces non-pruned entry"
    else
      let fresh := !possible_overwrite && !it.dirty
      pure (cacheCoins.insert outpoint ⟨some coin, true, it.fresh || fresh⟩)

/-- `Uncache(outpoint)`: drop an entry without flags. -/
def Uncache (cacheCoins : CCoinsMap) (outpoint : COutPoint) : CCoinsMap :=
  match cacheCoins.lookup outpoint with
  | some entry => if !entry.dirty && !entry.fresh then cacheCoins.erase outpoint else cacheCoins
  | none => cacheCoins

/-- One pass of the loop of `CCoinsViewCache::BatchWrite`: the child's entry `entry` at
`outpoint` merged into `cacheCoins`. -/
def batchWriteEntry (cacheCoins : CCoinsMap) (outpoint : COutPoint) (entry : CCoinsCacheEntry) :
    Checked String CCoinsMap :=
  if !entry.dirty then pure cacheCoins
  else
    match cacheCoins.lookup outpoint with
    | none =>
      if entry.fresh && entry.coin.isNone then pure cacheCoins
      else pure (cacheCoins.insert outpoint ⟨entry.coin, true, entry.fresh⟩)
    | some itUs =>
      if entry.fresh && itUs.coin.isSome then
        Checked.raise "FRESH flag misapplied to cache entry for base transaction with spendable outputs"
      else if itUs.fresh && entry.coin.isNone then pure (cacheCoins.erase outpoint)
      else pure (cacheCoins.insert outpoint { itUs with coin := entry.coin, dirty := true })

/-- `CCoinsViewCache::BatchWrite(mapCoins, hashBlock)`. -/
def BatchWrite (cacheCoins mapCoins : CCoinsMap) : Checked String CCoinsMap :=
  mapCoins.entries.foldlM (fun cacheCoins x => batchWriteEntry cacheCoins x.1 x.2) cacheCoins

/-- `CCoinsViewDB::BatchWrite(mapCoins, hashBlock)`: a dirty entry is written, or erased when
spent. -/
def CCoinsViewDB.BatchWrite (db : CoinsDB) (mapCoins : CCoinsMap) : CoinsDB :=
  mapCoins.entries.foldl (fun db x => if x.2.dirty then Function.update db x.1 x.2.coin else db) db

/-- `Flush()` of the cache `cacheCoins` into its base, the top of `below` or the database:
the database and the stack from the flushed cache down, the flushed cache emptied. -/
def Flush (db : CoinsDB) (cacheCoins : CCoinsMap) :
    List CCoinsMap → Checked String (CoinsDB × List CCoinsMap)
  | [] => pure (CCoinsViewDB.BatchWrite db cacheCoins, [∅])
  | base :: rest => do
    let base ← BatchWrite base cacheCoins
    pure (db, ∅ :: base :: rest)

/-! ## Runs -/

/-- An operation on a stack of caches; `layer` counts the caches from the top. -/
inductive CoinsOp where
  | AddCoin (layer : Nat) (outpoint : COutPoint) (coin : Coin) (possible_overwrite : Bool)
  | SpendCoin (layer : Nat) (outpoint : COutPoint)
  | GetCoin (layer : Nat) (outpoint : COutPoint)
  | HaveCoin (layer : Nat) (outpoint : COutPoint)
  | AccessCoin (layer : Nat) (outpoint : COutPoint)
  | Uncache (layer : Nat) (outpoint : COutPoint)
  | Flush (layer : Nat)

/-- The cache an operation goes to. -/
def CoinsOp.layer : CoinsOp → Nat
  | .AddCoin layer .. | .SpendCoin layer _ | .GetCoin layer _ | .HaveCoin layer _
  | .AccessCoin layer _ | .Uncache layer _ | .Flush layer => layer

/-- An operation on the cache `cacheCoins` over the caches `below`: the database and the
stack from that cache down. -/
def applyAt (db : CoinsDB) (cacheCoins : CCoinsMap) (below : List CCoinsMap) :
    CoinsOp → Checked String (CoinsDB × List CCoinsMap)
  | .AddCoin _ outpoint coin possible_overwrite => do
    let cacheCoins ← AddCoin cacheCoins outpoint coin possible_overwrite
    pure (db, cacheCoins :: below)
  | .SpendCoin _ outpoint =>
    let (_, cacheCoins, below) := SpendCoin db cacheCoins below outpoint
    pure (db, cacheCoins :: below)
  | .GetCoin _ outpoint => pure (db, (GetCoin db (cacheCoins :: below) outpoint).2)
  | .HaveCoin _ outpoint => pure (db, (HaveCoin db (cacheCoins :: below) outpoint).2)
  | .AccessCoin _ outpoint =>
    let (_, cacheCoins, below) := AccessCoin db cacheCoins below outpoint
    pure (db, cacheCoins :: below)
  | .Uncache _ outpoint => pure (db, Uncache cacheCoins outpoint :: below)
  | .Flush _ => Flush db cacheCoins below

/-- One operation on the stack: the caches above the one it names stay as they are, and an
operation naming no cache does nothing. -/
def applyOp (state : CoinsDB × List CCoinsMap) (op : CoinsOp) :
    Checked String (CoinsDB × List CCoinsMap) :=
  match state.2.drop op.layer with
  | [] => pure state
  | cacheCoins :: below => do
    let (db, lower) ← applyAt state.1 cacheCoins below op
    pure (db, state.2.take op.layer ++ lower)

/-- The operations in order. -/
def runOps (db : CoinsDB) (layers : List CCoinsMap) (ops : List CoinsOp) :
    Checked String (CoinsDB × List CCoinsMap) :=
  ops.foldlM applyOp (db, layers)

/-- The single map the operations act on: an addition stores the coin unless its script is
unspendable, a spend removes it, the others change nothing. -/
def abstractStep (coins : CoinsDB) : CoinsOp → CoinsDB
  | .AddCoin _ outpoint coin _ =>
    if IsUnspendable coin.out.scriptPubKey then coins else Function.update coins outpoint (some coin)
  | .SpendCoin _ outpoint => Function.update coins outpoint none
  | _ => coins

/-- The map after the operations in order. -/
def abstractCoins (coins : CoinsDB) (ops : List CoinsOp) : CoinsDB := ops.foldl abstractStep coins

/-- Coins are added and spent on the top cache, and an addition claims no overwrite only
where the map has no unspent coin. -/
def OpAdmissible (coins : CoinsDB) : CoinsOp → Prop
  | .AddCoin layer outpoint _ possible_overwrite =>
    layer = 0 ∧ (possible_overwrite = false → coins outpoint = none)
  | .SpendCoin layer _ => layer = 0
  | _ => True

/-- Every operation of the run is admissible where it runs. -/
def Admissible : CoinsDB → List CoinsOp → Prop
  | _, [] => True
  | coins, op :: ops => OpAdmissible coins op ∧ Admissible (abstractStep coins op) ops

instance OpAdmissible.instDecidable (coins : CoinsDB) : (op : CoinsOp) →
    Decidable (OpAdmissible coins op)
  | .AddCoin .. => inferInstanceAs (Decidable (_ ∧ _))
  | .SpendCoin .. => inferInstanceAs (Decidable (_ = _))
  | .GetCoin .. | .HaveCoin .. | .AccessCoin .. | .Uncache .. | .Flush .. => isTrue trivial

instance Admissible.instDecidable : (coins : CoinsDB) → (ops : List CoinsOp) →
    Decidable (Admissible coins ops)
  | _, [] => isTrue trivial
  | coins, op :: ops =>
    have := Admissible.instDecidable (abstractStep coins op) ops
    inferInstanceAs (Decidable (_ ∧ _))

/-! ## The flag discipline -/

/-- The flag discipline at one outpoint of a cache over the view `base` below it: an entry
that is not `DIRTY` shows what `base` shows, and a `FRESH` one has no unspent coin below. -/
def EntryInv (base : CoinsDB) (outpoint : COutPoint) : Option CCoinsCacheEntry → Prop
  | some entry =>
    (entry.dirty = false → entry.coin = base outpoint) ∧ (entry.fresh = true → base outpoint = none)
  | none => True

/-- The flag discipline of a whole cache over the view `base` below it. -/
def LayerInv (base : CoinsDB) (cacheCoins : CCoinsMap) : Prop :=
  ∀ outpoint, EntryInv base outpoint (cacheCoins.lookup outpoint)

/-- The flag discipline of every cache of a stack over the view below it. -/
def StackInv (db : CoinsDB) : List CCoinsMap → Prop
  | [] => True
  | cacheCoins :: below => LayerInv (stackView db below) cacheCoins ∧ StackInv db below

/-! ## Views of stacks -/

/-- A stack over a stack: the lower caches' view is the base of the upper ones. -/
theorem stackView_append (db : CoinsDB) (upper lower : List CCoinsMap) :
    stackView db (upper ++ lower) = stackView (stackView db lower) upper := by
  induction upper with
  | nil => rfl
  | cons cacheCoins upper ih =>
    funext outpoint
    simp only [List.cons_append, stackView, ih]

theorem StackInv_append (db : CoinsDB) (upper lower : List CCoinsMap) :
    StackInv db (upper ++ lower) ↔ StackInv (stackView db lower) upper ∧ StackInv db lower := by
  induction upper with
  | nil => simp [StackInv]
  | cons cacheCoins upper ih =>
    simp only [List.cons_append, StackInv, ih, stackView_append, and_assoc]

theorem LayerInv_empty (base : CoinsDB) : LayerInv base ∅ := by
  intro outpoint
  simp [EntryInv]

/-- Replacing one entry of the top cache changes the view at that outpoint only. -/
theorem stackView_insert (db : CoinsDB) (cacheCoins : CCoinsMap) (below : List CCoinsMap)
    (outpoint : COutPoint) (entry : CCoinsCacheEntry) :
    stackView db (cacheCoins.insert outpoint entry :: below) =
      Function.update (stackView db (cacheCoins :: below)) outpoint entry.coin := by
  funext o
  by_cases ho : o = outpoint
  · subst ho
    simp [stackView, entryView]
  · simp [stackView, ho, AList.lookup_insert_ne ho]

/-- Dropping one entry of the top cache shows what is below it at that outpoint. -/
theorem stackView_erase (db : CoinsDB) (cacheCoins : CCoinsMap) (below : List CCoinsMap)
    (outpoint : COutPoint) :
    stackView db (cacheCoins.erase outpoint :: below) =
      Function.update (stackView db (cacheCoins :: below)) outpoint (stackView db below outpoint) := by
  funext o
  by_cases ho : o = outpoint
  · subst ho
    simp [stackView, entryView]
  · simp [stackView, ho, AList.lookup_erase_ne ho]

theorem LayerInv.insert {base : CoinsDB} {cacheCoins : CCoinsMap} (h : LayerInv base cacheCoins)
    {outpoint : COutPoint} {entry : CCoinsCacheEntry} (hentry : EntryInv base outpoint (some entry)) :
    LayerInv base (cacheCoins.insert outpoint entry) := by
  intro o
  by_cases ho : o = outpoint
  · subst ho
    rw [AList.lookup_insert]
    exact hentry
  · rw [AList.lookup_insert_ne ho]
    exact h o

theorem LayerInv.erase {base : CoinsDB} {cacheCoins : CCoinsMap} (h : LayerInv base cacheCoins)
    (outpoint : COutPoint) : LayerInv base (cacheCoins.erase outpoint) := by
  intro o
  by_cases ho : o = outpoint
  · subst ho
    simp [EntryInv]
  · rw [AList.lookup_erase_ne ho]
    exact h o

/-- Empty caches show the database. -/
theorem stackView_of_forall_empty (db : CoinsDB) {layers : List CCoinsMap}
    (h : ∀ cacheCoins ∈ layers, cacheCoins = ∅) : stackView db layers = db := by
  induction layers with
  | nil => rfl
  | cons cacheCoins below ih =>
    funext outpoint
    rw [stackView, h cacheCoins (by simp), ih (fun c hc => h c (by simp [hc]))]
    simp [entryView]

/-! ## Reads -/

section Reads

variable (db : CoinsDB)

/-- `FetchCoin` returns the cache's entry, shows what the cache shows, and copies a coin up
only where it equals the view below: every view and the flag discipline stay as they were. -/
theorem FetchCoin_spec {cacheCoins : CCoinsMap} {below : List CCoinsMap} {outpoint : COutPoint}
    (hinv : StackInv db (cacheCoins :: below))
    (hbase : (GetCoin db below outpoint).1 = stackView db below outpoint ∧
      stackView db (GetCoin db below outpoint).2 = stackView db below ∧
      StackInv db (GetCoin db below outpoint).2)
    {it : Option CCoinsCacheEntry} {cacheCoins' : CCoinsMap} {below' : List CCoinsMap}
    (hf : FetchCoin below (GetCoin db below) cacheCoins outpoint = (it, cacheCoins', below')) :
    cacheCoins'.lookup outpoint = it ∧
      it.bind CCoinsCacheEntry.coin = stackView db (cacheCoins :: below) outpoint ∧
      stackView db (cacheCoins' :: below') = stackView db (cacheCoins :: below) ∧
      StackInv db (cacheCoins' :: below') := by
  unfold FetchCoin at hf
  cases hl : cacheCoins.lookup outpoint with
  | some entry =>
    -- a hit: nothing changes
    rw [hl] at hf
    cases hf
    exact ⟨hl, by simp [stackView, hl, entryView], rfl, hinv⟩
  | none =>
    rw [hl] at hf
    obtain ⟨hval, hview, hinv'⟩ := hbase
    rcases hg : GetCoin db below outpoint with ⟨tmp, below''⟩
    rw [hg] at hf hval hview hinv'
    have hkeep : stackView db (cacheCoins :: below'') = stackView db (cacheCoins :: below) := by
      funext o
      simp only [stackView, hview]
    have hlayer : LayerInv (stackView db below'') cacheCoins := by
      rw [hview]
      exact hinv.1
    have hmiss : stackView db (cacheCoins :: below) outpoint = tmp := by
      simp [stackView, hl, entryView, ← hval]
    cases tmp with
    | none =>
      cases hf
      exact ⟨hl, hmiss.symm, hkeep, hlayer, hinv'⟩
    | some coin =>
      cases hf
      -- a miss: the coin below is copied up, neither `DIRTY` nor `FRESH`
      have hcopy : stackView db (cacheCoins.insert outpoint ⟨some coin, false, false⟩ :: below') =
          stackView db (cacheCoins :: below) := by
        rw [stackView_insert, hkeep]
        exact Function.update_eq_self_iff.2 hmiss.symm
      have hentry : EntryInv (stackView db below') outpoint (some ⟨some coin, false, false⟩) :=
        ⟨fun _ => by rw [hview]; exact hval, fun h => Bool.noConfusion h⟩
      exact ⟨AList.lookup_insert _, hmiss.symm, hcopy, hlayer.insert hentry, hinv'⟩

/-- `GetCoin` on the top of a stack returns what the stack shows, and changes no view. -/
theorem GetCoin_spec : ∀ (layers : List CCoinsMap) (outpoint : COutPoint), StackInv db layers →
    (GetCoin db layers outpoint).1 = stackView db layers outpoint ∧
      stackView db (GetCoin db layers outpoint).2 = stackView db layers ∧
      StackInv db (GetCoin db layers outpoint).2
  | [], _, _ => ⟨rfl, rfl, trivial⟩
  | cacheCoins :: below, outpoint, hinv => by
    rcases hf : FetchCoin below (GetCoin db below) cacheCoins outpoint with ⟨it, cacheCoins', below'⟩
    obtain ⟨-, hval, hview, hinv'⟩ :=
      FetchCoin_spec db hinv (GetCoin_spec below outpoint hinv.2) hf
    simp only [GetCoin, hf]
    exact ⟨hval, hview, hinv'⟩

theorem HaveCoin_spec (layers : List CCoinsMap) (outpoint : COutPoint) (hinv : StackInv db layers) :
    (HaveCoin db layers outpoint).1 = (stackView db layers outpoint).isSome ∧
      stackView db (HaveCoin db layers outpoint).2 = stackView db layers ∧
      StackInv db (HaveCoin db layers outpoint).2 := by
  cases layers with
  | nil => exact ⟨rfl, rfl, trivial⟩
  | cons cacheCoins below =>
    rcases hf : FetchCoin below (GetCoin db below) cacheCoins outpoint with ⟨it, cacheCoins', below'⟩
    obtain ⟨-, hval, hview, hinv'⟩ :=
      FetchCoin_spec db hinv (GetCoin_spec db below outpoint hinv.2) hf
    simp only [HaveCoin, hf]
    exact ⟨by rw [hval], hview, hinv'⟩

theorem AccessCoin_spec {cacheCoins : CCoinsMap} {below : List CCoinsMap} (outpoint : COutPoint)
    (hinv : StackInv db (cacheCoins :: below)) :
    (AccessCoin db cacheCoins below outpoint).1 = stackView db (cacheCoins :: below) outpoint ∧
      stackView db ((AccessCoin db cacheCoins below outpoint).2.1 ::
        (AccessCoin db cacheCoins below outpoint).2.2) = stackView db (cacheCoins :: below) ∧
      StackInv db ((AccessCoin db cacheCoins below outpoint).2.1 ::
        (AccessCoin db cacheCoins below outpoint).2.2) := by
  rcases hf : FetchCoin below (GetCoin db below) cacheCoins outpoint with ⟨it, cacheCoins', below'⟩
  obtain ⟨-, hval, hview, hinv'⟩ := FetchCoin_spec db hinv (GetCoin_spec db below outpoint hinv.2) hf
  simp only [AccessCoin, hf]
  exact ⟨hval, hview, hinv'⟩

/-- A read keeps the number of caches. -/
theorem FetchCoin_length {below : List CCoinsMap} {baseGetCoin : COutPoint → Option Coin × List CCoinsMap}
    (hbase : ∀ o, (baseGetCoin o).2.length = below.length) {cacheCoins : CCoinsMap}
    {outpoint : COutPoint} {it : Option CCoinsCacheEntry} {cacheCoins' : CCoinsMap}
    {below' : List CCoinsMap} (hf : FetchCoin below baseGetCoin cacheCoins outpoint = (it, cacheCoins', below')) :
    below'.length = below.length := by
  unfold FetchCoin at hf
  cases hl : cacheCoins.lookup outpoint with
  | some entry =>
    rw [hl] at hf
    cases hf
    rfl
  | none =>
    rw [hl] at hf
    have hlen := hbase outpoint
    rcases hg : baseGetCoin outpoint with ⟨tmp, below''⟩
    rw [hg] at hf hlen
    cases tmp <;> cases hf <;> exact hlen

theorem GetCoin_length : ∀ (layers : List CCoinsMap) (outpoint : COutPoint),
    (GetCoin db layers outpoint).2.length = layers.length
  | [], _ => rfl
  | cacheCoins :: below, outpoint => by
    rcases hf : FetchCoin below (GetCoin db below) cacheCoins outpoint with ⟨it, cacheCoins', below'⟩
    simp only [GetCoin, hf, List.length_cons]
    rw [FetchCoin_length (fun o => GetCoin_length below o) hf]

theorem HaveCoin_length (layers : List CCoinsMap) (outpoint : COutPoint) :
    (HaveCoin db layers outpoint).2.length = layers.length := by
  cases layers with
  | nil => rfl
  | cons cacheCoins below =>
    rcases hf : FetchCoin below (GetCoin db below) cacheCoins outpoint with ⟨it, cacheCoins', below'⟩
    simp only [HaveCoin, hf, List.length_cons]
    rw [FetchCoin_length (fun o => GetCoin_length db below o) hf]

theorem AccessCoin_length (cacheCoins : CCoinsMap) (below : List CCoinsMap) (outpoint : COutPoint) :
    (AccessCoin db cacheCoins below outpoint).2.2.length = below.length := by
  rcases hf : FetchCoin below (GetCoin db below) cacheCoins outpoint with ⟨it, cacheCoins', below'⟩
  simp only [AccessCoin, hf]
  exact FetchCoin_length (fun o => GetCoin_length db below o) hf

theorem SpendCoin_length (cacheCoins : CCoinsMap) (below : List CCoinsMap) (outpoint : COutPoint) :
    (SpendCoin db cacheCoins below outpoint).2.2.length = below.length := by
  rcases hf : FetchCoin below (GetCoin db below) cacheCoins outpoint with ⟨it, cacheCoins', below'⟩
  have hlen := FetchCoin_length (fun o => GetCoin_length db below o) hf
  cases it with
  | none =>
    simp only [SpendCoin, hf]
    exact hlen
  | some entry =>
    simp only [SpendCoin, hf]
    split <;> exact hlen

end Reads

/-! ## Writes -/

/-- `SpendCoin` moves out what the cache shows and leaves the outpoint spent; the view is
the old one with the outpoint spent. -/
theorem SpendCoin_spec (db : CoinsDB) {cacheCoins : CCoinsMap} {below : List CCoinsMap}
    {outpoint : COutPoint} (hinv : StackInv db (cacheCoins :: below))
    {r : Bool × Option Coin} {cacheCoins' : CCoinsMap} {below' : List CCoinsMap}
    (hs : SpendCoin db cacheCoins below outpoint = (r, cacheCoins', below')) :
    r.2 = stackView db (cacheCoins :: below) outpoint ∧
      stackView db (cacheCoins' :: below') =
        Function.update (stackView db (cacheCoins :: below)) outpoint none ∧
      StackInv db (cacheCoins' :: below') := by
  rcases hf : FetchCoin below (GetCoin db below) cacheCoins outpoint with ⟨it, cacheCoins₁, below₁⟩
  obtain ⟨hlook, hval, hview, hinv₁⟩ := FetchCoin_spec db hinv (GetCoin_spec db below outpoint hinv.2) hf
  rw [← hview] at hval ⊢
  unfold SpendCoin at hs
  rw [hf] at hs
  cases it with
  | none =>
    -- nothing to spend: the view was already spent there
    cases hs
    exact ⟨hval, (Function.update_eq_self_iff.2 (by simpa using hval)).symm, hinv₁⟩
  | some entry =>
    have hentry := hinv₁.1 outpoint
    rw [hlook] at hentry
    by_cases hfresh : entry.fresh = true
    · -- a `FRESH` entry is erased: nothing below has a coin there
      simp only [hfresh, if_true, Prod.mk.injEq] at hs
      obtain ⟨rfl, rfl, rfl⟩ := hs
      have hbelow := hentry.2 hfresh
      refine ⟨by simpa using hval, ?_, hinv₁.1.erase outpoint, hinv₁.2⟩
      rw [stackView_erase, hbelow]
    · simp only [hfresh, Bool.false_eq_true, if_false, Prod.mk.injEq] at hs
      obtain ⟨rfl, rfl, rfl⟩ := hs
      -- otherwise the spent coin stays as a `DIRTY` entry
      have hspent : EntryInv (stackView db below₁) outpoint (some ⟨none, true, false⟩) :=
        ⟨fun h => Bool.noConfusion h, fun h => Bool.noConfusion h⟩
      exact ⟨by simpa using hval, stackView_insert db _ _ _ _, hinv₁.1.insert hspent, hinv₁.2⟩

/-- `AddCoin` under its precondition throws nothing and shows the coin, unless the script is
unspendable. -/
theorem AddCoin_spec {base : CoinsDB} {cacheCoins : CCoinsMap} (hinv : LayerInv base cacheCoins)
    (outpoint : COutPoint) (coin : Coin) (possible_overwrite : Bool)
    (hadm : possible_overwrite = false → stackView base [cacheCoins] outpoint = none) :
    ∃ cacheCoins', AddCoin cacheCoins outpoint coin possible_overwrite = .ok cacheCoins' ∧
      LayerInv base cacheCoins' ∧
      stackView base [cacheCoins'] =
        abstractStep (stackView base [cacheCoins]) (.AddCoin 0 outpoint coin possible_overwrite) := by
  unfold AddCoin
  by_cases hspend : IsUnspendable coin.out.scriptPubKey = true
  · exact ⟨cacheCoins, by simp [hspend], hinv, by simp [abstractStep, hspend]⟩
  simp only [hspend, Bool.false_eq_true, if_false, abstractStep]
  have hentry := hinv outpoint
  -- the entry `emplace` finds or makes
  set it := (cacheCoins.lookup outpoint).getD ⟨none, false, false⟩ with hit
  have hnothrow : (!possible_overwrite && it.coin.isSome) = false := by
    cases possible_overwrite with
    | true => rfl
    | false =>
      have hnone := hadm rfl
      simp only [stackView] at hnone
      cases hl : cacheCoins.lookup outpoint with
      | none => simp [hit, hl]
      | some entry => simp [hit, hl, ← show entry.coin = none by simpa [hl, entryView] using hnone]
  rw [hnothrow]
  simp only [Bool.false_eq_true, if_false]
  refine ⟨_, rfl, hinv.insert ⟨fun h => Bool.noConfusion h, fun hfresh => ?_⟩, stackView_insert base _ _ _ _⟩
  -- the new entry is `FRESH` only where nothing below has a coin
  cases hl : cacheCoins.lookup outpoint with
  | none =>
    simp only [hit, hl, Option.getD_none, Bool.false_or, Bool.and_eq_true,
      Bool.not_eq_eq_eq_not, Bool.not_true, Bool.not_false] at hfresh
    have hnone := hadm hfresh.1
    simpa [stackView, hl, entryView] using hnone
  | some entry =>
    rw [hl] at hentry
    simp only [hit, hl, Option.getD_some, Bool.or_eq_true, Bool.and_eq_true,
      Bool.not_eq_eq_eq_not, Bool.not_true] at hfresh
    rcases hfresh with hfresh | ⟨hpo, hdirty⟩
    · exact hentry.2 hfresh
    · have hnone := hadm hpo
      simp only [stackView, hl, entryView] at hnone
      rw [← hentry.1 hdirty, hnone]

/-- `Uncache` drops only an entry that shows what is below it. -/
theorem Uncache_spec {base : CoinsDB} {cacheCoins : CCoinsMap} (hinv : LayerInv base cacheCoins)
    (outpoint : COutPoint) :
    LayerInv base (Uncache cacheCoins outpoint) ∧
      stackView base [Uncache cacheCoins outpoint] = stackView base [cacheCoins] := by
  unfold Uncache
  cases hl : cacheCoins.lookup outpoint with
  | none => exact ⟨hinv, rfl⟩
  | some entry =>
    dsimp only
    by_cases hflags : (!entry.dirty && !entry.fresh) = true
    · rw [if_pos hflags]
      have hentry := hinv outpoint
      rw [hl] at hentry
      simp only [Bool.and_eq_true, Bool.not_eq_eq_eq_not, Bool.not_true] at hflags
      refine ⟨hinv.erase outpoint, ?_⟩
      rw [stackView_erase]
      apply Function.update_eq_self_iff.2
      simp [stackView, hl, entryView, hentry.1 hflags.1]
    · rw [if_neg hflags]
      exact ⟨hinv, rfl⟩

/-! ## Flushing -/

/-- A pass of `BatchWrite` changes only the parent's entry at its own outpoint. -/
theorem batchWriteEntry_lookup_ne {cacheCoins cacheCoins' : CCoinsMap} {outpoint : COutPoint}
    {entry : CCoinsCacheEntry} (h : batchWriteEntry cacheCoins outpoint entry = .ok cacheCoins')
    {o : COutPoint} (ho : o ≠ outpoint) : cacheCoins'.lookup o = cacheCoins.lookup o := by
  unfold batchWriteEntry at h
  split at h
  · cases h
    rfl
  · split at h
    · split at h <;> cases h
      · rfl
      · exact AList.lookup_insert_ne ho
    · split at h
      · cases h
      · split at h <;> cases h
        · exact AList.lookup_erase_ne ho
        · exact AList.lookup_insert_ne ho

/-- A pass of `BatchWrite` over a parent that keeps the flag discipline, for a child entry that
keeps it over the parent: no exception, and the parent then shows the child's coin and keeps
the discipline at that outpoint. -/
theorem batchWriteEntry_spec {base : CoinsDB} {cacheCoins : CCoinsMap} {outpoint : COutPoint}
    {entry : CCoinsCacheEntry} (hparent : EntryInv base outpoint (cacheCoins.lookup outpoint))
    (hchild : EntryInv (stackView base [cacheCoins]) outpoint (some entry)) :
    ∃ cacheCoins', batchWriteEntry cacheCoins outpoint entry = .ok cacheCoins' ∧
      entryView base outpoint (cacheCoins'.lookup outpoint) = entry.coin ∧
      EntryInv base outpoint (cacheCoins'.lookup outpoint) := by
  obtain ⟨hclean, hfresh⟩ := hchild
  simp only [stackView] at hclean hfresh
  unfold batchWriteEntry
  cases hdirty : entry.dirty with
  | false =>
    -- a clean child entry already shows the parent's view
    exact ⟨cacheCoins, rfl, (hclean hdirty).symm, hparent⟩
  | true =>
    simp only [Bool.not_true, Bool.false_eq_true, if_false]
    cases hl : cacheCoins.lookup outpoint with
    | none =>
      rw [hl] at hfresh
      simp only [entryView] at hfresh
      by_cases hskip : (entry.fresh && entry.coin.isNone) = true
      · simp only [Bool.and_eq_true, Option.isNone_iff_eq_none] at hskip
        rw [if_pos (by simp [hskip])]
        exact ⟨cacheCoins, rfl, by simp [hl, entryView, hfresh hskip.1, hskip.2], by simp [hl, EntryInv]⟩
      · rw [if_neg hskip]
        refine ⟨_, rfl, by simp [entryView], ?_⟩
        simp only [AList.lookup_insert, EntryInv]
        exact ⟨fun h => Bool.noConfusion h, hfresh⟩
    | some itUs =>
      dsimp only
      rw [hl] at hfresh hparent
      simp only [entryView] at hfresh
      have hnothrow : (entry.fresh && itUs.coin.isSome) = false := by
        cases hf : entry.fresh
        · rfl
        · simp [hfresh hf]
      rw [if_neg (by simp [hnothrow])]
      by_cases herase : (itUs.fresh && entry.coin.isNone) = true
      · -- the parent's entry was `FRESH`: nothing below it has the coin
        simp only [Bool.and_eq_true, Option.isNone_iff_eq_none] at herase
        rw [if_pos (by simp [herase])]
        exact ⟨_, rfl, by simp [entryView, hparent.2 herase.1, herase.2], by simp [EntryInv]⟩
      · rw [if_neg herase]
        refine ⟨_, rfl, by simp [entryView], ?_⟩
        simp only [AList.lookup_insert, EntryInv]
        exact ⟨fun h => Bool.noConfusion h, hparent.2⟩

/-- `BatchWrite` of a child that keeps the flag discipline over a parent that keeps it over
`base`: no exception, and the parent then shows what the child showed. -/
theorem BatchWrite_spec {base : CoinsDB} {cacheCoins mapCoins : CCoinsMap}
    (hparent : LayerInv base cacheCoins) (hchild : LayerInv (stackView base [cacheCoins]) mapCoins) :
    ∃ cacheCoins', BatchWrite cacheCoins mapCoins = .ok cacheCoins' ∧
      LayerInv base cacheCoins' ∧ stackView base [cacheCoins'] = stackView base [mapCoins, cacheCoins] := by
  have hmem : ∀ x ∈ mapCoins.entries, mapCoins.lookup x.1 = some x.2 := fun x hx =>
    AList.mem_lookup_iff.2 hx
  -- each pass finds its outpoint as it was before the loop, so the child's entry there
  -- keeps the flag discipline over the parent as the pass finds it
  have hpass : ∀ x ∈ mapCoins.entries, ∀ m₀ : CCoinsMap, m₀.lookup x.1 = cacheCoins.lookup x.1 →
      ∃ m₁, batchWriteEntry m₀ x.1 x.2 = .ok m₁ ∧
        entryView base x.1 (m₁.lookup x.1) = x.2.coin ∧ EntryInv base x.1 (m₁.lookup x.1) := by
    intro x hx m₀ h₀
    have hchild' := hchild x.1
    rw [hmem x hx] at hchild'
    have hview : stackView base [m₀] x.1 = stackView base [cacheCoins] x.1 := by
      simp [stackView, h₀]
    exact batchWriteEntry_spec (h₀ ▸ hparent x.1)
      ⟨fun h => (hchild'.1 h).trans hview.symm, fun h => hview.trans (hchild'.2 h)⟩
  obtain ⟨cacheCoins', hfold, heach, hothers⟩ :=
    @Checked.foldlM_keyLocal _ _ _ _ _ (fun (m : CCoinsMap) o => m.lookup o) Sigma.fst _
      (fun m x m' h o ho => batchWriteEntry_lookup_ne h ho)
      (fun x _ after => entryView base x.1 after = x.2.coin ∧ EntryInv base x.1 after)
      _ mapCoins.nodupKeys cacheCoins hpass
  refine ⟨cacheCoins', hfold, ?_, ?_⟩
  · intro o
    by_cases ho : o ∈ mapCoins.entries.map Sigma.fst
    · obtain ⟨x, hx, rfl⟩ := List.mem_map.1 ho
      exact (heach x hx).2
    · rw [hothers o ho]
      exact hparent o
  · funext o
    by_cases ho : o ∈ mapCoins.entries.map Sigma.fst
    · obtain ⟨x, hx, rfl⟩ := List.mem_map.1 ho
      simp only [stackView]
      rw [hmem x hx]
      exact (heach x hx).1
    · have hnone : mapCoins.lookup o = none := by
        rw [AList.lookup_eq_none]
        exact ho
      simp [stackView, hothers o ho, hnone, entryView]

/-- The database's `BatchWrite`: each outpoint ends with the coin of the last dirty entry for
it, here its only one. -/
theorem dbBatchWrite_apply (es : List (Σ _ : COutPoint, CCoinsCacheEntry))
    (hnd : (es.map Sigma.fst).Nodup) (db : CoinsDB) (o : COutPoint) :
    es.foldl (fun db x => if x.2.dirty then Function.update db x.1 x.2.coin else db) db o =
      match es.dlookup o with
      | some entry => if entry.dirty then entry.coin else db o
      | none => db o := by
  induction es generalizing db with
  | nil => rfl
  | cons x es ih =>
    rw [List.map_cons, List.nodup_cons] at hnd
    rw [List.foldl_cons, ih hnd.2]
    by_cases ho : o = x.1
    · -- the later entries are for other outpoints
      subst ho
      have hnone : es.dlookup x.1 = none := List.dlookup_eq_none.2 hnd.1
      rw [hnone, List.dlookup_cons_eq]
      by_cases hd : x.2.dirty <;> simp [hd]
    · rw [List.dlookup_cons_ne _ _ ho]
      cases es.dlookup o with
      | none => by_cases hd : x.2.dirty <;> simp [hd, ho]
      | some entry => by_cases hd : x.2.dirty <;> simp [hd, ho]

theorem CCoinsViewDB.BatchWrite_eq {db : CoinsDB} {mapCoins : CCoinsMap} (hinv : LayerInv db mapCoins) :
    CCoinsViewDB.BatchWrite db mapCoins = stackView db [mapCoins] := by
  funext o
  rw [CCoinsViewDB.BatchWrite, dbBatchWrite_apply _ mapCoins.nodupKeys]
  have hentry := hinv o
  simp only [stackView]
  change _ = entryView db o (mapCoins.entries.dlookup o)
  change EntryInv db o (mapCoins.entries.dlookup o) at hentry
  cases hl : mapCoins.entries.dlookup o with
  | none => rfl
  | some entry =>
    rw [hl] at hentry
    cases hdirty : entry.dirty
    · simp [entryView, hdirty, hentry.1 hdirty]
    · simp [entryView, hdirty]

/-- `Flush` throws nothing, empties the cache and leaves every view as it was. -/
theorem Flush_spec {db : CoinsDB} {cacheCoins : CCoinsMap} {below : List CCoinsMap}
    (hinv : StackInv db (cacheCoins :: below)) :
    ∃ db' lower, Flush db cacheCoins below = .ok (db', ∅ :: lower) ∧
      lower.length = below.length ∧
      stackView db' (∅ :: lower) = stackView db (cacheCoins :: below) ∧ StackInv db' (∅ :: lower) := by
  cases below with
  | nil =>
    refine ⟨_, [], rfl, rfl, ?_, LayerInv_empty _, trivial⟩
    have hlayer : LayerInv db cacheCoins := hinv.1
    rw [CCoinsViewDB.BatchWrite_eq hlayer]
    funext o
    simp [stackView, entryView]
  | cons base rest =>
    obtain ⟨base', hbatch, hinv', hview⟩ := BatchWrite_spec hinv.2.1
      (by simpa [stackView] using hinv.1)
    refine ⟨db, base' :: rest, by simp [Flush, hbatch], rfl, ?_, LayerInv_empty _, hinv', hinv.2.2⟩
    funext o
    have := congrFun hview o
    simp only [stackView, AList.lookup_empty, entryView] at this ⊢
    exact this

/-! ## One operation -/

/-- An admissible operation that is not on the top cache changes no coin. -/
theorem abstractStep_of_layer_ne_zero {coins : CoinsDB} {op : CoinsOp} (hadm : OpAdmissible coins op)
    (hlayer : op.layer ≠ 0) (coins' : CoinsDB) : abstractStep coins' op = coins' := by
  cases op with
  | AddCoin layer outpoint coin possible_overwrite => exact absurd hadm.1 hlayer
  | SpendCoin layer outpoint => exact absurd hadm hlayer
  | GetCoin | HaveCoin | AccessCoin | Uncache | Flush => rfl

/-- An admissible operation on a cache of a stack keeping the flag discipline: no exception,
as many caches as before, the discipline kept, and the top shows the abstract step. -/
theorem applyAt_spec {db : CoinsDB} {cacheCoins : CCoinsMap} {below : List CCoinsMap}
    (hinv : StackInv db (cacheCoins :: below)) {op : CoinsOp}
    (hadm : OpAdmissible (stackView db (cacheCoins :: below)) op) :
    ∃ db' lower, applyAt db cacheCoins below op = .ok (db', lower) ∧
      lower.length = below.length + 1 ∧
      stackView db' lower = abstractStep (stackView db (cacheCoins :: below)) op ∧
      StackInv db' lower := by
  -- the cache over the view below it is the one-cache stack `[cacheCoins]`
  have htop : stackView (stackView db below) [cacheCoins] = stackView db (cacheCoins :: below) :=
    stackView_append db [cacheCoins] below
  cases op with
  | AddCoin layer outpoint coin possible_overwrite =>
    obtain ⟨cacheCoins', hadd, hinv', hview⟩ :=
      AddCoin_spec hinv.1 outpoint coin possible_overwrite (fun h => htop ▸ hadm.2 h)
    refine ⟨db, cacheCoins' :: below, by simp [applyAt, hadd], rfl, ?_, hinv', hinv.2⟩
    rw [← htop]
    exact (stackView_append db [cacheCoins'] below).trans hview
  | SpendCoin layer outpoint =>
    have hlen := SpendCoin_length db cacheCoins below outpoint
    rcases hs : SpendCoin db cacheCoins below outpoint with ⟨r, cacheCoins', below'⟩
    obtain ⟨-, hview, hinv'⟩ := SpendCoin_spec db hinv hs
    rw [hs] at hlen
    exact ⟨db, cacheCoins' :: below', by simp [applyAt, hs], by simp [hlen], hview, hinv'⟩
  | GetCoin layer outpoint =>
    obtain ⟨-, hview, hinv'⟩ := GetCoin_spec db (cacheCoins :: below) outpoint hinv
    exact ⟨db, _, rfl, GetCoin_length db _ outpoint, hview, hinv'⟩
  | HaveCoin layer outpoint =>
    obtain ⟨-, hview, hinv'⟩ := HaveCoin_spec db (cacheCoins :: below) outpoint hinv
    exact ⟨db, _, rfl, HaveCoin_length db _ outpoint, hview, hinv'⟩
  | AccessCoin layer outpoint =>
    have hlen := AccessCoin_length db cacheCoins below outpoint
    obtain ⟨-, hview, hinv'⟩ := AccessCoin_spec db outpoint hinv
    rcases ha : AccessCoin db cacheCoins below outpoint with ⟨v, cacheCoins', below'⟩
    rw [ha] at hlen hview hinv'
    exact ⟨db, cacheCoins' :: below', by simp [applyAt, ha], by simp [hlen], hview, hinv'⟩
  | Uncache layer outpoint =>
    obtain ⟨hinv', hview⟩ := Uncache_spec hinv.1 outpoint
    refine ⟨db, _, rfl, rfl, ?_, hinv', hinv.2⟩
    rw [← htop, ← hview]
    rfl
  | Flush layer =>
    obtain ⟨db', lower, hflush, hlen, hview, hinv'⟩ := Flush_spec hinv
    exact ⟨db', ∅ :: lower, hflush, by simp [hlen], hview, hinv'⟩

/-- The step lemma: an admissible operation on a nonempty stack keeping the flag discipline
throws nothing, keeps the number of caches and the discipline, and the top shows the
abstract step. The caches above the one it names keep their entries, and their view with
them, since only an operation on the top changes a coin. -/
theorem applyOp_spec {db : CoinsDB} {layers : List CCoinsMap} (hne : layers ≠ [])
    (hinv : StackInv db layers) {op : CoinsOp} (hadm : OpAdmissible (stackView db layers) op) :
    ∃ db' layers', applyOp (db, layers) op = .ok (db', layers') ∧
      layers'.length = layers.length ∧
      stackView db' layers' = abstractStep (stackView db layers) op ∧ StackInv db' layers' := by
  unfold applyOp
  rcases hd : layers.drop op.layer with _ | ⟨cacheCoins, below⟩
  · -- the operation names no cache, so it is not on the top one
    have hlen : layers.length ≤ op.layer := List.drop_eq_nil_iff.1 hd
    have hlayer : op.layer ≠ 0 := by
      have := List.length_pos_iff.2 hne
      omega
    exact ⟨db, layers, rfl, rfl, (abstractStep_of_layer_ne_zero hadm hlayer _).symm, hinv⟩
  · set upper := layers.take op.layer with hupper
    have hsplit : layers = upper ++ cacheCoins :: below := by
      rw [hupper, ← hd, List.take_append_drop]
    rw [hsplit, StackInv_append] at hinv
    have hview : stackView db layers = stackView (stackView db (cacheCoins :: below)) upper := by
      rw [hsplit, stackView_append]
    by_cases hlayer : op.layer = 0
    · -- on the top cache: nothing above it
      have hnil : upper = [] := by simp [hupper, hlayer]
      rw [hview, hnil] at hadm
      obtain ⟨db', lower, happ, hlen, hview', hinv'⟩ := applyAt_spec hinv.2 hadm
      refine ⟨db', upper ++ lower, by simp [happ], ?_, ?_, ?_⟩
      · rw [hsplit, hnil]
        simp [hlen]
      · rw [hview, hnil]
        exact hview'
      · rw [hnil]
        exact hinv'
    · -- below the top: the abstract step changes nothing
      have hid := abstractStep_of_layer_ne_zero hadm hlayer
      have hadm' : OpAdmissible (stackView db (cacheCoins :: below)) op := by
        cases op with
        | AddCoin => exact absurd hadm.1 hlayer
        | SpendCoin => exact absurd hadm hlayer
        | GetCoin | HaveCoin | AccessCoin | Uncache | Flush => trivial
      obtain ⟨db', lower, happ, hlen, hview', hinv'⟩ := applyAt_spec hinv.2 hadm'
      rw [hid] at hview'
      refine ⟨db', upper ++ lower, by simp [happ], ?_, ?_, ?_⟩
      · rw [hsplit]
        simp [hlen]
      · rw [hid, hview, stackView_append, hview']
      · rw [StackInv_append, hview']
        exact ⟨hinv.1, hinv'⟩

/-! ## Runs -/

/-- The run lemma: an admissible run on a nonempty stack keeping the flag discipline throws
nothing, keeps the number of caches and the discipline, and the top shows the abstract map. -/
theorem runOps_spec {db : CoinsDB} {layers : List CCoinsMap} (hne : layers ≠ [])
    (hinv : StackInv db layers) {ops : List CoinsOp} (hadm : Admissible (stackView db layers) ops) :
    ∃ db' layers', runOps db layers ops = .ok (db', layers') ∧
      layers'.length = layers.length ∧
      stackView db' layers' = abstractCoins (stackView db layers) ops ∧ StackInv db' layers' := by
  induction ops generalizing db layers with
  | nil => exact ⟨db, layers, rfl, rfl, rfl, hinv⟩
  | cons op ops ih =>
    obtain ⟨db₁, layers₁, hstep, hlen₁, hview₁, hinv₁⟩ := applyOp_spec hne hinv hadm.1
    have hne₁ : layers₁ ≠ [] := by
      rw [← List.length_pos_iff, hlen₁]
      exact List.length_pos_iff.2 hne
    have hadm₁ : Admissible (stackView db₁ layers₁) ops := by
      rw [hview₁]
      exact hadm.2
    obtain ⟨db', layers', hrun, hlen', hview', hinv'⟩ := ih hne₁ hinv₁ hadm₁
    refine ⟨db', layers', ?_, by rw [hlen', hlen₁], ?_, hinv'⟩
    · simp only [runOps, List.foldlM_cons, hstep]
      exact hrun
    · rw [hview', hview₁]
      rfl

/-- Flushing cache `k` when the caches above it are empty leaves the caches down to `k`
empty. -/
theorem applyOp_Flush_take {db : CoinsDB} {layers : List CCoinsMap} (hinv : StackInv db layers)
    {k : Nat} (hk : k < layers.length) (hempty : ∀ cacheCoins ∈ layers.take k, cacheCoins = ∅) :
    ∃ db' layers', applyOp (db, layers) (.Flush k) = .ok (db', layers') ∧
      ∀ cacheCoins ∈ layers'.take (k + 1), cacheCoins = ∅ := by
  unfold applyOp
  simp only [CoinsOp.layer]
  rcases hd : layers.drop k with _ | ⟨cacheCoins, below⟩
  · rw [List.drop_eq_nil_iff] at hd
    omega
  · have hsplit : layers = layers.take k ++ cacheCoins :: below := by
      rw [← hd, List.take_append_drop]
    rw [hsplit, StackInv_append] at hinv
    obtain ⟨db', lower, hflush, -, -, -⟩ := Flush_spec hinv.2
    refine ⟨db', layers.take k ++ ∅ :: lower, by simp [applyAt, hflush], ?_⟩
    have htake : (layers.take k ++ ∅ :: lower).take (k + 1) = layers.take k ++ [∅] := by
      have hlen : (layers.take k).length = k := List.length_take_of_le (by omega)
      rw [List.take_append, hlen, Nat.add_sub_cancel_left]
      simp
    rw [htake]
    intro c hc
    rcases List.mem_append.1 hc with hc | hc
    · exact hempty c hc
    · simpa using hc

/-- Flushing the caches `0, 1, …, k - 1` in order keeps the view and the discipline and
leaves those caches empty. -/
theorem runOps_Flush_range {db : CoinsDB} {layers : List CCoinsMap} (hne : layers ≠ [])
    (hinv : StackInv db layers) : ∀ k ≤ layers.length,
    ∃ db' layers', runOps db layers ((List.range k).map CoinsOp.Flush) = .ok (db', layers') ∧
      layers'.length = layers.length ∧ stackView db' layers' = stackView db layers ∧
      StackInv db' layers' ∧ ∀ cacheCoins ∈ layers'.take k, cacheCoins = ∅
  | 0, _ => ⟨db, layers, rfl, rfl, rfl, hinv, by simp⟩
  | k + 1, hk => by
    obtain ⟨db₁, layers₁, hrun, hlen₁, hview₁, hinv₁, hempty₁⟩ := runOps_Flush_range hne hinv k (by omega)
    have hne₁ : layers₁ ≠ [] := by
      rw [← List.length_pos_iff, hlen₁]
      exact List.length_pos_iff.2 hne
    -- the step lemma gives the view and the discipline, the shape gives the emptied caches
    have hadm : OpAdmissible (stackView db₁ layers₁) (.Flush k) := trivial
    obtain ⟨db₂, layers₂, hstep, hlen₂, hview₂, hinv₂⟩ := applyOp_spec hne₁ hinv₁ hadm
    obtain ⟨db₂', layers₂', hstep', hempty₂⟩ := applyOp_Flush_take hinv₁ (by omega) hempty₁
    rw [hstep] at hstep'
    obtain ⟨rfl, rfl⟩ := Prod.mk.inj (Except.ok.inj hstep')
    refine ⟨db₂, layers₂, ?_, by rw [hlen₂, hlen₁], by rw [hview₂, hview₁]; rfl, hinv₂, hempty₂⟩
    rw [runOps, List.range_succ, List.map_append, List.foldlM_append]
    simp only [runOps] at hrun
    simp [hrun, hstep]

theorem StackInv_replicate_empty (db : CoinsDB) : ∀ n, StackInv db (List.replicate n ∅)
  | 0 => trivial
  | n + 1 => ⟨LayerInv_empty _, StackInv_replicate_empty db n⟩

/-- On a stack of `n` empty caches over the database, an admissible run throws nothing; every
read on the top cache returns what the abstract map returns, and flushing the caches from the
top down throws nothing, empties them, and leaves the abstract map in the database. -/
theorem runOps_refines (db : CoinsDB) (n : Nat) (hn : 0 < n) (ops : List CoinsOp)
    (hadm : Admissible db ops) :
    ∃ db' cacheCoins below, runOps db (List.replicate n ∅) ops = .ok (db', cacheCoins :: below) ∧
      below.length + 1 = n ∧
      (∀ outpoint, (GetCoin db' (cacheCoins :: below) outpoint).1 = abstractCoins db ops outpoint ∧
        (HaveCoin db' (cacheCoins :: below) outpoint).1 = (abstractCoins db ops outpoint).isSome ∧
        (AccessCoin db' cacheCoins below outpoint).1 = abstractCoins db ops outpoint) ∧
      ∃ layers, runOps db' (cacheCoins :: below) ((List.range n).map CoinsOp.Flush) =
          .ok (abstractCoins db ops, layers) ∧ ∀ c ∈ layers, c = ∅ := by
  have hne : List.replicate n (∅ : CCoinsMap) ≠ [] := by
    simp only [ne_eq, List.replicate_eq_nil_iff]
    omega
  have hview : stackView db (List.replicate n ∅) = db :=
    stackView_of_forall_empty db (fun c hc => List.eq_of_mem_replicate hc)
  rw [← hview] at hadm
  obtain ⟨db', layers', hrun, hlen, hview', hinv'⟩ :=
    runOps_spec hne (StackInv_replicate_empty db n) hadm
  rw [hview] at hview'
  obtain ⟨cacheCoins, below, rfl⟩ := List.exists_cons_of_ne_nil (by
    rw [← List.length_pos_iff, hlen, List.length_replicate]
    exact hn)
  have hlen' : (cacheCoins :: below).length = n := by rw [hlen, List.length_replicate]
  refine ⟨db', cacheCoins, below, hrun, hlen', fun outpoint => ?_, ?_⟩
  · -- reads on the top show the top view
    refine ⟨?_, ?_, ?_⟩
    · rw [(GetCoin_spec db' _ outpoint hinv').1, hview']
    · rw [(HaveCoin_spec db' _ outpoint hinv').1, hview']
    · rw [(AccessCoin_spec db' outpoint hinv').1, hview']
  · -- flushing every cache empties the stack: the database is then the view
    obtain ⟨db'', layers'', hflush, hlen'', hview'', -, hempty⟩ :=
      runOps_Flush_range (List.cons_ne_nil _ _) hinv' n (by omega)
    rw [List.take_of_length_le (by omega)] at hempty
    rw [stackView_of_forall_empty db'' hempty, hview'] at hview''
    exact ⟨layers'', by rw [hflush, hview''], hempty⟩

/-- Two caches over a database holding one coin: a read, a spend, a re-addition and an
addition of an `OP_RETURN` output, flushed down to the database. -/
theorem runOps_refines_two_caches :
    let outpoint : COutPoint := ⟨Uint256.zero, 0⟩
    let coin : Coin := ⟨⟨50, [0x51]⟩, 1, false, by decide⟩
    let db : CoinsDB := fun o => if o = outpoint then some coin else none
    let ops := [CoinsOp.GetCoin 0 outpoint, .SpendCoin 0 outpoint, .AddCoin 0 outpoint coin false,
      .AddCoin 0 ⟨Uint256.zero, 1⟩ ⟨⟨0, [OP_RETURN]⟩, 1, false, by decide⟩ false, .Flush 1]
    0 < 2 ∧ Admissible db ops ∧
      ∃ db' cacheCoins below, runOps db (List.replicate 2 ∅) ops = .ok (db', cacheCoins :: below) ∧
        (GetCoin db' (cacheCoins :: below) outpoint).1 = some coin := by
  intro outpoint coin db ops
  have hadm : Admissible db ops := by decide +kernel
  obtain ⟨db', cacheCoins, below, hrun, -, hreads, -⟩ := runOps_refines db 2 (by decide) ops hadm
  refine ⟨by decide, hadm, db', cacheCoins, below, hrun, ?_⟩
  rw [(hreads outpoint).1]
  decide +kernel

/-- A spend on the lower of two caches, after a read on the upper one copied the coin up: the
abstract map has the coin spent, the upper cache still returns it. And coins added with
`possible_overwrite = false` on both caches, each with no unspent coin in its own view: the
flush of the upper one throws the `logic_error` of `BatchWrite`. -/
theorem GetCoin_stale_after_lower_spend :
    let outpoint : COutPoint := ⟨Uint256.zero, 0⟩
    let coin : Coin := ⟨⟨50, [0x51]⟩, 1, false, by decide⟩
    let db : CoinsDB := fun o => if o = outpoint then some coin else none
    let ops := [CoinsOp.GetCoin 0 outpoint, .SpendCoin 1 outpoint]
    abstractCoins db ops outpoint = none ∧
      (∃ db' layers, runOps db [∅, ∅] ops = .ok (db', layers) ∧
        (GetCoin db' layers outpoint).1 = some coin) ∧
      stackView (fun _ => none) [∅, ∅] outpoint = none ∧
      (∃ db' layers, runOps (fun _ => none) [∅, ∅] [.AddCoin 0 outpoint coin false] = .ok (db', layers) ∧
        stackView db' (layers.drop 1) outpoint = none) ∧
      runOps (fun _ => none) [∅, ∅]
          [.AddCoin 0 outpoint coin false, .AddCoin 1 outpoint coin false, .Flush 0] =
        Checked.raise "FRESH flag misapplied to cache entry for base transaction with spendable outputs" := by
  intro outpoint coin db ops
  refine ⟨by decide +kernel, ⟨_, _, rfl, by decide +kernel⟩, by decide +kernel,
    ⟨_, _, rfl, by decide +kernel⟩, rfl⟩

end Cascoin
