import Cascoin.Core.Map
import Cascoin.Models.Primitives.Transaction

/-!
# The NFT data pool

`NFTMemoryManager` keeps NFT data in a static `std::map` from id to data, in the
map's key order, with a running byte count `currentPoolSize`. `StoreNFTData`
first makes space when the count would pass `MAX_NFT_MEMORY_POOL_SIZE`
(`CleanupOldEntries` erases the first quarter of the entries once there are more
than `MAX_NFT_CACHE_ENTRIES`), then assigns the data and adds its size.

The assignment replaces the data of an id already present but the count keeps
the old size. Over any run from the empty pool the count is the pool's bytes
plus the bytes of every entry a store overwrote (`runPool_currentPoolSize`), so a
repeated store leaves it above them. A lookup reads the data of the last store of
its id or nothing, and the last store's data when no cleanup ran
(`GetNFTData_runPool`).
-/

namespace Cascoin

/-- `MAX_NFT_CACHE_ENTRIES`. -/
def MAX_NFT_CACHE_ENTRIES : Nat := 500

/-- `MAX_NFT_MEMORY_POOL_SIZE`: 8 MiB. -/
def MAX_NFT_MEMORY_POOL_SIZE : Nat := 8 * 1024 * 1024

/-- The order of `uint256::operator<`: `memcmp` of the little-endian bytes, that is
the number the bytes make read from the first. -/
def Uint256.memcmpKey (h : Uint256) : Nat := Bytes.leValue (Bytes.leBytes h.toNat 32).reverse

theorem Uint256.memcmpKey_injective : Function.Injective Uint256.memcmpKey := by
  intro a b hab
  have hrev : (Bytes.leBytes a.toNat 32).reverse = (Bytes.leBytes b.toNat 32).reverse := by
    have ha := Bytes.leBytes_leValue (Bytes.leBytes a.toNat 32).reverse
    have hb := Bytes.leBytes_leValue (Bytes.leBytes b.toNat 32).reverse
    simp only [List.length_reverse, Bytes.length_leBytes] at ha hb
    rw [← ha, ← hb]
    exact congrArg (Bytes.leBytes · 32) hab
  have hbytes := congrArg Bytes.leValue (List.reverse_injective hrev)
  rw [Bytes.leValue_leBytes, Bytes.leValue_leBytes,
    Nat.mod_eq_of_lt (a.toNat_lt.trans_eq (by norm_num)),
    Nat.mod_eq_of_lt (b.toNat_lt.trans_eq (by norm_num))] at hbytes
  cases a
  cases b
  simp only at hbytes
  subst hbytes
  rfl

/-- The static members of `NFTMemoryManager`: the pool in key order and the
`size_t` count. -/
structure NFTMemoryManager where
  nftDataPool : List (Uint256 × List UInt8)
  currentPoolSize : Nat
  sorted : SortedMap.Sorted Uint256.memcmpKey nftDataPool
  currentPoolSize_lt : currentPoolSize < 2 ^ 64

/-- The pool at start-up: no entries, a count of 0. -/
def NFTMemoryManager.empty : NFTMemoryManager :=
  ⟨[], 0, List.Pairwise.nil, Nat.two_pow_pos 64⟩

/-- The bytes the pool holds. -/
def NFTMemoryManager.poolBytes (m : NFTMemoryManager) : Nat :=
  (m.nftDataPool.map (·.2.length)).sum

/-- `size_t` subtraction. -/
def sizeSub (a b : Nat) : Nat := (((a : Int) - b) % 2 ^ 64).toNat

theorem sizeSub_lt (a b : Nat) : sizeSub a b < 2 ^ 64 := by
  unfold sizeSub
  omega

/-- The count after the erasing loop subtracted the sizes of `erased`. -/
def subtractSizes (count : Nat) (erased : List (Uint256 × List UInt8)) : Nat :=
  erased.foldl (fun acc e => sizeSub acc e.2.length) count

theorem subtractSizes_lt {count : Nat} (h : count < 2 ^ 64) :
    ∀ erased, subtractSizes count erased < 2 ^ 64
  | [] => h
  | _ :: rest => by
    unfold subtractSizes
    rw [List.foldl_cons]
    exact subtractSizes_lt (sizeSub_lt _ _) rest

/-- `CleanupOldEntries()`: past `MAX_NFT_CACHE_ENTRIES` entries, erase the first
quarter in key order and subtract their sizes. -/
def CleanupOldEntries (m : NFTMemoryManager) : NFTMemoryManager :=
  if m.nftDataPool.length ≤ MAX_NFT_CACHE_ENTRIES then m
  else
    let toRemove := m.nftDataPool.length / 4
    { nftDataPool := m.nftDataPool.drop toRemove
      currentPoolSize := subtractSizes m.currentPoolSize (m.nftDataPool.take toRemove)
      sorted := m.sorted.drop toRemove
      currentPoolSize_lt := subtractSizes_lt m.currentPoolSize_lt _ }

/-- The check at the top of `StoreNFTData`: clean up when the new data would take
the count past `MAX_NFT_MEMORY_POOL_SIZE`. -/
def makeSpace (m : NFTMemoryManager) (data : List UInt8) : NFTMemoryManager :=
  if (m.currentPoolSize + data.length) % 2 ^ 64 > MAX_NFT_MEMORY_POOL_SIZE then
    CleanupOldEntries m
  else m

/-- `StoreNFTData(nftId, data)`: the new state and the `true` it returns. -/
def StoreNFTData (m : NFTMemoryManager) (nftId : Uint256) (data : List UInt8) :
    NFTMemoryManager × Bool :=
  let m := makeSpace m data
  ({ nftDataPool := SortedMap.insert Uint256.memcmpKey nftId data m.nftDataPool
     currentPoolSize := (m.currentPoolSize + data.length) % 2 ^ 64
     sorted := SortedMap.sorted_insert Uint256.memcmpKey_injective nftId data m.sorted
     currentPoolSize_lt := Nat.mod_lt _ (Nat.two_pow_pos 64) }, true)

/-- `GetNFTData(nftId)`: the stored data, `nullptr` as `none`. -/
def GetNFTData (m : NFTMemoryManager) (nftId : Uint256) : Option (List UInt8) :=
  SortedMap.find? nftId m.nftDataPool

/-- A call into the manager. -/
inductive PoolOp where
  | store (nftId : Uint256) (data : List UInt8)
  | get (nftId : Uint256)

/-- The state after a call; a lookup changes nothing. -/
def PoolOp.step (m : NFTMemoryManager) : PoolOp → NFTMemoryManager
  | .store nftId data => (StoreNFTData m nftId data).1
  | .get _ => m

/-- The state after a sequence of calls. -/
def runPool (m : NFTMemoryManager) (ops : List PoolOp) : NFTMemoryManager :=
  ops.foldl PoolOp.step m

/-! ## The count -/

/-- The bytes a call's store overwrites: the size of what its id holds once space
is made, which the count never subtracts. -/
def PoolOp.overwritten (m : NFTMemoryManager) : PoolOp → Nat
  | .store nftId data => ((GetNFTData (makeSpace m data) nftId).map List.length).getD 0
  | .get _ => 0

/-- The bytes overwritten over a sequence of calls. -/
def runOverwritten : NFTMemoryManager → List PoolOp → Nat
  | _, [] => 0
  | m, op :: ops => op.overwritten m + runOverwritten (op.step m) ops

section Count

variable {m : NFTMemoryManager} {extra : Nat}

/-- The erasing loop subtracts the sizes it erases, modulo `2^64`. -/
theorem subtractSizes_eq : ∀ (count : Nat) (erased : List (Uint256 × List UInt8)),
    count < 2 ^ 64 →
      (subtractSizes count erased : Int) = ((count : Int) - (erased.map (·.2.length)).sum) % 2 ^ 64
  | count, [], h => by
    simp only [subtractSizes, List.foldl_nil, List.map_nil, List.sum_nil, Nat.cast_zero,
      Int.sub_zero]
    omega
  | count, e :: rest, h => by
    have ih := subtractSizes_eq (sizeSub count e.2.length) rest (sizeSub_lt _ _)
    unfold subtractSizes at ih ⊢
    rw [List.foldl_cons, ih, sizeSub, List.map_cons, List.sum_cons]
    omega

/-- A cleanup subtracts from the count the bytes it erases, so the count stays the
pool's bytes plus `extra`. -/
theorem CleanupOldEntries_count (h : m.currentPoolSize = (m.poolBytes + extra) % 2 ^ 64) :
    (CleanupOldEntries m).currentPoolSize =
      ((CleanupOldEntries m).poolBytes + extra) % 2 ^ 64 := by
  unfold CleanupOldEntries
  split_ifs with hsmall
  · exact h
  · have hsplit := congrArg (fun l : List (Uint256 × List UInt8) => (l.map (·.2.length)).sum)
      (List.take_append_drop (m.nftDataPool.length / 4) m.nftDataPool)
    simp only [List.map_append, List.sum_append] at hsplit
    have hsub := subtractSizes_eq m.currentPoolSize
      (m.nftDataPool.take (m.nftDataPool.length / 4)) m.currentPoolSize_lt
    simp only [NFTMemoryManager.poolBytes] at h hsplit ⊢
    omega

theorem makeSpace_count (data : List UInt8)
    (h : m.currentPoolSize = (m.poolBytes + extra) % 2 ^ 64) :
    (makeSpace m data).currentPoolSize = ((makeSpace m data).poolBytes + extra) % 2 ^ 64 := by
  unfold makeSpace
  split_ifs
  · exact CleanupOldEntries_count h
  · exact h

/-- A store adds the new size to the count, while the pool's bytes change by the
new size less the size it overwrites. -/
theorem StoreNFTData_count (nftId : Uint256) (data : List UInt8)
    (h : m.currentPoolSize = (m.poolBytes + extra) % 2 ^ 64) :
    (StoreNFTData m nftId data).1.currentPoolSize =
      ((StoreNFTData m nftId data).1.poolBytes + extra +
        (PoolOp.store nftId data).overwritten m) % 2 ^ 64 := by
  have hspace := makeSpace_count data h
  have hsum := SortedMap.sum_insert List.length nftId data (makeSpace m data).sorted
  simp only [StoreNFTData, NFTMemoryManager.poolBytes, PoolOp.overwritten, GetNFTData] at hspace hsum ⊢
  omega

/-- Over any calls the count is the pool's bytes, plus `extra` at the start, plus
the bytes the stores overwrote. -/
theorem runPool_count : ∀ (m : NFTMemoryManager) (extra : Nat) (ops : List PoolOp),
    m.currentPoolSize = (m.poolBytes + extra) % 2 ^ 64 →
    (runPool m ops).currentPoolSize =
      ((runPool m ops).poolBytes + extra + runOverwritten m ops) % 2 ^ 64
  | m, extra, [], h => by simpa [runPool, runOverwritten] using h
  | m, extra, op :: ops, h => by
    have hstep : (op.step m).currentPoolSize =
        ((op.step m).poolBytes + (extra + op.overwritten m)) % 2 ^ 64 := by
      cases op with
      | store nftId data =>
        rw [PoolOp.step, StoreNFTData_count nftId data h, Nat.add_assoc]
      | get nftId => simpa [PoolOp.step, PoolOp.overwritten] using h
    have ih := runPool_count (op.step m) (extra + op.overwritten m) ops hstep
    simp only [runPool, List.foldl_cons, runOverwritten] at ih ⊢
    rw [ih]
    congr 1
    omega

end Count

/-! ## Lookups -/

/-- The data of the last store of `nftId` among `ops`, or `init` if none. -/
def lastStored (nftId : Uint256) : Option (List UInt8) → List PoolOp → Option (List UInt8)
  | init, [] => init
  | init, .store k data :: ops => lastStored nftId (if nftId = k then some data else init) ops
  | init, .get _ :: ops => lastStored nftId init ops

/-- The calls in which making space erases nothing. -/
def CleanupFree : NFTMemoryManager → List PoolOp → Prop
  | _, [] => True
  | m, .store nftId data :: ops =>
    (makeSpace m data).nftDataPool = m.nftDataPool ∧
      CleanupFree (PoolOp.step m (.store nftId data)) ops
  | m, .get _ :: ops => CleanupFree m ops

section Lookup

variable {m : NFTMemoryManager}

/-- Starting from nothing, the last stored data is nothing or what it is from any
start: the stores decide it when there is one. -/
theorem lastStored_none_or (nftId : Uint256) :
    ∀ (ops : List PoolOp) (init : Option (List UInt8)),
      lastStored nftId none ops = none ∨ lastStored nftId none ops = lastStored nftId init ops
  | [], _ => .inl rfl
  | .get _ :: ops, init => lastStored_none_or nftId ops init
  | .store k data :: ops, init => by
    simp only [lastStored]
    split_ifs
    · exact .inr rfl
    · exact lastStored_none_or nftId ops init

/-- Making space keeps each id's data or erases it. -/
theorem GetNFTData_makeSpace (data : List UInt8) (nftId : Uint256) :
    GetNFTData (makeSpace m data) nftId = none ∨
      GetNFTData (makeSpace m data) nftId = GetNFTData m nftId := by
  unfold makeSpace CleanupOldEntries
  split_ifs
  · exact .inr rfl
  · exact SortedMap.find?_drop m.sorted _ nftId
  · exact .inr rfl

/-- A store is an assignment of the lookup, after making space. -/
theorem GetNFTData_StoreNFTData (nftId : Uint256) (data : List UInt8) :
    GetNFTData (StoreNFTData m nftId data).1 =
      FunMap.insert (GetNFTData (makeSpace m data)) nftId data :=
  SortedMap.find?_insert nftId data _

/-- A lookup after any calls reads nothing, or the data of the last store of its
id (the lookup before them when there was none); with no cleanup, the latter. -/
theorem GetNFTData_runPool (nftId : Uint256) (m : NFTMemoryManager) (ops : List PoolOp) :
    (GetNFTData (runPool m ops) nftId = none ∨
        GetNFTData (runPool m ops) nftId = lastStored nftId (GetNFTData m nftId) ops) ∧
      (CleanupFree m ops →
        GetNFTData (runPool m ops) nftId = lastStored nftId (GetNFTData m nftId) ops) := by
  induction ops generalizing m with
  | nil => exact ⟨.inr rfl, fun _ => rfl⟩
  | cons op ops ih =>
    cases op with
    | get _ => exact ih m
    | store k data =>
      obtain ⟨ih₁, ih₂⟩ := ih (PoolOp.step m (.store k data))
      have hstore := congrFun (GetNFTData_StoreNFTData (m := m) k data) nftId
      -- what the store leaves under `nftId`: its data, or what making space left
      have hnext : GetNFTData (PoolOp.step m (.store k data)) nftId =
          if nftId = k then some data else GetNFTData (makeSpace m data) nftId := by
        rw [PoolOp.step, hstore]
        split_ifs with hk
        · rw [hk, FunMap.insert_same]
        · rw [FunMap.insert_other _ _ hk]
      constructor
      · rcases ih₁ with hnone | hlast
        · exact .inl hnone
        · simp only [runPool, List.foldl_cons] at hlast ⊢
          rw [hlast, hnext, lastStored]
          split_ifs with hk
          · exact .inr rfl
          · rcases GetNFTData_makeSpace (m := m) data nftId with hgone | hkept
            · -- a cleanup erased it: nothing is read unless a later store put it back
              rw [hgone]
              exact lastStored_none_or nftId ops (GetNFTData m nftId)
            · rw [hkept]
              exact .inr rfl
      · rintro ⟨hfree, hrest⟩
        have hkept : GetNFTData (makeSpace m data) nftId = GetNFTData m nftId := by
          unfold GetNFTData
          rw [hfree]
        simp only [runPool, List.foldl_cons] at ih₂ ⊢
        rw [ih₂ hrest, hnext, hkept, lastStored]

end Lookup

/-- Over any calls from the empty pool the count is the pool's bytes plus the bytes
the stores overwrote, modulo `2^64`; a lookup reads nothing or the data of the last
store of its id, and the latter when no cleanup erased anything. -/
theorem NFTMemoryManager_runPool_accounting (ops : List PoolOp) (nftId : Uint256) :
    (runPool NFTMemoryManager.empty ops).currentPoolSize =
        ((runPool NFTMemoryManager.empty ops).poolBytes +
          runOverwritten NFTMemoryManager.empty ops) % 2 ^ 64 ∧
      (GetNFTData (runPool NFTMemoryManager.empty ops) nftId = none ∨
        GetNFTData (runPool NFTMemoryManager.empty ops) nftId = lastStored nftId none ops) ∧
      (CleanupFree NFTMemoryManager.empty ops →
        GetNFTData (runPool NFTMemoryManager.empty ops) nftId = lastStored nftId none ops) := by
  have hcount := runPool_count NFTMemoryManager.empty 0 ops rfl
  rw [Nat.add_zero] at hcount
  obtain ⟨hlookup, hfree⟩ := GetNFTData_runPool nftId NFTMemoryManager.empty ops
  exact ⟨hcount, hlookup, hfree⟩

/-- The same one byte stored twice under one id: the count is 2 while the pool holds
1 byte, the byte the second store overwrote. -/
theorem NFTMemoryManager_runPool_accounting_repeat :
    (runPool NFTMemoryManager.empty
        [.store Uint256.zero [0x6a], .store Uint256.zero [0x6a]]).currentPoolSize = 2 ∧
      (runPool NFTMemoryManager.empty
        [.store Uint256.zero [0x6a], .store Uint256.zero [0x6a]]).poolBytes = 1 := by
  obtain ⟨hcount, -, -⟩ := NFTMemoryManager_runPool_accounting
    [.store Uint256.zero [0x6a], .store Uint256.zero [0x6a]] Uint256.zero
  have hbytes : (runPool NFTMemoryManager.empty
      [.store Uint256.zero [0x6a], .store Uint256.zero [0x6a]]).poolBytes = 1 := by decide
  have hover : runOverwritten NFTMemoryManager.empty
      [.store Uint256.zero [0x6a], .store Uint256.zero [0x6a]] = 1 := by decide
  refine ⟨?_, hbytes⟩
  rw [hcount, hbytes, hover]
  norm_num

end Cascoin
