import Cascoin.Models.Rialto.Envelope

/-!
# The Rialto message relay cache

`RelayRialtoMessage` keeps each relayed message in `mapMessageRelay`, keyed by its
hash, and queues in `vMessageRelayExpiration` the expiry time with an iterator to
the map entry. When the map is full it first erases the expired front of the
deque, then the oldest entry if still full; then it inserts, and queues an expiry
only when the insert added an entry. Nothing else changes the two containers (the
sweep in `SendMessages` is commented out).

A map iterator is modelled by the identity of the node it points to: every
inserted node gets a new one, and erasing through an iterator to no node of the
map is undefined behaviour, a `Fault`. The peers' inventories are left out.

From the empty cache, over any messages and any clock readings, every call
succeeds and keeps `RelayInv`: the deque's iterators are the map's nodes, one
each, and the map stays within `MAX_MESSAGE_RELAY_SIZE`
(`RelayRialtoMessage_cache_invariant`).
-/

namespace Cascoin

/-- `MAX_MESSAGE_RELAY_SIZE`. -/
def MAX_MESSAGE_RELAY_SIZE : Nat := 5000

/-- A node of `mapMessageRelay`: the key, the message, and the node's identity,
which is what a `MapMessageRelay::iterator` points to. -/
structure MessageRelayNode where
  hash : Uint256
  message : List UInt8
  node : Nat

/-- `mapMessageRelay`, `vMessageRelayExpiration` (expiry time and iterator, front
first), and the identity the next inserted node gets. -/
structure MessageRelay where
  mapMessageRelay : List MessageRelayNode
  vMessageRelayExpiration : List (Int × Nat)
  nextNode : Nat

/-- Both containers empty, as at start-up. -/
def MessageRelay.empty : MessageRelay := ⟨[], [], 0⟩

section Model

variable {ε : Type}

/-- `mapMessageRelay.erase(it)`: remove the node the iterator points to. -/
def eraseRelayNode (map : List MessageRelayNode) (it : Nat) :
    Checked ε (List MessageRelayNode) :=
  if map.any (·.node == it) then .ok (map.eraseP (·.node == it))
  else .error (.fault .outOfRange)

/-- The loop over the front of the deque: erase each message whose expiry is
before `nNow`, with its entry. -/
def pruneExpired (nNow : Int) :
    List MessageRelayNode → List (Int × Nat) →
      Checked ε (List MessageRelayNode × List (Int × Nat))
  | map, [] => .ok (map, [])
  | map, (expire, it) :: rest =>
    if expire < nNow then do
      let map ← eraseRelayNode map it
      pruneExpired nNow map rest
    else .ok (map, (expire, it) :: rest)

/-- The trimming when the map is full: the expired front, then the oldest entry if
the map is still full. -/
def trimRelay (nNow : Int) (s : MessageRelay) : Checked ε MessageRelay :=
  if s.mapMessageRelay.length ≥ MAX_MESSAGE_RELAY_SIZE then do
    let (map, deque) ← pruneExpired nNow s.mapMessageRelay s.vMessageRelayExpiration
    match deque with
    | (_, it) :: rest =>
      if map.length ≥ MAX_MESSAGE_RELAY_SIZE then do
        let map ← eraseRelayNode map it
        return { s with mapMessageRelay := map, vMessageRelayExpiration := rest }
      else return { s with mapMessageRelay := map, vMessageRelayExpiration := deque }
    | [] => return { s with mapMessageRelay := map, vMessageRelayExpiration := [] }
  else .ok s

/-- `mapMessageRelay.insert({hash, message})`, which keeps an entry already there,
and the expiry queued behind the deque when it added one. -/
def insertRelay (s : MessageRelay) (hash : Uint256) (message : List UInt8) (expire : Int) :
    MessageRelay :=
  match s.mapMessageRelay.find? (·.hash == hash) with
  | some _ => s
  | none =>
    { mapMessageRelay := s.mapMessageRelay ++ [⟨hash, message, s.nextNode⟩]
      vMessageRelayExpiration := s.vMessageRelayExpiration ++ [(expire, s.nextNode)]
      nextNode := s.nextNode + 1 }

/-- `RelayRialtoMessage(message)` at `GetTime() = nNow`, its effect on the cache;
`relaying` is whether the local services include `NODE_RIALTO`. -/
def RelayRialtoMessage (GetHash : List UInt8 → Uint256) (relaying : Bool)
    (message : List UInt8) (nNow : Int) (s : MessageRelay) : Checked ε MessageRelay :=
  if relaying then do
    let s ← trimRelay nNow s
    return insertRelay s (GetHash message) message (nNow + RIALTO_MESSAGE_TTL)
  else .ok s

/-- The cache after relaying each message at its clock reading, from start-up. -/
def runRelay (GetHash : List UInt8 → Uint256) (relaying : Bool)
    (calls : List (List UInt8 × Int)) : Checked ε MessageRelay :=
  calls.foldlM (fun s call => RelayRialtoMessage GetHash relaying call.1 call.2 s)
    MessageRelay.empty

end Model

/-- The map's keys and node identities are distinct and the deque's iterators are
the map's nodes, one each. -/
structure RelayLinked (map : List MessageRelayNode) (deque : List (Int × Nat)) : Prop where
  keys_nodup : (map.map (·.hash)).Nodup
  nodes_nodup : (map.map (·.node)).Nodup
  perm : (deque.map (·.2)).Perm (map.map (·.node))

/-- What every reachable cache satisfies: linked, every node identity allocated,
and the map within `MAX_MESSAGE_RELAY_SIZE`. -/
structure RelayInv (s : MessageRelay) : Prop
    extends RelayLinked s.mapMessageRelay s.vMessageRelayExpiration where
  nodes_lt : ∀ n ∈ s.mapMessageRelay, n.node < s.nextNode
  size_le : s.mapMessageRelay.length ≤ MAX_MESSAGE_RELAY_SIZE

section Invariant

variable {ε : Type} {map : List MessageRelayNode} {deque : List (Int × Nat)}

theorem RelayLinked.length_eq (h : RelayLinked map deque) : deque.length = map.length := by
  simpa using h.perm.length_eq

theorem RelayLinked.sublist {map' : List MessageRelayNode} (h : RelayLinked map deque)
    (hsub : map'.Sublist map) (hperm : (deque'.map (·.2)).Perm (map'.map (·.node))) :
    RelayLinked map' deque' :=
  ⟨h.keys_nodup.sublist (hsub.map _), h.nodes_nodup.sublist (hsub.map _), hperm⟩

/-- Erasing the entry of the deque's front keeps the two linked: the iterator points
into the map. -/
theorem eraseRelayNode_front {expire : Int} {it : Nat} {rest : List (Int × Nat)}
    (h : RelayLinked map ((expire, it) :: rest)) :
    ∃ map', (eraseRelayNode map it : Checked ε _) = .ok map' ∧ RelayLinked map' rest ∧
      map'.Sublist map := by
  have hmem : it ∈ map.map (·.node) := h.perm.subset (by simp)
  have hany : map.any (·.node == it) = true := by
    obtain ⟨n, hn, hnode⟩ := List.mem_map.mp hmem
    exact List.any_eq_true.mpr ⟨n, hn, by simp [hnode]⟩
  have hsub : (map.eraseP (·.node == it)).Sublist map := List.eraseP_sublist
  have herase : (map.eraseP (·.node == it)).map (·.node) = (map.map (·.node)).erase it := by
    rw [List.erase_eq_eraseP', List.eraseP_map]
    rfl
  refine ⟨map.eraseP (·.node == it), by rw [eraseRelayNode, if_pos hany], h.sublist hsub ?_, hsub⟩
  rw [herase]
  simpa using h.perm.erase it

/-- The pruning loop erases only through live iterators and keeps the two linked. -/
theorem pruneExpired_linked (nNow : Int) (h : RelayLinked map deque) :
    ∃ map' deque', (pruneExpired nNow map deque : Checked ε _) = .ok (map', deque') ∧
      RelayLinked map' deque' ∧ map'.Sublist map := by
  induction deque generalizing map with
  | nil => exact ⟨map, [], rfl, h, List.Sublist.refl map⟩
  | cons front rest ih =>
    obtain ⟨expire, it⟩ := front
    by_cases hexpired : expire < nNow
    · obtain ⟨map₁, herase, hlinked, hsub⟩ := eraseRelayNode_front (ε := ε) h
      obtain ⟨map', deque', hprune, hlinked', hsub'⟩ := ih hlinked
      refine ⟨map', deque', ?_, hlinked', hsub'.trans hsub⟩
      rw [pruneExpired, if_pos hexpired, herase, Checked.ok_bind, hprune]
    · exact ⟨map, _, by rw [pruneExpired, if_neg hexpired], h, List.Sublist.refl map⟩

/-- After the trimming the map has room for one more entry. -/
theorem trimRelay_spec (nNow : Int) {s : MessageRelay} (h : RelayInv s) :
    ∃ s', (trimRelay nNow s : Checked ε _) = .ok s' ∧
      RelayLinked s'.mapMessageRelay s'.vMessageRelayExpiration ∧
      s'.mapMessageRelay.Sublist s.mapMessageRelay ∧ s'.nextNode = s.nextNode ∧
      s'.mapMessageRelay.length < MAX_MESSAGE_RELAY_SIZE := by
  by_cases hfull : s.mapMessageRelay.length ≥ MAX_MESSAGE_RELAY_SIZE
  · obtain ⟨map₁, deque₁, hprune, hlinked, hsub⟩ := pruneExpired_linked (ε := ε) nNow h.toRelayLinked
    have hlen₁ := hsub.length_le
    cases deque₁ with
    | nil =>
      -- nothing left to expire: the map is empty with the deque
      have hempty := hlinked.length_eq
      refine ⟨{ s with mapMessageRelay := map₁, vMessageRelayExpiration := [] }, ?_, hlinked,
        hsub, rfl, ?_⟩
      · rw [trimRelay, if_pos hfull, hprune, Checked.ok_bind]
        rfl
      · simp only [List.length_nil] at hempty
        simp only [← hempty, MAX_MESSAGE_RELAY_SIZE]
        omega
    | cons front rest =>
      obtain ⟨expire, it⟩ := front
      by_cases hstill : map₁.length ≥ MAX_MESSAGE_RELAY_SIZE
      · obtain ⟨map₂, herase, hlinked₂, hsub₂⟩ := eraseRelayNode_front (ε := ε) hlinked
        have hlen := hlinked.length_eq
        have hlen₂ := hlinked₂.length_eq
        simp only [List.length_cons] at hlen
        refine ⟨{ s with mapMessageRelay := map₂, vMessageRelayExpiration := rest }, ?_,
          hlinked₂, hsub₂.trans hsub, rfl, ?_⟩
        · rw [trimRelay, if_pos hfull, hprune, Checked.ok_bind]
          simp only [if_pos hstill, herase, Checked.ok_bind, Checked.pure_eq]
        · have := h.size_le
          simp only at hlen₂ ⊢
          omega
      · refine ⟨{ s with mapMessageRelay := map₁, vMessageRelayExpiration := (expire, it) :: rest },
          ?_, hlinked, hsub, rfl, by simp only; omega⟩
        rw [trimRelay, if_pos hfull, hprune, Checked.ok_bind]
        simp only [if_neg hstill, Checked.pure_eq]
  · exact ⟨s, by rw [trimRelay, if_neg hfull], h.toRelayLinked, List.Sublist.refl _, rfl,
      by omega⟩

/-- An insert into a map with room keeps the invariant: a new entry gets a new node
identity and its expiry is queued, an existing key changes nothing. -/
theorem insertRelay_inv {s : MessageRelay}
    (hlinked : RelayLinked s.mapMessageRelay s.vMessageRelayExpiration)
    (hlt : ∀ n ∈ s.mapMessageRelay, n.node < s.nextNode)
    (hroom : s.mapMessageRelay.length < MAX_MESSAGE_RELAY_SIZE)
    (hash : Uint256) (message : List UInt8) (expire : Int) :
    RelayInv (insertRelay s hash message expire) := by
  cases hfind : s.mapMessageRelay.find? (·.hash == hash) with
  | some _ =>
    simp only [insertRelay, hfind]
    exact ⟨hlinked, hlt, by omega⟩
  | none =>
    simp only [insertRelay, hfind]
    have hfresh : ∀ n ∈ s.mapMessageRelay, ¬n.hash = hash := fun n hn hkey =>
      List.find?_eq_none.mp hfind n hn (by simp [hkey])
    have hnew : ∀ n ∈ s.mapMessageRelay, ¬n.node = s.nextNode := fun n hn hnode => by
      have := hlt n hn
      omega
    refine ⟨⟨?_, ?_, ?_⟩, ?_, ?_⟩
    · simpa [List.nodup_append] using ⟨hlinked.keys_nodup, hfresh⟩
    · simpa [List.nodup_append] using ⟨hlinked.nodes_nodup, hnew⟩
    · simpa using hlinked.perm.append_right [s.nextNode]
    · intro n hn
      dsimp only at hn ⊢
      rcases List.mem_append.mp hn with hold | hadded
      · have := hlt n hold
        omega
      · rw [List.mem_singleton.mp hadded]
        exact Nat.lt_add_one _
    · simp only [List.length_append, List.length_singleton]
      omega

/-- One relay from a cache of the invariant succeeds, erasing only through live
iterators, and keeps the invariant. -/
theorem RelayRialtoMessage_inv (GetHash : List UInt8 → Uint256) (relaying : Bool)
    (message : List UInt8) (nNow : Int) {s : MessageRelay} (h : RelayInv s) :
    ∃ s', (RelayRialtoMessage GetHash relaying message nNow s : Checked ε _) = .ok s' ∧
      RelayInv s' := by
  cases relaying with
  | false => exact ⟨s, rfl, h⟩
  | true =>
    obtain ⟨s₁, htrim, hlinked, hsub, hnext, hroom⟩ := trimRelay_spec (ε := ε) nNow h
    have hlt : ∀ n ∈ s₁.mapMessageRelay, n.node < s₁.nextNode := fun n hn =>
      hnext ▸ h.nodes_lt n (hsub.subset hn)
    refine ⟨_, ?_, insertRelay_inv hlinked hlt hroom (GetHash message) message
      (nNow + RIALTO_MESSAGE_TTL)⟩
    rw [RelayRialtoMessage, if_pos rfl, htrim, Checked.ok_bind, Checked.pure_eq]

theorem relayInv_empty : RelayInv MessageRelay.empty :=
  ⟨⟨List.nodup_nil, List.nodup_nil, List.Perm.nil⟩, fun _ h => absurd h List.not_mem_nil,
    Nat.zero_le _⟩

end Invariant

/-- From start-up, over any messages (repeated ones included) and any clock
readings (decreasing ones included), every relay succeeds, never erasing through an
iterator to no entry, and leaves a deque whose iterators are the map's nodes, one
each, and a map of at most `MAX_MESSAGE_RELAY_SIZE` entries. -/
theorem RelayRialtoMessage_cache_invariant {ε : Type} (GetHash : List UInt8 → Uint256)
    (relaying : Bool) (calls : List (List UInt8 × Int)) :
    ∃ s, (runRelay GetHash relaying calls : Checked ε MessageRelay) = .ok s ∧
      (s.vMessageRelayExpiration.map (·.2)).Perm (s.mapMessageRelay.map (·.node)) ∧
      (s.mapMessageRelay.map (·.node)).Nodup ∧
      s.mapMessageRelay.length ≤ MAX_MESSAGE_RELAY_SIZE := by
  obtain ⟨s, hrun, hinv⟩ := Checked.foldlM_ok_of_invariant (P := RelayInv)
    (fun s call h => RelayRialtoMessage_inv GetHash relaying call.1 call.2 h) calls
    relayInv_empty
  exact ⟨s, hrun, hinv.perm, hinv.nodes_nodup, hinv.size_le⟩

end Cascoin
