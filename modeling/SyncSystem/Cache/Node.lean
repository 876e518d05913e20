/-
SyncSystem.Cache.Node — one `CacheNode` and its `LRUReplacement`.

Translated from `src/nodes/cache_node.py`. Addresses are the keys of a
Python dict, so of any type with a `==`; data is of any type. A method
runs under the node's mutex without suspending. What it starts with
`asyncio.create_task` it leaves in `outbox`: a message and the peer it
is for.

`pending_requests` and `write_buffer`, which nothing uses, are left out,
and so is `_flush_to_memory`, which only logs; when it is called is in
`Cache.Flushes`.
-/
import SyncSystem.Python.Json
import SyncSystem.Python.Dict

namespace SyncSystem.Cache

open SyncSystem.Python

inductive CacheState where
  | modified
  | owned
  | exclusive
  | shared
  | invalid
  deriving DecidableEq, Repr

structure CacheLine (α δ : Type) where
  address : α
  state : CacheState
  data : Option δ
  lastUpdated : Rat
  version : Nat

/-- The messages a node sends to its peers. -/
inductive CacheMessage (α : Type) where
  | cacheReadRequest (address : α) (requestor : String)
  | snoop (address : α) (operation source : String)
  | invalidate (address : α) (source : String)
  | upgradeRequest (address : α) (source : String)

variable {α δ : Type} [BEq α]

/-! ## `LRUReplacement` -/

structure LRUReplacement (α : Type) [BEq α] where
  capacity : Nat
  accessOrder : Dict α Unit

namespace LRUReplacement

/-- `touch`. -/
def touch (l : LRUReplacement α) (address : α) : LRUReplacement α :=
  let order := (l.accessOrder.del address).set address ()
  { l with accessOrder := if order.size > l.capacity then order.popFirst else order }

/-- `evict`. -/
def evict (l : LRUReplacement α) : Option α := l.accessOrder.keys.head?

/-- `remove`. -/
def remove (l : LRUReplacement α) (address : α) : LRUReplacement α :=
  { l with accessOrder := l.accessOrder.del address }

end LRUReplacement

/-! ## `CacheNode` -/

structure CacheNode (α δ : Type) [BEq α] where
  nodeId : String
  peers : List String
  maxSize : Nat
  ttl : Rat
  cache : Dict α (CacheLine α δ)
  lru : LRUReplacement α
  hitCount : Nat
  missCount : Nat
  invalidationCount : Nat
  outbox : List (String × CacheMessage α)

namespace CacheNode

/-- `CacheNode.__init__`. -/
def init (nodeId : String) (peers : List String) (maxSize : Nat) (ttl : Rat) : CacheNode α δ where
  nodeId := nodeId
  peers := peers
  maxSize := maxSize
  ttl := ttl
  cache := .empty
  lru := ⟨maxSize, .empty⟩
  hitCount := 0
  missCount := 0
  invalidationCount := 0
  outbox := []

/-- A task for every peer that sends it `msg`. -/
def sendToPeers (n : CacheNode α δ) (msg : CacheMessage α) : CacheNode α δ :=
  { n with outbox := n.outbox ++ n.peers.map (fun peer => (peer, msg)) }

/-- `_request_from_peer`. -/
def requestFromPeer (n : CacheNode α δ) (address : α) : CacheNode α δ :=
  n.sendToPeers (.cacheReadRequest address n.nodeId)

/-- `_send_snoop`. -/
def sendSnoop (n : CacheNode α δ) (address : α) (operation : String) : CacheNode α δ :=
  n.sendToPeers (.snoop address operation n.nodeId)

/-- `_broadcast_invalidation`. -/
def broadcastInvalidation (n : CacheNode α δ) (address : α) : CacheNode α δ :=
  { n with invalidationCount := n.invalidationCount + 1 }.sendToPeers
    (.invalidate address n.nodeId)

/-- `_broadcast_upgrade`. -/
def broadcastUpgrade (n : CacheNode α δ) (address : α) : CacheNode α δ :=
  n.sendToPeers (.upgradeRequest address n.nodeId)

/-- `read`. A miss asks the peers and then looks again, now at lines of
any state. -/
def read (n : CacheNode α δ) (address : α) : CacheNode α δ × Option δ :=
  let miss := ({ n with missCount := n.missCount + 1 }.requestFromPeer address,
    (n.cache.get? address).bind CacheLine.data)
  match n.cache.get? address with
  | none => miss
  | some line =>
      if line.state ≠ .invalid then
        ({ n with lru := n.lru.touch address, hitCount := n.hitCount + 1 }.sendSnoop
            address "read_shared",
          line.data)
      else miss

/-- `write` from the eviction to the end: the line is new. -/
def install (n : CacheNode α δ) (address : α) (data : δ) (now : Rat) : CacheNode α δ :=
  { n with
    cache := n.cache.set address ⟨address, .modified, some data, now, 1⟩
    lru := n.lru.touch address }.broadcastInvalidation address

/-- `del self.cache[evicted]` and `self.lru.remove(evicted)`. -/
def evict (n : CacheNode α δ) (evicted : α) : CacheNode α δ :=
  { n with cache := n.cache.del evicted, lru := n.lru.remove evicted }

/-- The part of `write` for an address that is not held MODIFIED. An
evicted address that is not in the cache raises. -/
def writeNew (n : CacheNode α δ) (address : α) (data : δ) (now : Rat) :
    CacheNode α δ × Except PyError Bool :=
  let n' := n.broadcastUpgrade address
  if !n.cache.contains address && decide (n.cache.size ≥ n.maxSize) then
    match n.lru.evict with
    | none => (n'.install address data now, .ok true)
    | some evicted =>
        if n.cache.contains evicted then ((n'.evict evicted).install address data now, .ok true)
        else (n', .error .keyError)
  else (n'.install address data now, .ok true)

/-- `write`. -/
def write (n : CacheNode α δ) (address : α) (data : δ) (now : Rat) :
    CacheNode α δ × Except PyError Bool :=
  match n.cache.get? address with
  | none => n.writeNew address data now
  | some line =>
      if line.state = .modified then
        ({ n with
            cache := n.cache.set address { line with
              data := some data
              lastUpdated := now
              version := line.version + 1 }
            lru := n.lru.touch address }.broadcastInvalidation address,
          .ok true)
      else n.writeNew address data now

/-- `handle_snoop`. -/
def handleSnoop (n : CacheNode α δ) (address : α) (operation : String) : CacheNode α δ :=
  match n.cache.get? address with
  | none => n
  | some line =>
      if operation = "read_shared" then
        if line.state = .modified then
          { n with cache := n.cache.set address { line with state := .owned } }
        else n
      else if operation = "invalidate" then
        { n with cache := n.cache.set address { line with state := .invalid } }
      else n

/-- `invalidate`. -/
def invalidate (n : CacheNode α δ) (address : α) : CacheNode α δ × Bool :=
  match n.cache.get? address with
  | none => (n, false)
  | some line => ({ n with cache := n.cache.set address { line with state := .invalid } }, true)

/-- The lines that are older than `ttl`. -/
def expiredLines (n : CacheNode α δ) (now : Rat) : List (α × CacheLine α δ) :=
  n.cache.entries.filter fun e => now - e.2.lastUpdated > n.ttl

/-- The addresses in `expired`. -/
def expired (n : CacheNode α δ) (now : Rat) : List α := (n.expiredLines now).map (·.1)

/-- One pass of `_cache_cleanup`. -/
def cleanup (n : CacheNode α δ) (now : Rat) : CacheNode α δ := (n.expired now).foldl evict n

/-- What every deletion keeps is kept by the cleanup. -/
theorem cleanup_keeps {P : CacheNode α δ → Prop} (hkeeps : ∀ m a, P m → P (m.evict a))
    {n : CacheNode α δ} (h : P n) (now : Rat) : P (n.cleanup now) :=
  List.foldlRecOn _ evict h (fun m hm a _ => hkeeps m a hm)

/-! ### What the cache table is after a method -/

@[simp] theorem sendToPeers_cache (n : CacheNode α δ) (msg : CacheMessage α) :
    (n.sendToPeers msg).cache = n.cache := rfl

@[simp] theorem install_cache (n : CacheNode α δ) (address : α) (data : δ) (now : Rat) :
    (n.install address data now).cache =
      n.cache.set address ⟨address, .modified, some data, now, 1⟩ := rfl

@[simp] theorem evict_cache (n : CacheNode α δ) (evicted : α) :
    (n.evict evicted).cache = n.cache.del evicted := rfl

/-- A read changes no line. -/
@[simp] theorem read_cache (n : CacheNode α δ) (address : α) : (n.read address).1.cache = n.cache := by
  unfold read
  split
  · rfl
  · split <;> rfl

/-- What a write does to the table: nothing when it raises, else the
address has a MODIFIED line with the data, and at most one other line is
gone. -/
theorem write_cases (n : CacheNode α δ) (address : α) (data : δ) (now : Rat) :
    ((∃ e, (n.write address data now).2 = .error e) ∧
      (n.write address data now).1.cache = n.cache) ∨
    ((n.write address data now).2 = .ok true ∧
      ∃ line, line.state = .modified ∧ line.data = some data ∧
        ((n.write address data now).1.cache = n.cache.set address line ∨
          ∃ evicted, (n.write address data now).1.cache =
            (n.cache.del evicted).set address line)) := by
  have hnew : ((∃ e, (n.writeNew address data now).2 = .error e) ∧
      (n.writeNew address data now).1.cache = n.cache) ∨
      ((n.writeNew address data now).2 = .ok true ∧
        ∃ line, line.state = .modified ∧ line.data = some data ∧
          ((n.writeNew address data now).1.cache = n.cache.set address line ∨
            ∃ evicted, (n.writeNew address data now).1.cache =
              (n.cache.del evicted).set address line)) := by
    simp only [writeNew]
    split
    · split
      · exact Or.inr ⟨rfl, _, rfl, rfl, Or.inl rfl⟩
      · next evicted _ =>
        split
        · exact Or.inr ⟨rfl, _, rfl, rfl, Or.inr ⟨evicted, rfl⟩⟩
        · exact Or.inl ⟨⟨_, rfl⟩, rfl⟩
    · exact Or.inr ⟨rfl, _, rfl, rfl, Or.inl rfl⟩
  unfold write
  split
  · exact hnew
  · next line _ =>
    split
    · next hmodified =>
      exact Or.inr ⟨rfl, { line with data := some data, lastUpdated := now, version := line.version + 1 },
        hmodified, rfl, Or.inl rfl⟩
    · exact hnew

/-- Nothing but the state of the line at `address` has changed. -/
structure Restates (n n' : CacheNode α δ) (address : α) : Prop where
  lru : n'.lru = n.lru
  maxSize : n'.maxSize = n.maxSize
  cache : n'.cache = n.cache ∨ ∃ line state, n.cache.get? address = some line ∧
    n'.cache = n.cache.set address { line with state := state }

theorem restates_invalidate (n : CacheNode α δ) (address : α) :
    Restates n (n.invalidate address).1 address := by
  unfold invalidate
  split
  · exact ⟨rfl, rfl, Or.inl rfl⟩
  · next line hget => exact ⟨rfl, rfl, Or.inr ⟨line, _, hget, rfl⟩⟩

theorem restates_handleSnoop (n : CacheNode α δ) (address : α) (operation : String) :
    Restates n (n.handleSnoop address operation) address := by
  unfold handleSnoop
  split
  · exact ⟨rfl, rfl, Or.inl rfl⟩
  · next line hget =>
    split
    · split
      · exact ⟨rfl, rfl, Or.inr ⟨line, _, hget, rfl⟩⟩
      · exact ⟨rfl, rfl, Or.inl rfl⟩
    · split
      · exact ⟨rfl, rfl, Or.inr ⟨line, _, hget, rfl⟩⟩
      · exact ⟨rfl, rfl, Or.inl rfl⟩

theorem Restates.keys {n n' : CacheNode α δ} {address : α} (h : Restates n n' address) :
    n'.cache.keys = n.cache.keys := by
  rcases h.cache with hcache | ⟨line, state, hget, hcache⟩
  · rw [hcache]
  · rw [hcache, Dict.keys_set_present (Dict.contains_eq_true.mpr ⟨line, hget⟩)]

variable [PartialEquivBEq α]

/-- An address that is held stays held. -/
theorem Restates.contains {n n' : CacheNode α δ} {address a : α} (h : Restates n n' address)
    (ha : n.cache.contains a = true) : n'.cache.contains a = true := by
  rcases h.cache with hcache | ⟨line, state, _, hcache⟩
  · rwa [hcache]
  · rw [hcache, Dict.contains_set, ha, Bool.or_true]

/-- The lines of the other addresses are as before. -/
theorem Restates.get?_other {n n' : CacheNode α δ} {address a : α} (h : Restates n n' address)
    (ha : (address == a) = false) : n'.cache.get? a = n.cache.get? a := by
  rcases h.cache with hcache | ⟨line, state, _, hcache⟩
  · rw [hcache]
  · simp [hcache, Dict.get?_set, ha]

/-- A write adds no other address. -/
theorem contains_write {n : CacheNode α δ} {address b : α} {data : δ} {now : Rat}
    (h : (n.write address data now).1.cache.contains b = true) :
    (address == b) = true ∨ n.cache.contains b = true := by
  rcases n.write_cases address data now with
    ⟨_, heq⟩ | ⟨_, line, _, _, heq | ⟨evicted, heq⟩⟩
  · rw [heq] at h
    exact Or.inr h
  · rw [heq, Dict.contains_set, Bool.or_eq_true] at h
    exact h
  · rw [heq, Dict.contains_set, Bool.or_eq_true] at h
    exact h.imp_right Dict.contains_of_contains_del

/-- Deleting addresses one by one. -/
theorem contains_foldl_evict (evicted : List α) (n : CacheNode α δ) (b : α) :
    (evicted.foldl evict n).cache.contains b =
      (!(evicted.any (· == b)) && n.cache.contains b) := by
  induction evicted generalizing n with
  | nil => rfl
  | cons e rest ih =>
    rw [List.foldl_cons, ih, evict_cache, Dict.contains_del, List.any_cons]
    cases e == b <;> simp

/-- The cleanup adds no address. -/
theorem contains_cleanup {n : CacheNode α δ} {b : α} {now : Rat}
    (h : (n.cleanup now).cache.contains b = true) : n.cache.contains b = true := by
  rw [cleanup, contains_foldl_evict, Bool.and_eq_true] at h
  exact h.2

end CacheNode

end SyncSystem.Cache
