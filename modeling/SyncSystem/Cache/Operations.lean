/-
SyncSystem.Cache.Operations — a cache node under any sequence of its
operations.

Every operation is one critical section that does not suspend, so a run
is a list of operations. What an operation does is recorded as it shows
from outside: a read is answered, data is written, a line is invalidated,
and an address that was in `cache` before and is not there afterwards has
been evicted (by a write) or has expired (in the sweep).

The sweep looks every expired address up and deletes it; `cacheCleanup`
has the `KeyError` that a missing one would raise, and never raises it
(`cacheCleanup_eq`).
-/
import SyncSystem.Cache.Node
import SyncSystem.Machine.Runs

namespace SyncSystem.Cache

open SyncSystem.Python

variable {α δ : Type} [BEq α]

/-! ## The sweep with its lookups -/

namespace CacheNode

/-- The loop over the expired addresses: `self.cache[addr]`, then
`del self.cache[addr]` and `self.lru.remove(addr)`. -/
def sweepLoop (n : CacheNode α δ) : List α → CacheNode α δ × Except PyError Unit
  | [] => (n, .ok ())
  | addr :: rest =>
      match n.cache.get? addr with
      | none => (n, .error .keyError)
      | some _ => (n.evict addr).sweepLoop rest

/-- `_cache_cleanup`. -/
def cacheCleanup (n : CacheNode α δ) (now : Rat) : CacheNode α δ × Except PyError Unit :=
  n.sweepLoop (n.expired now)

theorem sweepLoop_eq [PartialEquivBEq α] {n : CacheNode α δ} {addrs : List α}
    (hin : ∀ a ∈ addrs, n.cache.contains a = true)
    (hne : addrs.Pairwise (fun a b => (a == b) = false)) :
    n.sweepLoop addrs = (addrs.foldl evict n, .ok ()) := by
  induction addrs generalizing n with
  | nil => rfl
  | cons addr rest ih =>
    obtain ⟨hfirst, hrest⟩ := List.pairwise_cons.mp hne
    obtain ⟨line, hline⟩ := Dict.contains_eq_true.mp (hin addr List.mem_cons_self)
    simp only [sweepLoop, hline]
    refine ih ?_ hrest
    intro a ha
    rw [evict_cache, Dict.contains_del, hfirst a ha]
    simpa using hin a (List.mem_cons_of_mem _ ha)

theorem contains_expired [ReflBEq α] (n : CacheNode α δ) (now : Rat) :
    ∀ a ∈ n.expired now, n.cache.contains a = true := by
  intro a ha
  obtain ⟨e, he, rfl⟩ := List.mem_map.mp ha
  exact Dict.contains_iff_keys.mpr
    ⟨e.1, List.mem_map_of_mem (List.mem_of_mem_filter he), BEq.rfl⟩

theorem expired_distinct (n : CacheNode α δ) (now : Rat) :
    (n.expired now).Pairwise (fun a b => (a == b) = false) :=
  List.pairwise_map.mpr (n.cache.distinct.sublist List.filter_sublist)

/-- Every lookup of the sweep finds its line. -/
theorem cacheCleanup_eq [EquivBEq α] (n : CacheNode α δ) (now : Rat) :
    n.cacheCleanup now = (n.cleanup now, .ok ()) :=
  sweepLoop_eq (n.contains_expired now) (n.expired_distinct now)

/-- A read of `address` finds a line that is not INVALID. -/
def hits (n : CacheNode α δ) (address : α) : Bool :=
  (n.cache.get? address).any (fun line => line.state ≠ .invalid)

/-- The line at `address` is INVALID. -/
def heldInvalid (n : CacheNode α δ) (address : α) : Bool :=
  (n.cache.get? address).any (fun line => line.state = .invalid)

theorem hits_iff {n : CacheNode α δ} {address : α} : n.hits address = true ↔
    ∃ line, n.cache.get? address = some line ∧ line.state ≠ .invalid := by
  simp [hits, Option.any_eq_true]

theorem heldInvalid_iff {n : CacheNode α δ} {address : α} : n.heldInvalid address = true ↔
    ∃ line, n.cache.get? address = some line ∧ line.state = .invalid := by
  simp [heldInvalid, Option.any_eq_true]

/-- A hit touches the address. -/
theorem read_hit {n : CacheNode α δ} {address : α} (h : n.hits address = true) :
    (n.read address).1.lru = n.lru.touch address ∧
      (n.read address).1.maxSize = n.maxSize := by
  obtain ⟨line, hget, hvalid⟩ := hits_iff.mp h
  simp [read, hget, hvalid, sendSnoop, sendToPeers]

/-- A miss changes neither dictionary. -/
theorem read_miss {n : CacheNode α δ} {address : α} (h : n.hits address = false) :
    (n.read address).1.lru = n.lru ∧ (n.read address).1.maxSize = n.maxSize := by
  unfold read
  split
  · exact ⟨rfl, rfl⟩
  · next line hget =>
    split
    · next hvalid =>
      have hhit := hits_iff.mpr ⟨line, hget, hvalid⟩
      rw [h] at hhit
      cases hhit
    · exact ⟨rfl, rfl⟩

/-- Whatever the state of the line, its data is the answer. -/
theorem read_answer (n : CacheNode α δ) (address : α) :
    (n.read address).2 = (n.cache.get? address).bind CacheLine.data := by
  unfold read
  split
  · next hget => simp [hget]
  · next line hget =>
    split
    · simp [hget]
    · rfl

/-- The addresses that are in the cache here and not there. -/
def gone (n n' : CacheNode α δ) : List α := n.cache.keys.filter (fun a => !n'.cache.contains a)

end CacheNode

/-! ## Operations and what they do -/

inductive CacheOp (α δ : Type) where
  | read (address : α)
  | write (address : α) (data : δ) (now : Rat)
  | invalidate (address : α)
  | handleSnoop (address : α) (operation : String)
  | cleanup (now : Rat)

inductive CacheEvent (α δ : Type) where
  /-- `read` returns. -/
  | answered (address : α) (data : Option δ)
  /-- `write` returns. -/
  | written (address : α) (data : δ)
  /-- `invalidate`, or a snoop with this operation. -/
  | invalidated (address : α)
  | evicted (address : α)
  | expired (address : α)
  | raised (e : PyError)

namespace CacheNode

/-- One operation. -/
def apply (n : CacheNode α δ) : CacheOp α δ → CacheNode α δ × List (CacheEvent α δ)
  | .read address => ((n.read address).1, [.answered address (n.read address).2])
  | .write address data now =>
      let (n', result) := n.write address data now
      (n', (n.gone n').map .evicted ++
        match result with
        | .ok _ => [.written address data]
        | .error e => [.raised e])
  | .invalidate address => ((n.invalidate address).1, [.invalidated address])
  | .handleSnoop address operation =>
      (n.handleSnoop address operation,
        if operation = "invalidate" then [.invalidated address] else [])
  | .cleanup now =>
      let (n', result) := n.cacheCleanup now
      (n', (n.gone n').map .expired ++
        match result with
        | .ok _ => []
        | .error e => [.raised e])

/-- A cache node under any sequence of operations. -/
def machine : Machine (CacheNode α δ) (CacheOp α δ) (List (CacheEvent α δ)) :=
  ⟨fun n op => some (n.apply op)⟩

theorem machine_step {n n' : CacheNode α δ} {op : CacheOp α δ} {out : List (CacheEvent α δ)} :
    machine.step n op = some (n', out) ↔ n.apply op = (n', out) := by
  simp [machine]

end CacheNode

abbrev CacheNodeRun (α δ : Type) [BEq α] :=
  Config (CacheNode α δ) (CacheOp α δ) (List (CacheEvent α δ))

end SyncSystem.Cache
