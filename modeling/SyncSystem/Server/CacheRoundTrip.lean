/-
SyncSystem.Server.CacheRoundTrip — what is read of what has been written,
through the API of a server.

A `cache_write` encodes a string and puts the bytes into a line; the line
stays as it is while nothing else is done at its address and it is not
evicted (`line_kept`); a `cache_read` finds it and decodes it. Encoding
and decoding are inverse (`decodeData_toUTF8`), but before it decodes the
read asks whether there is any data by asking whether the data is true,
and empty bytes are not. So the empty string, and no other, comes back as
no value (`round_trip_iff`).
-/
import SyncSystem.Cache.Reads
import SyncSystem.Server.CacheRequests
import SyncSystem.Text.Utf8

namespace SyncSystem.Server

open SyncSystem.Python
open SyncSystem.Cache
open SyncSystem.Text (fromUTF8?_toUTF8 isEmpty_toUTF8)

variable {ω : Type}

/-! ## Encoding and decoding -/

/-- Only the empty string is not decoded to itself. -/
theorem decodeData_toUTF8 (v : String) :
    decodeData (some v.toUTF8) = .ok (if v = "" then .null else .str v) := by
  simp only [decodeData, isEmpty_toUTF8, fromUTF8?_toUTF8]
  split <;> rfl

/-! ## The requests -/

/-- An integer as an address. -/
def intKey (n : Int) : Key := ⟨.int n, rfl⟩

theorem key_int (n : Int) : (Json.int n).key = .ok (intKey n) := rfl

/-- The request has this action and address; `type` does not make it a
message for the Raft node. -/
structure AsksFor (action : String) (n : Int) (request : Obj) : Prop where
  external : isRaftRequest request = false
  action : Obj.get request "action" .null = .str action
  address : Obj.get request "address" (.int 0) = .int n

/-- A `cache_write` of `v`. -/
structure Writes (n : Int) (v : String) (request : Obj) : Prop extends
    AsksFor "cache_write" n request where
  data : Obj.get request "data" (.str "") = .str v

theorem cacheOp_of_writes {n : Int} {v : String} {request : Obj} (h : Writes n v request)
    (now : Rat) : cacheOp request now = some (.write (intKey n) v.toUTF8 now) := by
  simp [cacheOp, h.external, h.action, h.address, h.data, key_int]

/-- The operation is at this address. -/
def opAt (a : Key) : CacheOp Key ByteArray → Bool
  | .read b => b == a
  | .write b _ _ => b == a
  | .invalidate b => b == a
  | .handleSnoop b _ => b == a
  | .cleanup _ => false

/-- The step is no operation at the address, and the address is still in
the cache after it: a sweep that finds its line expired is one at the
address, like the eviction of the line. -/
def LeavesAlone (other : Handler components ω) (a : Key) (d : ServerRun ω)
    (action : ServerAction ω) : Prop :=
  action.cacheOp.all (fun op => !opAt a op) = true ∧
    (d.2.step other action).all (fun r => r.1.cache.cache.contains a) = true

instance (other : Handler components ω) (a : Key) (d : ServerRun ω) (action : ServerAction ω) :
    Decidable (LeavesAlone other a d action) :=
  inferInstanceAs (Decidable (_ ∧ _))

/-! ## The line in between -/

/-- The address has a line with these bytes. -/
def Stores (n : CacheNode Key ByteArray) (a : Key) (bytes : ByteArray) : Prop :=
  (n.cache.get? a).bind CacheLine.data = some bytes

theorem Stores.of_get? {n n' : CacheNode Key ByteArray} {a : Key} {bytes : ByteArray}
    (h : Stores n a bytes) (hget : n'.cache.get? a = n.cache.get? a) : Stores n' a bytes := by
  unfold Stores
  rw [hget]
  exact h

/-- An operation at another address that does not lose the line. -/
theorem Stores.apply {n : CacheNode Key ByteArray} {a : Key} {bytes : ByteArray}
    (h : Stores n a bytes) {op : CacheOp Key ByteArray} (hat : opAt a op = false)
    (hkept : (n.apply op).1.cache.contains a = true) : Stores (n.apply op).1 a bytes := by
  cases op with
  | read b => exact h.of_get? (by simp [CacheNode.apply])
  | write b data now => exact h.of_get? (CacheNode.get?_write_other hat hkept)
  | invalidate b => exact h.of_get? ((n.restates_invalidate b).get?_other hat)
  | handleSnoop b operation => exact h.of_get? ((n.restates_handleSnoop b operation).get?_other hat)
  | cleanup now =>
    simp only [CacheNode.apply, CacheNode.cacheCleanup_eq] at hkept ⊢
    rcases n.get?_cleanup now a with hget | hnone
    · exact h.of_get? hget
    · simp [Dict.contains, hnone] at hkept

theorem line_kept {other : Handler components ω} {a : Key} {bytes : ByteArray} {s : CacheServer ω}
    {c : ServerRun ω} (h : (CacheServer.machine other).Leads (LeavesAlone other a) ([], s) c)
    (hs : Stores s.cache a bytes) : Stores c.2.cache a bytes := by
  refine h.invariant (I := fun c => Stores c.2.cache a bytes) hs ?_
  intro d action s' out _ ih hok hstep
  obtain ⟨hat, hkept⟩ := hok
  have hs' : d.2.step other action = some (s', out) := hstep
  simp only [hs', Option.all_some] at hkept
  have hcache := CacheServer.step_cache hs'
  rw [Config.push_state, hcache]
  cases hop : action.cacheOp with
  | none => exact ih
  | some op =>
    rw [hop] at hat hcache
    simp only [Option.all_some, Bool.not_eq_true', Option.elim_some] at hat hcache ⊢
    exact ih.apply hat (by rw [← hcache]; exact hkept)

/-! ## Write, then read -/

/-- The line after a write. -/
theorem stores_serve {other : Handler components ω} {s : CacheServer ω} (hs : Listed s.cache)
    {n : Int} {v : String} {request : Obj} (h : Writes n v request) (now : Rat) :
    Stores (s.serve other request now).1.cache (intKey n) v.toUTF8 := by
  have hcache := run_cache other s.server now request s.comps
  rw [cacheOp_of_writes h, Option.elim_some] at hcache
  obtain ⟨line, hget, _, hdata⟩ := hs.get?_write (intKey n) v.toUTF8 now
  have hserve : (s.serve other request now).1.cache =
      (s.cache.write (intKey n) v.toUTF8 now).1 := hcache
  rw [Stores, hserve, hget]
  exact hdata

/-- The response to a read. -/
theorem serve_read {other : Handler components ω} {s : CacheServer ω} {n : Int} {v : String}
    (hs : Stores s.cache (intKey n) v.toUTF8) {request : Obj}
    (h : AsksFor "cache_read" n request) (now : Rat) :
    (s.serve other request now).2 =
      some [("address", .int n), ("data", if v = "" then .null else .str v)] := by
  have hread : (s.comps.cache.read (intKey n)).2 = some v.toUTF8 :=
    (s.comps.cache.read_answer (intKey n)).trans hs
  rw [CacheServer.serve_response h.external, performAction_read h.action]
  simp only [cacheRead, run_invoke, cacheHandler, h.address, key_int, hread, decodeData_toUTF8]
  rfl

/-- **The cache round trip.** In every state of a server a value that is
written, then left alone and then read comes back exactly if it is not empty. -/
theorem round_trip_iff {other : Handler components ω} {server : NodeServer} {peers : List String}
    {maxSize : Nat} {ttl : Rat} {rest : ω} {c c' : ServerRun ω} {n : Int} {v : String}
    {write read : Obj} {now : Rat}
    (h : (CacheServer.machine other).Leads Machine.always
      ([], .init server peers maxSize ttl rest) c)
    (hwrite : Writes n v write)
    (hbetween : (CacheServer.machine other).Leads (LeavesAlone other (intKey n))
      ([], (c.2.serve other write now).1) c')
    (hread : AsksFor "cache_read" n read) (now' : Rat) :
    (∃ response, (c'.2.serve other read now').2 = some response ∧
      Obj.get response "data" .null = .str v) ↔ v ≠ "" := by
  have hstores := line_kept hbetween (stores_serve (listed_of_leads h) hwrite now)
  rw [serve_read hstores hread]
  by_cases hv : v = ""
  · simp [hv, Obj.get, List.lookup_cons]
  · simp [hv, Obj.get, List.lookup_cons]

/-! ## A server with room for two lines -/

def cacheRequest (action : String) (address : Int) (data : String) : Obj :=
  [("action", .str action), ("address", .int address), ("data", .str data)]

theorem writes_cacheRequest (n : Int) (v : String) :
    Writes n v (cacheRequest "cache_write" n v) := ⟨⟨rfl, rfl, rfl⟩, rfl⟩

theorem asksFor_cacheRequest (n : Int) :
    AsksFor "cache_read" n (cacheRequest "cache_read" n "") := ⟨rfl, rfl, rfl⟩

/-- A lock manager and a queue that raise on every call. -/
def deafHandler : Handler components Unit := fun c s =>
  ((.error .keyError : Except PyError c.Result), s)

def soleServer : NodeServer where
  nodeId := "node_1"
  nodeType := "cache"
  raft := .init "node_1" [] 8001
  failureDetector := .init "node_1" [] 30 0

def smallServer : CacheServer Unit := .init soleServer [] 2 300 ()

/-- Address 6 is taken, then address 5 is written, with an eviction of 6
and a pass of the cleanup before it is read. -/
def crowdedRun : List (ServerAction Unit) :=
  [.request (cacheRequest "cache_write" 7 "y") 2, .request (cacheRequest "cache_stats" 0 "") 3,
   .cleanup 200, .background soleServer ()]

theorem round_trip_iff_crowdedRun :
    ∃ c c', (CacheServer.machine deafHandler).Leads Machine.always ([], smallServer) c ∧
      c.2.cache.cache.contains (intKey 6) = true ∧
      (CacheServer.machine deafHandler).Leads (LeavesAlone deafHandler (intKey 5))
        ([], (c.2.serve deafHandler (cacheRequest "cache_write" 5 "ä") 1).1) c' ∧
      c'.2.cache.cache.contains (intKey 6) = false ∧
      ∃ response, (c'.2.serve deafHandler (cacheRequest "cache_read" 5 "") 201).2 = some response ∧
        Obj.get response "data" .null = .str "ä" := by
  obtain ⟨c, hc, hp⟩ := Machine.exists_leads_of_exec (CacheServer.machine deafHandler)
    Machine.always ([], smallServer) [.request (cacheRequest "cache_write" 6 "x") 0]
    (fun (c : ServerRun Unit) => c.2.cache.cache.contains (intKey 6) &&
      ((CacheServer.machine deafHandler).exec (LeavesAlone deafHandler (intKey 5))
        ([], (c.2.serve deafHandler (cacheRequest "cache_write" 5 "ä") 1).1) crowdedRun).any
        (fun (c' : ServerRun Unit) => !c'.2.cache.cache.contains (intKey 6)))
    (by decide +kernel)
  rw [Bool.and_eq_true] at hp
  obtain ⟨c', hc', hgone⟩ := Machine.exists_leads_of_exec (CacheServer.machine deafHandler)
    (LeavesAlone deafHandler (intKey 5)) _ crowdedRun _ hp.2
  refine ⟨c, c', hc, hp.1, hc', by simpa using hgone, ?_⟩
  exact (round_trip_iff hc (writes_cacheRequest 5 "ä") hc' (asksFor_cacheRequest 5)
    201).mpr (by decide)

/-- The empty string is written and read at once. -/
theorem empty_string_not_read :
    ∃ c c', (CacheServer.machine deafHandler).Leads Machine.always ([], smallServer) c ∧
      (CacheServer.machine deafHandler).Leads (LeavesAlone deafHandler (intKey 5))
        ([], (c.2.serve deafHandler (cacheRequest "cache_write" 5 "") 0).1) c' ∧
      ¬ ∃ response, (c'.2.serve deafHandler (cacheRequest "cache_read" 5 "") 1).2 =
        some response ∧ Obj.get response "data" .null = .str "" := by
  refine ⟨([], smallServer), _, .refl, .refl, ?_⟩
  have hlisted : Listed smallServer.cache := listed_init "node_1" [] 2 300
  rw [serve_read (stores_serve hlisted (writes_cacheRequest 5 "") 0) (asksFor_cacheRequest 5)]
  simp [Obj.get, List.lookup_cons]

end SyncSystem.Server
