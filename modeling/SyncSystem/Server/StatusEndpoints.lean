/-
SyncSystem.Server.StatusEndpoints — whether requests can break
`cache_stats` and `get_status`.

The cache takes any hashable value for an address; its statistics format
every address with `hex`, which only an integer has. All else in the two
responses is counted, and nothing that counts raises. So one write to a
string, a float or `null` ends both endpoints for as long as the line is
there (`string_address_poisons`), and they answer in every state of a run
exactly if there is no such write (`status_answers_iff`).

What the lock manager and the queue do with their calls is left open:
`statistics` fixes only what they answer when they are counted.
-/
import SyncSystem.Queue.Statistics
import SyncSystem.Server.AccessControl
import SyncSystem.Server.CacheRequests

namespace SyncSystem.Server

open SyncSystem.Python
open SyncSystem.Cache
open SyncSystem.Locks (LockManager)
open SyncSystem.Queue (QueueTables)

/-! ## The components that are counted -/

structure Backend (μ : Type) where
  locks : LockManager Key Json
  queue : QueueTables μ

variable {μ ω : Type}

/-- `len(self.lock_manager.locks)` and `get_queue_stats`; the other calls
do anything. -/
def statistics (other : Handler components (Backend μ)) : Handler components (Backend μ)
  | .locksHeld, s => (.ok s.locks.locks.size, s)
  | .getQueueStats, s => (.ok s.queue.getQueueStats, s)
  | c, s => other c s

/-- A `cache_stats` or `get_status` request. -/
def isStatusRequest (request : Obj) : Bool :=
  !isRaftRequest request &&
    (Obj.get request "action" .null).isIn [.str "cache_stats", .str "get_status"]

namespace CacheServer

/-- Both endpoints return a response. -/
def StatusAnswers (other : Handler components ω) (s : CacheServer ω) : Prop :=
  ∀ request now, isStatusRequest request = true → (s.serve other request now).2.isSome = true

/-- `hex(v)` does not raise. -/
def hasHex : Json → Bool
  | .int _ => true
  | .bool _ => true
  | _ => false

/-- The step writes to an address that has no `hex` and is not in the
cache. -/
def poisons (s : CacheServer ω) (a : ServerAction ω) : Bool :=
  match a.cacheOp with
  | some (.write k _ _) => !hasHex k.value && !s.cache.cache.contains k
  | _ => false

end CacheServer

open CacheServer (hasHex)

/-! ## What the endpoints need -/

/-- Every address of the table is an integer or a boolean. -/
def AllHex (n : CacheNode Key ByteArray) : Prop := ∀ a ∈ n.cache.keys, hasHex a.value = true

theorem hex_ok_iff {v : Json} : (∃ s, hex v = .ok s) ↔ hasHex v = true := by
  cases v <;> simp [hex, hasHex]

/-- The comprehension raises exactly if one of its addresses has no `hex`. -/
theorem statesOf_ok_iff {es : List (Key × CacheLine Key ByteArray)} :
    (∃ o, statesOf es = .ok o) ↔ ∀ e ∈ es, hasHex e.1.value = true := by
  induction es with
  | nil => simp [statesOf]
  | cons e rest ih =>
    obtain ⟨a, line⟩ := e
    rw [List.forall_mem_cons, ← ih, ← hex_ok_iff]
    simp only [statesOf]
    cases hex a.value with
    | error err => simp [bind, Except.bind]
    | ok name =>
      cases statesOf rest with
      | error err => simp [bind, Except.bind]
      | ok others => simp [bind, Except.bind, pure, Except.pure]

theorem getCacheStats_ok_iff {n : CacheNode Key ByteArray} :
    (∃ o, n.getCacheStats = .ok o) ↔ AllHex n := by
  have hkeys : AllHex n ↔ ∀ e ∈ n.cache.entries, hasHex e.1.value = true := by
    simp [AllHex, Dict.keys]
  rw [hkeys, ← statesOf_ok_iff]
  simp only [CacheNode.getCacheStats]
  cases statesOf n.cache.entries with
  | error err => simp [bind, Except.bind]
  | ok states => simp [bind, Except.bind, pure, Except.pure]

section Responses

variable {other : Handler components (Backend μ)} {now : Rat} {comp : Components (Backend μ)}

/-- A response that is made of the statistics of the cache. -/
theorem run_getCacheStats {k : Obj → Action} (hk : ∀ o, ∃ r, k o = respond r) :
    (∃ r, ((invoke .getCacheStats k).run (cacheHandler (statistics other) now) comp).1 = .ok r) ↔
      AllHex comp.cache := by
  rw [← getCacheStats_ok_iff]
  have hrun := run_invoke (cacheHandler (statistics other) now) .getCacheStats k comp
  rw [hrun]
  simp only [cacheHandler]
  cases comp.cache.getCacheStats with
  | error e => simp
  | ok o =>
    obtain ⟨r, hr⟩ := hk o
    simp [hr, respond]

/-- The lock manager and the queue are counted first. -/
theorem run_getStatus (s : NodeServer) :
    (∃ r, ((getStatus s).run (cacheHandler (statistics other) now) comp).1 = .ok r) ↔
      AllHex comp.cache :=
  run_getCacheStats fun _ => ⟨_, rfl⟩

end Responses

theorem performAction_cacheStats {s : NodeServer} {request : Obj}
    (h : Obj.get request "action" .null = .str "cache_stats") :
    performAction s request = cacheStats := by
  simp [performAction, h]

theorem performAction_getStatus {s : NodeServer} {request : Obj}
    (h : Obj.get request "action" .null = .str "get_status") :
    performAction s request = getStatus s := by
  simp [performAction, h]

/-- Both endpoints answer exactly if every address has a `hex`. -/
theorem statusAnswers_iff {other : Handler components (Backend μ)} {s : CacheServer (Backend μ)} :
    s.StatusAnswers (statistics other) ↔ AllHex s.cache := by
  have hsome : ∀ {x : Except PyError Obj}, x.toOption.isSome = true ↔ ∃ r, x = .ok r := by
    intro x
    cases x <;> simp [Except.toOption]
  constructor
  · intro h
    have hstats := h [("action", .str "cache_stats")] 0 rfl
    rw [CacheServer.serve_response rfl, performAction_cacheStats rfl, hsome] at hstats
    exact (run_getCacheStats fun o => ⟨o, rfl⟩).mp hstats
  · intro h request now hreq
    simp only [isStatusRequest, Bool.and_eq_true, Bool.not_eq_true'] at hreq
    obtain ⟨hext, haction⟩ := hreq
    rw [CacheServer.serve_response hext, hsome]
    rcases isIn_pair haction with haction | haction
    · rw [performAction_cacheStats haction]
      exact (run_getCacheStats fun o => ⟨o, rfl⟩).mpr h
    · rw [performAction_getStatus haction]
      exact (run_getStatus s.server).mpr h

/-! ## Steps -/

/-- A new address is new after the eviction, too, which adds none. -/
theorem absent_before {n m : CacheNode Key ByteArray} {k : Key} (h : n.cache.contains k = false)
    (hm : m = n ∨ n.cache.contains k = false ∧ ∃ v, m = n.evict v) :
    m.cache.contains k = false ∧ m.cache.keys ⊆ n.cache.keys := by
  rcases hm with rfl | ⟨_, v, rfl⟩
  · exact ⟨h, List.Subset.refl _⟩
  · rw [CacheNode.evict_cache, Dict.contains_del, h, Bool.and_false, Dict.keys_del]
    exact ⟨rfl, List.filter_sublist.subset⟩

theorem AllHex.of_keys {n n' : CacheNode Key ByteArray} (h : AllHex n)
    (hkeys : ∀ a ∈ n'.cache.keys, a ∈ n.cache.keys) : AllHex n' :=
  fun a ha => h a (hkeys a ha)

/-- A write to an address that has `hex` or is in the table already. -/
theorem AllHex.write {n : CacheNode Key ByteArray} (h : AllHex n) (hl : Listed n) {k : Key}
    (hk : hasHex k.value = true ∨ n.cache.contains k = true) (data : ByteArray) (now : Rat) :
    AllHex (n.write k data now).1 := by
  obtain ⟨_, m, line, hm, _, hcache⟩ := hl.write_eq k data now
  cases hin : n.cache.contains k with
  | true =>
    rcases hm with rfl | ⟨habsent, _⟩
    · refine h.of_keys fun a ha => ?_
      rwa [hcache, Dict.keys_set_present hin] at ha
    · rw [hin] at habsent
      cases habsent
  | false =>
    obtain ⟨hnew, hsub⟩ := absent_before hin hm
    intro a ha
    rw [hcache, Dict.keys_set_new hnew] at ha
    rcases List.mem_append.mp ha with ha | ha
    · exact h a (hsub ha)
    · rw [List.mem_singleton.mp ha]
      exact hk.resolve_right (by simp [hin])

/-- An operation that is no write to an address without `hex`, or writes
where a line is. -/
theorem AllHex.apply {n : CacheNode Key ByteArray} (h : AllHex n) (hl : Listed n)
    {op : CacheOp Key ByteArray}
    (hop : ∀ k data now, op = .write k data now →
      hasHex k.value = true ∨ n.cache.contains k = true) : AllHex (n.apply op).1 := by
  cases op with
  | read address =>
    refine h.of_keys fun a ha => ?_
    simpa only [CacheNode.apply, CacheNode.read_cache] using ha
  | write k data now => exact h.write hl (hop k data now rfl) data now
  | invalidate address =>
    refine h.of_keys fun a ha => ?_
    rwa [← (n.restates_invalidate address).keys]
  | handleSnoop address operation =>
    refine h.of_keys fun a ha => ?_
    rwa [← (n.restates_handleSnoop address operation).keys]
  | cleanup now =>
    simp only [CacheNode.apply, CacheNode.cacheCleanup_eq]
    refine CacheNode.cleanup_keeps (fun m a hm => hm.of_keys fun k hk => ?_) h now
    rw [CacheNode.evict_cache, Dict.keys_del] at hk
    exact List.mem_of_mem_filter hk

/-- A write that poisons leaves its address in the table. -/
theorem not_allHex_write {n : CacheNode Key ByteArray} (hl : Listed n) {k : Key}
    (hhex : hasHex k.value = false) (hin : n.cache.contains k = false) (data : ByteArray)
    (now : Rat) : ¬ AllHex (n.write k data now).1 := by
  obtain ⟨_, m, line, hm, _, hcache⟩ := hl.write_eq k data now
  obtain ⟨hnew, _⟩ := absent_before hin hm
  intro h
  have hk := h k (by rw [hcache, Dict.keys_set_new hnew]; simp)
  rw [hhex] at hk
  cases hk

/-! ## Runs -/

section Runs

variable {other : Handler components ω} {s s' : CacheServer ω} {a : ServerAction ω}
  {out : Option Obj}

theorem allHex_step (h : AllHex s.cache) (hl : Listed s.cache) (hok : s.poisons a = false)
    (hs : s.step other a = some (s', out)) : AllHex s'.cache := by
  rw [CacheServer.step_cache hs]
  cases hop : a.cacheOp with
  | none => exact h
  | some op =>
    refine h.apply hl ?_
    rintro k data now rfl
    simp only [CacheServer.poisons, hop, Bool.and_eq_false_iff, Bool.not_eq_false'] at hok
    exact hok

theorem not_allHex_step (h : Listed s.cache) (hpoison : s.poisons a = true)
    (hs : s.step other a = some (s', out)) : ¬ AllHex s'.cache := by
  rw [CacheServer.step_cache hs]
  cases hop : a.cacheOp with
  | none => simp [CacheServer.poisons, hop] at hpoison
  | some op =>
    cases op with
    | write k data now =>
      simp only [CacheServer.poisons, hop, Bool.and_eq_true, Bool.not_eq_true'] at hpoison
      exact not_allHex_write h hpoison.1 hpoison.2 data now
    | _ => simp [CacheServer.poisons, hop] at hpoison

theorem allHex_of_leads {server : NodeServer} {peers : List String} {maxSize : Nat} {ttl : Rat}
    {rest : ω} {c : ServerRun ω}
    (h : (CacheServer.machine other).Leads (fun d a => d.2.poisons a = false)
      ([], .init server peers maxSize ttl rest) c) : AllHex c.2.cache := by
  refine h.invariant (I := fun c => AllHex c.2.cache) ?_ ?_
  · intro a ha
    cases ha
  · intro d a s' out hd ih hok hs
    exact allHex_step ih (listed_of_leads hd) hok hs

end Runs

/-- **The status endpoints answer** in every state of a run exactly when
no request writes to an address that has no `hex` and is not in the cache. -/
theorem status_answers_iff {other : Handler components (Backend μ)} {server : NodeServer}
    {peers : List String} {maxSize : Nat} {ttl : Rat} {rest : Backend μ}
    {c : ServerRun (Backend μ)}
    (h : (CacheServer.machine (statistics other)).Leads Machine.always
      ([], .init server peers maxSize ttl rest) c) :
    (∀ s ∈ c.visited, s.StatusAnswers (statistics other)) ↔
      EveryStep (fun before a _ => before.2.poisons a = false) c.1 := by
  simp only [statusAnswers_iff]
  refine h.visited_iff (fun c hc => allHex_of_leads hc) ?_
  intro d a s' out hd hpoison hs
  exact not_allHex_step (listed_of_leads hd) (by simpa using hpoison) hs

/-! ## A server that is idle but for its cache -/

/-- No locks and no messages. -/
def idleBackend : Backend Obj where
  locks := ⟨.empty, .empty, .empty, .empty⟩
  queue := ⟨"node_1", .empty, .empty, .empty, .empty⟩

/-- Calls that would change the locks or the queue raise. -/
def idleHandler : Handler components (Backend Obj) := fun c s =>
  ((.error .valueError : Except PyError c.Result), s)

def storeRequest (address : Json) : Obj :=
  [("action", .str "cache_write"), ("address", address), ("data", .str "x")]

/-- Addresses 1 and 2, then `True` and 2.0, which are there already; an
unhashable address and a lock request raise. -/
def equalAddressRun : List (ServerAction (Backend Obj)) :=
  [.request (storeRequest (.int 1)) 0, .request (storeRequest (.int 2)) 1,
   .request (storeRequest (.bool true)) 2, .request (storeRequest (.float 2)) 3,
   .request (storeRequest (.arr [])) 4, .request [("action", .str "lock_acquire")] 5]

theorem status_answers_iff_equalAddressRun :
    ∃ c, (CacheServer.machine (statistics idleHandler)).Leads Machine.always
        ([], .init demoServer [] 2 300 idleBackend) c ∧
      c.1.length = 6 ∧ c.2.cache.cache.size = 2 ∧
      ∀ s ∈ c.visited, s.StatusAnswers (statistics idleHandler) := by
  obtain ⟨c, hc, hp⟩ := Machine.exists_leads_of_exec
    (CacheServer.machine (statistics idleHandler)) Machine.always
    ([], .init demoServer [] 2 300 idleBackend) equalAddressRun
    (fun (c : ServerRun (Backend Obj)) => decide (c.1.length = 6 ∧ c.2.cache.cache.size = 2 ∧
      EveryStep (fun (before : ServerRun (Backend Obj)) a _ => before.2.poisons a = false) c.1))
    (by decide +kernel)
  obtain ⟨hlength, hsize, hclean⟩ := of_decide_eq_true hp
  exact ⟨c, hc, hlength, hsize, (status_answers_iff hc).mpr hclean⟩

/-- After one write to the address `"a"`, which succeeds. -/
theorem string_address_poisons :
    ∃ c, (CacheServer.machine (statistics idleHandler)).Leads Machine.always
        ([], .init demoServer [] 1000 300 idleBackend) c ∧
      c.1.length = 1 ∧ (∃ e ∈ c.1, e.output.isSome = true) ∧
      ∃ request, isStatusRequest request = true ∧
        (c.2.serve (statistics idleHandler) request 1).2 = none := by
  obtain ⟨c, hc, hp⟩ := Machine.exists_leads_of_exec
    (CacheServer.machine (statistics idleHandler)) Machine.always
    ([], .init demoServer [] 1000 300 idleBackend) [.request (storeRequest (.str "a")) 0]
    (fun (c : ServerRun (Backend Obj)) => decide (c.1.length = 1 ∧
      (∃ e ∈ c.1, e.output.isSome = true) ∧
      (c.2.serve (statistics idleHandler) [("action", .str "get_status")] 1).2.isNone = true))
    (by decide +kernel)
  obtain ⟨hlength, hdone, hnone⟩ := of_decide_eq_true hp
  exact ⟨c, hc, hlength, hdone, [("action", .str "get_status")], rfl,
    Option.isNone_iff_eq_none.mp hnone⟩

end SyncSystem.Server
