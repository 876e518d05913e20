/-
SyncSystem.Server.CacheRequests — a server as its cache sees it.

A request comes to one operation of the cache or to none (`cacheOp`); the
statistics only read it. So a server that handles one request after
another takes its cache through a run of cache operations (`run_cache`),
whatever the lock manager and the queue do.
-/
import SyncSystem.Cache.Writes
import SyncSystem.Server.Components

namespace SyncSystem.Server

open SyncSystem.Python
open SyncSystem.Cache

variable {ω : Type}

/-! ## The cache operation of a request -/

/-- A message that `process_request` hands to the Raft node. -/
def isRaftRequest (request : Obj) : Bool :=
  Obj.has request "type" && isRaftType (Obj.get request "type" .null)

/-- The operation a request comes to, if its address is a key and, for a
write, its data a string. -/
def cacheOp (request : Obj) (now : Rat) : Option (CacheOp Key ByteArray) :=
  if isRaftRequest request then none
  else
    match (Obj.get request "address" (.int 0)).key with
    | .error _ => none
    | .ok a =>
        if (Obj.get request "action" .null).pyEq (.str "cache_read") then some (.read a)
        else if (Obj.get request "action" .null).pyEq (.str "cache_write") then
          match Obj.get request "data" (.str "") with
          | .str s => some (.write a s.toUTF8 now)
          | _ => none
        else none

/-- The call leaves the cache as it is. -/
def CacheFree : ServerCall → Prop
  | .cacheRead .. => False
  | .cacheWrite .. => False
  | _ => True

theorem calls_invoke {P : ServerCall → Prop} {c : ServerCall} {k : c.Result → Action} (hc : P c)
    (h : ∀ r, (k r).Calls P) : (invoke c k).Calls P := by
  refine ⟨hc, fun a => ?_⟩
  cases a with
  | error e => trivial
  | ok r => exact h r

theorem calls_ite {ρ : Type} {P : ServerCall → Prop} {c : Prop} [Decidable c]
    {p q : Program components ρ} (hp : c → p.Calls P) (hq : ¬ c → q.Calls P) :
    (if c then p else q).Calls P := by
  by_cases h : c
  · rw [if_pos h]; exact hp h
  · rw [if_neg h]; exact hq h

theorem cacheFree_getStatus (s : NodeServer) : (getStatus s).Calls CacheFree :=
  calls_invoke trivial fun _ => calls_invoke trivial fun _ => calls_invoke trivial fun _ => trivial

/-- Only two actions use the cache. -/
theorem cacheFree_performAction {s : NodeServer} {request : Obj}
    (hread : (Obj.get request "action" .null).pyEq (.str "cache_read") = false)
    (hwrite : (Obj.get request "action" .null).pyEq (.str "cache_write") = false) :
    (performAction s request).Calls CacheFree := by
  have hcall : ∀ {c : ServerCall} {k : c.Result → Action}, CacheFree c →
      (∀ r, ∃ x, k r = .done x) → (invoke c k).Calls CacheFree := by
    intro c k hc h
    refine calls_invoke hc fun r => ?_
    obtain ⟨x, hx⟩ := h r
    rw [hx]
    trivial
  unfold performAction
  iterate 8 refine calls_ite (fun _ => hcall trivial fun _ => ⟨_, rfl⟩) fun _ => ?_
  refine calls_ite (fun h => absurd h (by simp [hread])) fun _ => ?_
  refine calls_ite (fun h => absurd h (by simp [hwrite])) fun _ => ?_
  refine calls_ite (fun _ => hcall trivial fun _ => ⟨_, rfl⟩) fun _ => ?_
  refine calls_ite (fun _ => cacheFree_getStatus s) fun _ => ?_
  exact calls_ite (fun _ => trivial) fun _ => trivial

theorem performAction_read {s : NodeServer} {request : Obj}
    (h : Obj.get request "action" .null = .str "cache_read") :
    performAction s request = cacheRead request := by
  simp [performAction, h]

theorem performAction_write {s : NodeServer} {request : Obj}
    (h : Obj.get request "action" .null = .str "cache_write") :
    performAction s request = cacheWrite request := by
  simp [performAction, h]

theorem cache_cacheFree {other : Handler components ω} {now : Rat} (c : ServerCall)
    (comp : Components ω) (h : CacheFree c) :
    (cacheHandler other now c comp).2.cache = comp.cache := by
  cases c with
  | cacheRead address requestor => exact h.elim
  | cacheWrite address data writer => exact h.elim
  | _ => rfl

/-- A request takes the cache through its operation. -/
theorem run_cache (other : Handler components ω) (s : NodeServer) (now : Rat) (request : Obj)
    (comp : Components ω) :
    ((processRequest s request).run (cacheHandler other now) comp).2.cache =
      (cacheOp request now).elim comp.cache (fun op => (comp.cache.apply op).1) := by
  unfold processRequest cacheOp
  rw [isRaftRequest]
  split
  · rfl
  · rw [Program.run_map]
    cases hread : (Obj.get request "action" .null).pyEq (.str "cache_read") with
    | true =>
      rw [performAction_read (pyEq_str_right.mp hread)]
      simp only [cacheRead, run_invoke, cacheHandler, if_true]
      cases (Obj.get request "address" (.int 0)).key with
      | error e => rfl
      | ok a =>
        simp only [Option.elim_some, CacheNode.apply]
        split <;> rfl
    | false =>
      cases hwrite : (Obj.get request "action" .null).pyEq (.str "cache_write") with
      | true =>
        rw [performAction_write (pyEq_str_right.mp hwrite)]
        simp only [cacheWrite, Bool.false_eq_true, if_false, if_true]
        cases Obj.get request "data" (.str "") with
        | str v =>
          simp only [run_invoke, cacheHandler]
          cases (Obj.get request "address" (.int 0)).key with
          | error e => rfl
          | ok a =>
            simp only [Option.elim_some, CacheNode.apply]
            split <;> rfl
        | _ => cases (Obj.get request "address" (.int 0)).key <;> rfl
      | false =>
        have hframe := (cacheFree_performAction (s := s) hread hwrite).run_frame
          (H := cacheHandler other now) (f := Components.cache) cache_cacheFree comp
        rw [hframe]
        cases (Obj.get request "address" (.int 0)).key <;> simp

/-! ## One server -/

structure CacheServer (ω : Type) where
  server : NodeServer
  comps : Components ω

inductive ServerAction (ω : Type) where
  /-- `process_request` handles a request to its end. -/
  | request (request : Obj) (now : Rat)
  /-- A pass of the cache cleanup. -/
  | cleanup (now : Rat)
  /-- What is not the cache goes on by itself. -/
  | background (server : NodeServer) (rest : ω)

namespace CacheServer

/-- `NodeServer.__init__`, with any other parts. -/
def init (server : NodeServer) (peers : List String) (maxSize : Nat) (ttl : Rat) (rest : ω) :
    CacheServer ω :=
  ⟨server, ⟨.init server.nodeId peers maxSize ttl, rest⟩⟩

/-- The server after a request, and the response if none of its calls
raises. -/
def serve (other : Handler components ω) (s : CacheServer ω) (request : Obj) (now : Rat) :
    CacheServer ω × Option Obj :=
  let (served, comps) := (processRequest s.server request).run (cacheHandler other now) s.comps
  (⟨served.server, comps⟩, served.reply)

/-- The steps; a request has its response for an output. -/
def step (other : Handler components ω) (s : CacheServer ω) :
    ServerAction ω → Option (CacheServer ω × Option Obj)
  | .request request now => some (s.serve other request now)
  | .cleanup now =>
      some ({ s with comps := { s.comps with cache := s.comps.cache.cleanup now } }, none)
  | .background server rest => some (⟨server, { s.comps with rest := rest }⟩, none)

def machine (other : Handler components ω) :
    Machine (CacheServer ω) (ServerAction ω) (Option Obj) := ⟨step other⟩

/-- A request that is no message for the Raft node goes to the chain of
actions. -/
theorem serve_response {other : Handler components ω} {s : CacheServer ω} {request : Obj}
    (h : isRaftRequest request = false) (now : Rat) :
    (s.serve other request now).2 =
      ((performAction s.server request).run (cacheHandler other now) s.comps).1.toOption := by
  rw [isRaftRequest] at h
  simp only [serve, processRequest, h, Bool.false_eq_true, if_false, Program.run_map]

/-- The cache of the server. -/
abbrev cache (s : CacheServer ω) : CacheNode Key ByteArray := s.comps.cache

end CacheServer

abbrev ServerRun (ω : Type) := Config (CacheServer ω) (ServerAction ω) (Option Obj)

/-- The cache operation of a step. -/
def ServerAction.cacheOp : ServerAction ω → Option (CacheOp Key ByteArray)
  | .request r now => Server.cacheOp r now
  | .cleanup now => some (.cleanup now)
  | .background _ _ => none

/-- What a step does to the cache. -/
theorem CacheServer.step_cache {other : Handler components ω} {s s' : CacheServer ω}
    {a : ServerAction ω} {out : Option Obj} (h : s.step other a = some (s', out)) :
    s'.cache = a.cacheOp.elim s.cache (fun op => (s.cache.apply op).1) := by
  cases a with
  | request request now =>
    cases h
    exact run_cache other s.server now request s.comps
  | cleanup now =>
    cases h
    simp only [ServerAction.cacheOp, Option.elim_some, CacheNode.apply, CacheNode.cacheCleanup_eq]
  | background server rest =>
    cases h
    rfl

/-- In every run, the LRU list of the cache has only addresses with a line. -/
theorem listed_of_leads {other : Handler components ω}
    {ok : ServerRun ω → ServerAction ω → Prop} {server : NodeServer} {peers : List String}
    {maxSize : Nat} {ttl : Rat} {rest : ω} {c : ServerRun ω}
    (h : (CacheServer.machine other).Leads ok ([], .init server peers maxSize ttl rest) c) :
    Listed c.2.cache := by
  refine h.invariant (I := fun c => Listed c.2.cache)
    (listed_init server.nodeId peers maxSize ttl) ?_
  intro d action s' out _ ih _ hstep
  have hcache := CacheServer.step_cache (show d.2.step other action = some (s', out) from hstep)
  rw [Config.push_state, hcache]
  cases action.cacheOp with
  | none => exact ih
  | some op => exact ih.apply op

end SyncSystem.Server
