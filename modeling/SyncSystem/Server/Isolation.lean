/-
SyncSystem.Server.Isolation — what the components of one server know of
the others.

The lock manager, the queue and the cache of a server change by their own
tasks and by the calls of `process_request`. A call needs an action of
the dispatcher and a token for it, and no message that a server sends to
its peers has an action. So the components of each server are what its
own clients and its own tasks have made of them, whatever else the
servers send each other (`components_isolated`): no lock, message or
cache line of one server is known to another.
-/
import SyncSystem.Queue.Replication
import SyncSystem.Server.Coherence
import SyncSystem.Server.Deployment

namespace SyncSystem.Server

open SyncSystem.Python
open SyncSystem.Cache (CacheMessage)
open SyncSystem.Communication (FailureDetector)
open SyncSystem.Queue (Replication)
open SyncSystem.Raft

variable {N : Nat} {ω χ : Type}

/-! ## The requests that reach a component -/

/-- A request with an action of the dispatcher and a token for it. -/
structure Asks (keys : Keys) (request : Obj) : Prop where
  external : isInternalType (Obj.get request "type" (.str "")) = false
  action : ∃ a ∈ componentActions, Obj.get request "action" .null = .str a
  permitted : Permitted keys request

instance (v : Json) (s : String) : Decidable (v = .str s) :=
  decidable_of_iff (v.pyEq (.str s) = true) pyEq_str_right

instance (keys : Keys) (request : Obj) : Decidable (Permitted keys request) :=
  inferInstanceAs (Decidable (_ ∨ (_ ∧ _) ∨ (_ ∧ _) ∨ _ ∧ (_ ∨ _)))

instance (keys : Keys) (request : Obj) : Decidable (Asks keys request) :=
  decidable_of_iff (isInternalType (Obj.get request "type" (.str "")) = false ∧
    (∃ a ∈ componentActions, Obj.get request "action" .null = .str a) ∧ Permitted keys request)
    ⟨fun ⟨h, h', h''⟩ => ⟨h, h', h''⟩, fun ⟨h, h', h''⟩ => ⟨h, h', h''⟩⟩

/-- What is permitted passes the check. -/
theorem authorize_of_permitted {keys : Keys} {request : Obj} (msgType : Json)
    (h : Permitted keys request) :
    authorize keys msgType (Obj.get request "action" (.str ""))
      (Obj.get request "token" (.str "")) = .ok true := by
  have hself : ∀ s : String, (Json.str s).pyEq (.str s) = true := fun s => pyEq_str_right.mpr rfl
  have hprefix : startsWith "queue_enqueue" "queue_enqueue" = true ∧
      startsWith "queue_dequeue" "queue_dequeue" = true ∧
      startsWith "cache_read" "cache_read" = true := by decide
  unfold authorize
  split
  · rfl
  · split
    · rfl
    · next hadmin =>
      rcases h with htoken | ⟨haction, htoken⟩ | ⟨haction, htoken⟩ | ⟨haction, htoken⟩
      · rw [htoken] at hadmin
        exact absurd (hself _) hadmin
      · simp [haction, htoken, hprefix.1]
      · simp [haction, htoken, hprefix.2.1]
      · rcases htoken with htoken | htoken <;>
          simp [haction, htoken, hprefix.2.2, Json.isIn]

/-- A client's request goes to the dispatcher. -/
theorem handleRequest_of_asks {keys : Keys} {request : Obj} (h : Asks keys request)
    (s : NodeServer) (now : Rat) :
    handleRequest keys s now request =
      (performAction s request).map fun response => ⟨s, [], response.toOption⟩ := by
  have hext := h.external
  rw [internal_iff, Bool.or_eq_false_iff] at hext
  have hauth := authorize_of_permitted (Obj.get request "type" (.str "")) h.permitted
  simp only [handleRequest, hauth, hext.1, hext.2, Bool.false_eq_true, if_false,
    processRequest_eq hext.1]

/-- A request makes its calls, or leaves the components alone. -/
theorem run_handleRequest (H : Handler components χ) (keys : Keys) (s : NodeServer) (now : Rat)
    (request : Obj) (part : χ) :
    ((handleRequest keys s now request).run H part).2 =
      if Asks keys request then ((performAction s request).run H part).2 else part := by
  split
  · next h => rw [handleRequest_of_asks h, Program.run_map]
  · next h =>
    have hsilent : (handleRequest keys s now request).Silent := by
      by_cases hext : isInternalType (Obj.get request "type" (.str "")) = true
      · exact silent_of_internal hext
      by_cases hperm : Permitted keys request
      · refine silent_of_action ?_
        intro a ha haction
        exact h ⟨by simpa using hext, ⟨a, ha, haction⟩, hperm⟩
      · exact silent_of_not_permitted hperm
    obtain ⟨served, heq⟩ := hsilent
    rw [heq]
    rfl

/-! ## The calls of an action -/

theorem run_ite {H : Handler components χ} {part : χ} {c : Prop} [Decidable c]
    {p q p' q' : Action} (h : (p.run H part).2 = (p'.run H part).2)
    (h' : (q.run H part).2 = (q'.run H part).2) :
    ((if c then p else q).run H part).2 = ((if c then p' else q').run H part).2 := by
  by_cases hc : c
  · simp only [if_pos hc, h]
  · simp only [if_neg hc, h']

theorem run_invoke_parts {H : Handler components χ} {call : ServerCall}
    {k k' : call.Result → Action}
    (h : ∀ r part, ((k r).run H part).2 = ((k' r).run H part).2) (part : χ) :
    ((invoke call k).run H part).2 = ((invoke call k').run H part).2 := by
  rw [run_invoke, run_invoke]
  split
  · rfl
  · exact h _ _

/-- Which calls are made does not depend on the server. -/
theorem run_performAction (H : Handler components χ) (s s' : NodeServer) (request : Obj)
    (part : χ) :
    ((performAction s request).run H part).2 = ((performAction s' request).run H part).2 := by
  unfold performAction
  iterate 11 refine run_ite rfl ?_
  refine run_ite ?_ (run_ite rfl rfl)
  unfold getStatus
  refine run_invoke_parts (fun _ part => ?_) part
  refine run_invoke_parts (fun _ part => ?_) part
  refine run_invoke_parts (fun _ part => ?_) part
  rfl

/-! ## What the servers send each other -/

inductive PeerMessage : Obj → Prop where
  | raft (msg : Obj) : BuiltBy (fun _ => True) msg → PeerMessage msg
  | failureDetector (d : FailureDetector) : PeerMessage d.heartbeatMsg
  | cache (m : CacheMessage Key) : PeerMessage m.body
  | queue (r : Replication) : PeerMessage r.data

theorem PeerMessage.action {msg : Obj} (h : PeerMessage msg) :
    Obj.get msg "action" .null = .null := by
  cases h with
  | raft msg hmsg => cases hmsg <;> rfl
  | failureDetector d => rfl
  | cache m => cases m <;> rfl
  | queue r => rfl

theorem PeerMessage.not_asks {keys : Keys} {msg : Obj} (h : PeerMessage msg) : ¬ Asks keys msg := by
  intro hasks
  obtain ⟨a, _, haction⟩ := hasks.action
  rw [h.action] at haction
  cases haction

/-! ## One server by itself -/

/-- What changes the components of a server. -/
inductive OwnStep where
  | asked (request : Obj)
  | background (k : Nat) (now : Rat)

variable (C : DeploymentSetup N ω)

/-- The request of a client in what a read has returned. -/
def asked (data : ByteArray) : Option OwnStep :=
  (requestIn C.loads data).bind fun request =>
    if Asks C.keys request then some (.asked request) else none

/-- What a step has of its own for server `i`. -/
def ownStep (i : Fin N) (e : Event (Deployment N ω) (DeploymentAction N) (Option Obj)) :
    Option OwnStep :=
  match e.action with
  | .raft _ _ => none
  | .arrive j k arrived _ =>
      if j = i then
        (e.before.wire[k]?).bind (fun pkt => asked C (Deployment.readOf C pkt.msg arrived))
      else none
  | .request j data _ => if j = i then asked C data else none
  | .background j k now => if j = i then some (.background k now) else none

/-- The components take the step; `s` is any server. -/
def OwnStep.apply (s : NodeServer) (part : ω) : OwnStep → ω
  | .asked request => ((performAction s request).run C.other part).2
  | .background k now => C.background k now part

variable {C}

/-- A read has the effect of the request in it. -/
theorem serve_parts (s : Deployment N ω) (i : Fin N) (data : ByteArray) (now : Rat)
    (t : NodeServer) :
    (s.serve C i data now).2 =
      (asked C data).elim (s.parts i) (OwnStep.apply C t (s.parts i)) := by
  rw [Deployment.serve, handleConnection_eq, asked]
  cases hrequest : requestIn C.loads data with
  | none => rfl
  | some request =>
    rw [Option.elim_some, run_handleRequest, Option.bind_some]
    by_cases hasks : Asks C.keys request
    · simp only [if_pos hasks]
      exact run_performAction _ _ _ _ _
    · simp only [if_neg hasks]
      rfl

/-- The components of a server change by its own steps only. -/
theorem parts_step {s s' : Deployment N ω} {a : DeploymentAction N} {b : Option Obj}
    (h : (Deployment.machine C).step s a = some (s', b)) (i : Fin N) (t : NodeServer) :
    s'.parts i =
      (ownStep C i ⟨s, a, b⟩).elim (s.parts i) (OwnStep.apply C t (s.parts i)) := by
  have hserve : ∀ j data now,
      (s.leave j (s.serve C j data now).1 (s.serve C j data now).2).parts i =
        (if j = i then asked C data else none).elim (s.parts i)
          (OwnStep.apply C t (s.parts i)) := by
    intro j data now
    rcases eq_or_ne j i with rfl | hne
    · simp only [Deployment.leave, Function.update_self, if_true]
      exact serve_parts s j data now t
    · simp only [Deployment.leave, Function.update_of_ne (Ne.symm hne), if_neg hne]
      rfl
  cases a with
  | raft j a =>
    obtain ⟨p, out, _, rfl, _⟩ := Deployment.step_raft h
    rfl
  | arrive j k arrived now =>
    obtain ⟨pkt, hpkt, _, _, served, part, hserved, rfl, _⟩ := Deployment.step_arrive h
    have hparts := hserve j (Deployment.readOf C pkt.msg arrived) now
    rw [hserved] at hparts
    simp only [ownStep, hpkt, Option.bind_some]
    exact hparts
  | request j data now =>
    cases h
    exact hserve j data now
  | background j k now =>
    cases h
    rcases eq_or_ne j i with rfl | hne
    · simp only [ownStep, Function.update_self, if_true]
      rfl
    · simp only [ownStep, Function.update_of_ne (Ne.symm hne), if_neg hne]
      rfl

/-- What a server reads of a message between servers asks nothing. -/
theorem not_asked_of_peerMessage (hjson : C.toCodec.Lawful) {msg : Obj}
    (hmsg : PeerMessage msg) (hreadable : (Json.obj msg).Readable C.floatRepr C.floatOf)
    (arrived : Nat) : asked C (Deployment.readOf C msg arrived) = none := by
  rw [asked, Deployment.readOf, requestIn_read hjson hreadable]
  split
  · exact if_neg hmsg.not_asks
  · rfl

/-- **The components of each server are by themselves.** After any run,
whatever bytes the servers have read, the lock manager, the queue and the
cache of a server are what the requests of its own clients and its own
tasks make of them, one after the other; and nothing of a message that
servers send each other, whole or cut, is such a request. -/
theorem components_isolated (hjson : C.toCodec.Lawful) {start : Fin N → Rat}
    {c : DeploymentRun N ω}
    (h : (Deployment.machine C).Leads Machine.always ([], .init C start) c) (i : Fin N)
    (t : NodeServer) :
    c.2.parts i = (c.1.filterMap (ownStep C i)).foldl (OwnStep.apply C t) C.rest ∧
    ∀ msg, PeerMessage msg → (Json.obj msg).Readable C.floatRepr C.floatOf →
      ∀ arrived, asked C (Deployment.readOf C msg arrived) = none := by
  refine ⟨?_, fun msg hmsg hreadable => not_asked_of_peerMessage hjson hmsg hreadable⟩
  refine h.invariant (I := fun c => c.2.parts i =
    (c.1.filterMap (ownStep C i)).foldl (OwnStep.apply C t) C.rest) rfl ?_
  intro d a s' b _ ih _ hs
  have hparts := parts_step hs i t
  rw [Config.push_state, Config.push_history, List.filterMap_append, List.foldl_append, ← ih,
    hparts]
  cases hown : ownStep C i ⟨d.2, a, b⟩ <;> simp [hown]

/-- Components that count their calls. -/
def countingServers : DeploymentSetup 3 Nat where
  toClusterConfig := threeNodes
  toCodec := .unlimited plainRepr fun _ => 0
  keys := ⟨"k", "p", "c"⟩
  nodeType := "lock_manager"
  other := fun _ calls => (.error .typeError, calls + 1)
  background _ _ := id
  rest := 0

/-- A client of a node asks for the statistics of its queue. -/
def statsRun (node : Fin 3) : List (DeploymentAction 3) :=
  [.request node (encode plainRepr [("action", .str "queue_stats"), ("token", .str "k")]) 0]

theorem components_isolated_statsRun :
    ∃ c, (Deployment.machine countingServers).Leads Machine.always
        ([], .init countingServers fun _ => 0) c ∧ c.2.parts 0 = 1 ∧
      (c.1.filterMap (ownStep countingServers 0)).foldl
        (OwnStep.apply countingServers demoServer) 0 = 1 ∧
      (c.1.filterMap (ownStep countingServers 1)).foldl
        (OwnStep.apply countingServers demoServer) 0 = 0 := by
  obtain ⟨c, hc, hp⟩ := Machine.exists_leads_of_exec (Deployment.machine countingServers)
    Machine.always ([], .init countingServers fun _ => 0) (statsRun 0)
    (fun c => decide (c.2.parts 0 = 1 ∧ c.2.parts 1 = 0)) (by decide +kernel)
  obtain ⟨hone, hnone⟩ := of_decide_eq_true hp
  have hjson : countingServers.toCodec.Lawful := Codec.lawful_unlimited floatText_plainRepr _
  have hfirst := (components_isolated hjson hc 0 demoServer).1
  have hsecond := (components_isolated hjson hc 1 demoServer).1
  exact ⟨c, hc, hone, hfirst.symm.trans hone, hsecond.symm.trans hnone⟩

end SyncSystem.Server
