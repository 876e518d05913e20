/-
SyncSystem.Server.FailureReports — what the failure detectors of servers
report, with heartbeats that go by connections.

Translated from `start`, `stop`, `_heartbeat_sender` and `_send_heartbeat`
in `src/communication/failure_detector.py`, beside all that the servers of
a `Deployment` do. A heartbeat task connects and writes; its peer is marked
alive when the connection is closed, whatever has become of the bytes. The
server that accepts the connection reads them like any others, and what it
finds in them is a hearing of the one who signed (`senderIn`).

So every report of a detector is told by its hearings in their order: the
time in a record is the one of the last hearing under the name of the
record, and nothing ever makes a peer less alive (`failure_reports_told`).
-/
import SyncSystem.Communication.Reports
import SyncSystem.Server.Deployment
import SyncSystem.Server.Queries

namespace SyncSystem.Server

open SyncSystem.Python
open SyncSystem.Communication (FailureDetector Hearing)
open SyncSystem.Raft

variable {N : Nat} {ω : Type}

/-- A `_send_heartbeat` in progress. -/
structure HeartbeatTask where
  peer : String
  /-- The heartbeat has been written. -/
  written : Bool

structure HeartbeatServers (N : Nat) (ω : Type) where
  deployment : Deployment N ω
  /-- `_running` of the failure detectors. -/
  running : Fin N → Bool
  tasks : Fin N → List HeartbeatTask
  /-- The heartbeats that have been written. -/
  beats : List Packet
  /-- The places of those whose connection has been served. -/
  readBeats : List Nat

inductive HeartbeatServerAction (N : Nat) where
  | serve (a : DeploymentAction N)
  | start (i : Fin N)
  | stop (i : Fin N)
  /-- A round of the `_heartbeat_sender` of server `i`. -/
  | round (i : Fin N)
  /-- The `k`-th task of server `i` has connected and writes. -/
  | write (i : Fin N) (k : Nat)
  /-- The `k`-th task of server `i` fails. -/
  | fail (i : Fin N) (k : Nat)
  /-- The `k`-th task of server `i` has closed its connection. -/
  | mark (i : Fin N) (k : Nat) (now : Rat)
  /-- Server `i` serves the connection with the `k`-th heartbeat, of
  which `arrived` bytes have come in when it reads. -/
  | hear (i : Fin N) (k arrived : Nat) (now : Rat)

namespace HeartbeatServers

variable (C : DeploymentSetup N ω)

def init (start : Fin N → Rat) : HeartbeatServers N ω where
  deployment := .init C start
  running _ := false
  tasks _ := []
  beats := []
  readBeats := []

def detector (s : HeartbeatServers N ω) (i : Fin N) : FailureDetector :=
  (s.deployment.servers i).failureDetector

def setTasks (s : HeartbeatServers N ω) (i : Fin N) (ts : List HeartbeatTask) :
    HeartbeatServers N ω :=
  { s with tasks := Function.update s.tasks i ts }

/-- Server `i` goes on with this failure detector. -/
def setDetector (s : HeartbeatServers N ω) (i : Fin N) (d : FailureDetector) :
    HeartbeatServers N ω :=
  { s with
    deployment := { s.deployment with
      servers := Function.update s.deployment.servers i
        { s.deployment.servers i with failureDetector := d } } }

def step (s : HeartbeatServers N ω) :
    HeartbeatServerAction N → Option (HeartbeatServers N ω × Option Obj)
  | .serve a => (s.deployment.step C a).map fun r => ({ s with deployment := r.1 }, r.2)
  | .start i =>
      some ({ s with
        running := Function.update s.running i
          (s.running i || !(s.detector i).peers.isEmpty) }, none)
  | .stop i => some ({ s with running := Function.update s.running i false }, none)
  | .round i =>
      if s.running i then
        some (s.setTasks i (s.tasks i ++ (s.detector i).peers.map (⟨·, false⟩)), none)
      else none
  | .write i k =>
      match (s.tasks i)[k]? with
      | some ⟨peer, false⟩ =>
          -- a peer without a port raises before it connects
          match peerPort peer with
          | some port =>
              some ({ s.setTasks i ((s.tasks i).set k ⟨peer, true⟩) with
                beats := s.beats ++ [⟨port, (s.detector i).heartbeatMsg⟩] }, none)
          | none => none
      | _ => none
  | .fail i k =>
      match (s.tasks i)[k]? with
      | some _ => some (s.setTasks i ((s.tasks i).eraseIdx k), none)
      | none => none
  | .mark i k now =>
      match (s.tasks i)[k]? with
      | some ⟨peer, true⟩ =>
          some ((s.setTasks i ((s.tasks i).eraseIdx k)).setDetector i
            ((s.detector i).markAlive peer now), none)
      | _ => none
  | .hear i k arrived now =>
      match s.beats[k]? with
      | none => none
      | some pkt =>
          if pkt.port = C.port i ∧ k ∉ s.readBeats then
            let (served, part) := s.deployment.serve C i (Deployment.readOf C pkt.msg arrived) now
            some ({ s with
              deployment := s.deployment.leave i served part
              readBeats := k :: s.readBeats }, served.reply)
          else none

def machine : Machine (HeartbeatServers N ω) (HeartbeatServerAction N) (Option Obj) := ⟨step C⟩

end HeartbeatServers

abbrev HeartbeatServersRun (N : Nat) (ω : Type) :=
  Config (HeartbeatServers N ω) (HeartbeatServerAction N) (Option Obj)

/-! ## Hearings -/

/-- Who has signed a heartbeat; only a string can be a peer. -/
def senderOf (request : Obj) : Option String :=
  if (Obj.get request "type" (.str "")).pyEq (.str "fd_heartbeat") then
    match Obj.get request "sender" (.str "") with
    | .str sender => some sender
    | _ => none
  else none

/-- Who has signed the heartbeat in these bytes, if there is one. -/
def senderIn (loads : String → Except PyError Json) (data : ByteArray) : Option String :=
  (requestIn loads data).bind senderOf

variable (C : DeploymentSetup N ω)

/-- What server `i` hears of when it or another one takes a step. -/
def hearing (i : Fin N) (s : HeartbeatServers N ω) : HeartbeatServerAction N → Option Hearing
  | .mark j k now =>
      if j = i then (s.tasks i)[k]?.map fun t => (t.peer, now) else none
  | .hear j k arrived now =>
      if j = i then
        s.beats[k]?.bind fun pkt =>
          (senderIn C.loads (Deployment.readOf C pkt.msg arrived)).map (·, now)
      else none
  | .serve (.arrive j k arrived now) =>
      if j = i then
        s.deployment.wire[k]?.bind fun pkt =>
          (senderIn C.loads (Deployment.readOf C pkt.msg arrived)).map (·, now)
      else none
  | .serve (.request j data now) =>
      if j = i then (senderIn C.loads data).map (·, now) else none
  | _ => none

def hearings (i : Fin N) (c : HeartbeatServersRun N ω) : List Hearing :=
  c.1.filterMap fun e => hearing C i e.before e.action

/-- The detector after a hearing. -/
def heard (d : FailureDetector) : Option Hearing → FailureDetector
  | some (sender, now) => d.markAlive sender now
  | none => d

theorem failureDetector_processRequest (s : NodeServer) (request : Obj) {χ : Type}
    (H : Handler components χ) (state : χ) :
    ((processRequest s request).run H state).1.server.failureDetector = s.failureDetector := by
  unfold processRequest
  split
  · rfl
  · rw [Program.run_map]

theorem failureDetector_handleRequest (keys : Keys) (s : NodeServer) (now : Rat) (request : Obj)
    {χ : Type} (H : Handler components χ) (state : χ) :
    ((handleRequest keys s now request).run H state).1.server.failureDetector =
      heard s.failureDetector ((senderOf request).map (·, now)) := by
  by_cases htype : Obj.get request "type" (.str "") = .str "fd_heartbeat"
  · have hauth : ∀ action token, authorize keys (.str "fd_heartbeat") action token = .ok true :=
      fun _ _ => rfl
    have hraft : isRaftType (.str "fd_heartbeat") = false := by decide
    have hself : (Json.str "fd_heartbeat").pyEq (.str "fd_heartbeat") = true := by decide
    simp only [handleRequest, senderOf, htype, hauth, hraft, hself, Bool.false_eq_true, if_false,
      if_true]
    cases Obj.get request "sender" (.str "") <;> rfl
  · have hnot : (Obj.get request "type" (.str "")).pyEq (.str "fd_heartbeat") = false := by
      rw [Bool.eq_false_iff]
      exact fun heq => htype (pyEq_str_right.mp heq)
    have hnone : senderOf request = none := by simp [senderOf, hnot]
    rw [hnone]
    simp only [handleRequest, hnot, Bool.false_eq_true, if_false]
    split
    · rfl
    · rfl
    · split
      · rfl
      · exact failureDetector_processRequest s request H state

/-- What a server reads is a hearing, or nothing to its detector. -/
theorem failureDetector_serve (s : Deployment N ω) (i : Fin N) (data : ByteArray) (now : Rat) :
    (s.serve C i data now).1.server.failureDetector =
      heard (s.servers i).failureDetector ((senderIn C.loads data).map (·, now)) := by
  rw [Deployment.serve, handleConnection_eq, senderIn]
  cases requestIn C.loads data with
  | none => rfl
  | some request => exact failureDetector_handleRequest C.keys (s.servers i) now request C.other _

variable {C}

/-- A server that has read something is left with what it has heard; the
others are left alone. -/
theorem failureDetector_leave (s : Deployment N ω) (i j : Fin N) (data : ByteArray) (now : Rat)
    {served : Served} {part : ω} (hserve : s.serve C j data now = (served, part)) :
    ((s.leave j served part).servers i).failureDetector =
      heard (s.servers i).failureDetector
        (if j = i then (senderIn C.loads data).map (·, now) else none) := by
  by_cases hj : j = i
  · subst hj
    have hfd := failureDetector_serve C s j data now
    rw [hserve] at hfd
    simpa [Deployment.leave] using hfd
  · simp [Deployment.leave, Function.update_of_ne (Ne.symm hj), hj, heard]

/-- What a Raft node does by itself is nothing to a detector. -/
theorem failureDetector_raft {s d : Deployment N ω} {j : Fin N} {a : NodeAction} {b : Option Obj}
    (hs : s.step C (.raft j a) = some (d, b)) (i : Fin N) :
    (d.servers i).failureDetector = (s.servers i).failureDetector := by
  have hset : ∀ p out, ((s.setProcess j p out).servers i).failureDetector =
      (s.servers i).failureDetector := by
    intro p out
    rcases eq_or_ne i j with rfl | hij
    · simp [Deployment.setProcess]
    · simp [Deployment.setProcess, hij]
  obtain ⟨p, out, _, rfl, _⟩ := Deployment.step_raft hs
  exact hset p out

/-- **A step is a hearing or nothing to a detector.** -/
theorem detector_step {s s' : HeartbeatServers N ω} {a : HeartbeatServerAction N} {b : Option Obj}
    (hs : s.step C a = some (s', b)) (i : Fin N) :
    s'.detector i = heard (s.detector i) (hearing C i s a) := by
  cases a with
  | serve a =>
    obtain ⟨⟨d, reply⟩, hd, heq⟩ := Option.map_eq_some_iff.mp hs
    cases heq
    cases a with
    | raft j a => exact failureDetector_raft hd i
    | arrive j k arrived now =>
      obtain ⟨pkt, hpkt, _, _, served, part, hserved, rfl, _⟩ := Deployment.step_arrive hd
      simp only [hearing, hpkt, Option.bind_some]
      exact failureDetector_leave s.deployment i j _ now hserved
    | request j data now =>
      cases hd
      exact failureDetector_leave s.deployment i j data now rfl
    | background j k now =>
      cases hd
      rfl
  | start j | stop j =>
    cases hs
    rfl
  | round j =>
    simp only [HeartbeatServers.step] at hs
    split at hs
    · cases hs
      rfl
    · cases hs
  | write j k =>
    simp only [HeartbeatServers.step] at hs
    split at hs
    · split at hs
      · cases hs
        rfl
      · cases hs
    · cases hs
  | fail j k =>
    simp only [HeartbeatServers.step] at hs
    split at hs
    · cases hs
      rfl
    · cases hs
  | mark j k now =>
    simp only [HeartbeatServers.step] at hs
    split at hs
    · next peer hk =>
      cases hs
      by_cases hj : j = i
      · subst hj
        simp [hearing, hk, heard, HeartbeatServers.detector, HeartbeatServers.setDetector]
      · simp [hearing, hj, heard, HeartbeatServers.detector, HeartbeatServers.setDetector,
          HeartbeatServers.setTasks, Function.update_of_ne (Ne.symm hj)]
    · cases hs
  | hear j k arrived now =>
    simp only [HeartbeatServers.step] at hs
    split at hs
    · cases hs
    · next pkt hpkt =>
      split at hs
      · cases hs
        simp only [hearing, hpkt, Option.bind_some]
        exact failureDetector_leave s.deployment i j _ now rfl
      · cases hs

/-! ## Reports -/

/-- Every heartbeat that has been written is signed with a node id. -/
def Signed (C : DeploymentSetup N ω) (s : HeartbeatServers N ω) : Prop :=
  ∀ pkt ∈ s.beats, ∃ j, pkt.msg = [("type", .str "fd_heartbeat"), ("sender", .str (C.nodeId j))]

/-- What a server reads of a heartbeat. -/
theorem senderIn_heartbeat (hjson : C.toCodec.Lawful) (nodeId : String) (arrived : Nat) :
    senderIn C.loads (Deployment.readOf C
        [("type", .str "fd_heartbeat"), ("sender", .str nodeId)] arrived) =
      if (encode C.floatRepr [("type", .str "fd_heartbeat"), ("sender", .str nodeId)]).size ≤
        min arrived 8192 then some nodeId else none := by
  have hreadable : (Json.obj [("type", .str "fd_heartbeat"), ("sender", .str nodeId)]).Readable
      C.floatRepr C.floatOf := by
    simp [Json.Readable, Json.FieldsReadable]
  have haccepts : C.toCodec.Accepts
      (.obj [("type", .str "fd_heartbeat"), ("sender", .str nodeId)]) := by
    apply hjson.accepts _ hreadable
    simp [Json.Within, Json.FieldsWithin]
  rw [senderIn, Deployment.readOf, requestIn_read hjson hreadable]
  simp only [ReadWhole, and_iff_left haccepts]
  split <;> rfl

theorem told_of_leads {start : Fin N → Rat} {c : HeartbeatServersRun N ω}
    (h : (HeartbeatServers.machine C).Leads Machine.always ([], .init C start) c) (i : Fin N) :
    (c.2.detector i).Told (C.nodeId i) (C.peers i) (start i) (hearings C i c) := by
  refine h.invariant (I := fun c =>
    (c.2.detector i).Told (C.nodeId i) (C.peers i) (start i) (hearings C i c))
    (FailureDetector.told_init _ _ _ (start i)) ?_
  intro c a s' b _ ih _ hs
  have hpush : hearings C i (c.push a s' b) =
      hearings C i c ++ (hearing C i c.2 a).toList := by
    simp only [hearings, Config.push_history, List.filterMap_append]
    cases hm : hearing C i c.2 a <;> simp [hm]
  rw [hpush, Config.push_state, detector_step hs i]
  cases hearing C i c.2 a with
  | none => simpa [heard] using ih
  | some m => exact ih.markAlive m.1 m.2

/-- A step writes one heartbeat or none. -/
theorem beats_step {s s' : HeartbeatServers N ω} {a : HeartbeatServerAction N} {b : Option Obj}
    (hs : s.step C a = some (s', b)) : s'.beats = s.beats ∨
      ∃ i port, s'.beats = s.beats ++ [⟨port, (s.detector i).heartbeatMsg⟩] := by
  cases a with
  | serve a =>
    obtain ⟨r, _, heq⟩ := Option.map_eq_some_iff.mp hs
    cases heq
    exact .inl rfl
  | start j | stop j =>
    cases hs
    exact .inl rfl
  | write j k =>
    simp only [HeartbeatServers.step] at hs
    split at hs
    · split at hs
      · next port _ =>
        cases hs
        exact .inr ⟨j, port, rfl⟩
      · cases hs
    · cases hs
  | round j | fail j k | mark j k now =>
    simp only [HeartbeatServers.step] at hs
    split at hs
    · cases hs
      exact .inl rfl
    · cases hs
  | hear j k arrived now =>
    simp only [HeartbeatServers.step] at hs
    split at hs
    · cases hs
    · split at hs
      · cases hs
        exact .inl rfl
      · cases hs

theorem signed_of_leads {start : Fin N → Rat} {c : HeartbeatServersRun N ω}
    (h : (HeartbeatServers.machine C).Leads Machine.always ([], .init C start) c) :
    Signed C c.2 := by
  refine h.invariant (I := fun c => Signed C c.2) ?_ ?_
  · intro pkt hpkt
    cases hpkt
  · intro c a s' b hreach ih _ hs
    rcases beats_step hs with hsame | ⟨j, port, hbeats⟩
    · intro pkt hpkt
      exact ih pkt (hsame ▸ hpkt)
    · intro pkt hpkt
      rw [Config.push_state, hbeats] at hpkt
      rcases List.mem_append.mp hpkt with hpkt | hpkt
      · exact ih pkt hpkt
      · refine ⟨j, ?_⟩
        rw [List.mem_singleton.mp hpkt, FailureDetector.heartbeatMsg, (told_of_leads hreach j).name]

/-- `failure_stats` in the answer of `get_status`. -/
theorem failureStats_of_getStatus {s : NodeServer} {χ : Type} {H : Handler components χ}
    {state : χ} {status : Obj} (h : ((getStatus s).run H state).1 = .ok status) :
    Obj.get status "failure_stats" .null = .obj s.failureDetector.getStats := by
  obtain ⟨locksHeld, _, h⟩ := exists_of_invoke .locksHeld h
  obtain ⟨queueStats, _, h⟩ := exists_of_invoke .getQueueStats h
  obtain ⟨cacheStats, _, h⟩ := exists_of_invoke .getCacheStats h
  cases h
  rfl

/-- **The reports are told by the hearings.** In every state of servers
that exchange heartbeats by connections, whatever else they do and
whatever bytes they are sent: each failure detector answers as its
hearings tell it, which is that all its peers are alive; `get_status` says
so too; and a heartbeat that has been written is a hearing of the node id
of its server where it is read whole, and none where it is cut. -/
theorem failure_reports_told (hjson : C.toCodec.Lawful) {start : Fin N → Rat}
    {c : HeartbeatServersRun N ω}
    (h : (HeartbeatServers.machine C).Leads Machine.always ([], .init C start) c) :
    (∀ i, (c.2.detector i).Reports (C.nodeId i) (C.peers i) (start i) (hearings C i c)) ∧
      (∀ i (part : ω) request status, isFor "get_status" request = true →
        ((processRequest (c.2.deployment.servers i) request).run C.other part).1.reply =
          some status →
        Obj.get status "failure_stats" .null = .obj
          [("node_id", .str (C.nodeId i)), ("total_peers", .int (C.peers i).length),
           ("alive", .int (C.peers i).length), ("suspected", .int 0), ("dead", .int 0)]) ∧
      ∀ pkt ∈ c.2.beats, ∃ j, ∀ arrived,
        senderIn C.loads (Deployment.readOf C pkt.msg arrived) =
          if (encode C.floatRepr pkt.msg).size ≤ min arrived 8192 then some (C.nodeId j)
          else none := by
  refine ⟨fun i => (told_of_leads h i).reports, ?_, ?_⟩
  · intro i part request status hfor hreply
    obtain ⟨heq, haction⟩ := reply_of_isFor (c.2.deployment.servers i) hfor C.other part
    have hperform : performAction (c.2.deployment.servers i) request =
        getStatus (c.2.deployment.servers i) := by
      simp [performAction, haction]
    rw [heq, hperform] at hreply
    cases hrun : ((getStatus (c.2.deployment.servers i)).run C.other part).1 with
    | error e =>
      rw [hrun] at hreply
      cases hreply
    | ok answer =>
      rw [hrun] at hreply
      cases hreply
      rw [failureStats_of_getStatus hrun]
      exact congrArg Json.obj (told_of_leads h i).reports.stats
  · intro pkt hpkt
    obtain ⟨j, hmsg⟩ := signed_of_leads h pkt hpkt
    refine ⟨j, ?_⟩
    intro arrived
    rw [hmsg]
    exact senderIn_heartbeat hjson (C.nodeId j) arrived

/-- Server `i` sends a heartbeat to its first peer, and `j` reads it whole. -/
def heardRun (i j : Fin 3) : List (HeartbeatServerAction 3) :=
  [.start i, .round i, .write i 0, .hear j 0 8192 5, .mark i 0 6]

/-- The record of a peer that was last heard from at this time. -/
def aliveAt (time : Rat) : Json :=
  .obj [("is_alive", .bool true), ("last_heartbeat", .float time), ("is_suspected", .bool false)]

/-- The heartbeat counts for the record of its receiver, at the sender. -/
theorem failure_reports_told_heardRun :
    ∃ c, (HeartbeatServers.machine threeServers).Leads Machine.always
        ([], .init threeServers fun _ => 0) c ∧ hearings threeServers 1 c = [("node_1", 5)] ∧
      (c.2.detector 0).getAllStatus =
        [("127.0.0.1:8002", aliveAt 6), ("127.0.0.1:8003", aliveAt 0)] ∧
      (c.2.detector 1).getAllStatus =
        [("127.0.0.1:8001", aliveAt 0), ("127.0.0.1:8003", aliveAt 0)] := by
  obtain ⟨c, hc, hp⟩ := Machine.exists_leads_of_exec (HeartbeatServers.machine threeServers)
    Machine.always ([], .init threeServers fun _ => 0) (heardRun 0 1)
    (fun c => decide (hearings threeServers 0 c = [("127.0.0.1:8002", 6)] ∧
      hearings threeServers 1 c = [("node_1", 5)])) (by decide +kernel)
  obtain ⟨hzero, hone⟩ := of_decide_eq_true hp
  obtain ⟨hreports, _⟩ := failure_reports_told (Codec.lawful_unlimited floatText_plainRepr _) hc
  have hstatus := (hreports 0).status
  have hstatus' := (hreports 1).status
  have hpeers : (threeServers.peers 0).foldl addOnce [] = ["127.0.0.1:8002", "127.0.0.1:8003"] := by
    decide +kernel
  have hpeers' : (threeServers.peers 1).foldl addOnce [] =
      ["127.0.0.1:8001", "127.0.0.1:8003"] := by decide +kernel
  rw [hzero, hpeers] at hstatus
  rw [hone, hpeers'] at hstatus'
  exact ⟨c, hc, hone, hstatus, hstatus'⟩

end SyncSystem.Server
