/-
SyncSystem.Server.Deployment — servers that reach each other by
connections only.

Translated from `_handle_request` in `src/nodes/__main__.py` and from what
`src/consensus/raft.py` writes to its connections. A server takes bytes
from a connection, up to 8192 in its one read, decodes and dispatches
them; so what one Raft node has written reaches another once, as the dict
it was, or not at all (`follows_arrive`). No other request touches the
Raft node, and none submits a command. So the Raft nodes of a deployment
are a run of the cluster, in which messages are delivered whole and at
most once and nothing else happens (`deployment_is_cluster`): what holds
in every run of the cluster holds of the servers.

`json.loads` is a parameter, of which is used that it is lawful. A value
that it returns may have anything where the text has `NaN`, an infinity
or a lone surrogate, for which there is no `Json`; it stands for what the
code makes of the text as long as the code does not look there. Where
`_handle_request` raises because it prints such a string, nothing has
happened yet, as where `json.loads` raises.

A step serves a request to its end. That a request may suspend at a
component does not matter here: the Raft node is not touched after that.
-/
import SyncSystem.Machine.Views
import SyncSystem.Python.JsonRoundTrip
import SyncSystem.Raft.ElectionSafety
import SyncSystem.Raft.IntegralTerms
import SyncSystem.Server.Segments

namespace SyncSystem.Server

open SyncSystem.Python
open SyncSystem.Communication (FailureDetector)
open SyncSystem.Raft
open SyncSystem.Text (fromUTF8?_toUTF8 isEmpty_toUTF8)

variable {N : Nat} {ω : Type}

/-! ## The servers -/

/-- What does not change in a deployment: the addresses, the keys, the
components other than Raft, and the interpreter's way with texts. -/
structure DeploymentSetup (N : Nat) (ω : Type) extends ClusterConfig N, Codec where
  keys : Keys
  nodeType : String
  /-- The lock manager, the queue and the cache of a server: how they
  answer, what they do by themselves and how they begin. -/
  other : Handler components ω
  background : Nat → Rat → ω → ω
  rest : ω

structure Deployment (N : Nat) (ω : Type) where
  servers : Fin N → NodeServer
  /-- The send tasks of the Raft nodes. -/
  pending : Fin N → List Pending
  /-- What the Raft nodes have written. -/
  wire : List Packet
  /-- The places of those whose connection has been served. -/
  read : List Nat
  parts : Fin N → ω

inductive DeploymentAction (N : Nat) where
  /-- Server `i` runs an atomic section of its own Raft node. -/
  | raft (i : Fin N) (a : NodeAction)
  /-- Server `i` serves the connection with the `k`-th message, of which
  `arrived` bytes have come in when it reads. -/
  | arrive (i : Fin N) (k arrived : Nat) (now : Rat)
  /-- Server `i` reads these bytes from any other connection. -/
  | request (i : Fin N) (data : ByteArray) (now : Rat)
  /-- The `k`-th task of the components of server `i` runs. -/
  | background (i : Fin N) (k : Nat) (now : Rat)

namespace Deployment

variable (C : DeploymentSetup N ω)

/-- The servers as they are started, each at a time of its own. -/
def init (start : Fin N → Rat) : Deployment N ω where
  servers i :=
    { nodeId := C.nodeId i
      nodeType := C.nodeType
      raft := .init (C.nodeId i) (C.peers i) (C.port i)
      failureDetector := .init (C.nodeId i) (C.peers i) 30 (start i) }
  pending _ := []
  wire := []
  read := []
  parts _ := C.rest

/-- What server `i` has of its Raft node. -/
def process (s : Deployment N ω) (i : Fin N) : RaftProcess := ⟨(s.servers i).raft, s.pending i⟩

/-- Server `i` goes on with this Raft node and has written `out`. -/
def setProcess (s : Deployment N ω) (i : Fin N) (p : RaftProcess) (out : List Packet) :
    Deployment N ω :=
  { s with
    servers := Function.update s.servers i { s.servers i with raft := p.node }
    pending := Function.update s.pending i p.pending
    wire := s.wire ++ out }

/-- Server `i` runs `_handle_request` on what its read has returned. -/
def serve (s : Deployment N ω) (i : Fin N) (data : ByteArray) (now : Rat) : Served × ω :=
  (handleConnection C.loads C.keys (s.servers i) now data).run C.other (s.parts i)

/-- Server `i` is left as the request has left it. -/
def leave (s : Deployment N ω) (i : Fin N) (served : Served) (part : ω) : Deployment N ω :=
  { s with
    servers := Function.update s.servers i served.server
    pending := Function.update s.pending i
      (s.pending i ++ served.spawned.map (⟨·, served.server.raft.currentTerm⟩))
    parts := Function.update s.parts i part }

/-- The bytes that `reader.read(8192)` returns of a message. -/
def readOf (msg : Obj) (arrived : Nat) : ByteArray :=
  (encode C.floatRepr msg).extract 0 (min arrived 8192)

/-- The steps; the output is the reply, if one is written. No request
calls `submit_command`, and messages come by connections, each of which
is read once. -/
def step (s : Deployment N ω) : DeploymentAction N → Option (Deployment N ω × Option Obj)
  | .raft _ (.receive _) => none
  | .raft _ (.submit _ _) => none
  | .raft i a =>
      match (s.process i).step a with
      | none => none
      | some (p, out) => some (s.setProcess i p out, none)
  | .arrive i k arrived now =>
      match s.wire[k]? with
      | none => none
      | some pkt =>
          if pkt.port = C.port i ∧ k ∉ s.read then
            let (served, part) := s.serve C i (readOf C pkt.msg arrived) now
            some ({ s.leave i served part with read := k :: s.read }, served.reply)
          else none
  | .request i data now =>
      let (served, part) := s.serve C i data now
      some (s.leave i served part, served.reply)
  | .background i k now =>
      some ({ s with parts := Function.update s.parts i (C.background k now (s.parts i)) }, none)

def machine : Machine (Deployment N ω) (DeploymentAction N) (Option Obj) := ⟨step C⟩

variable {C} {s s' : Deployment N ω} {i : Fin N} {b : Option Obj}

/-- A step of a Raft node. -/
theorem step_raft {a : NodeAction} (h : s.step C (.raft i a) = some (s', b)) :
    ∃ p out, (s.process i).step a = some (p, out) ∧ s' = s.setProcess i p out ∧ b = none := by
  cases a with
  | receive msg | submit command data => cases h
  | _ =>
    simp only [step] at h
    split at h
    · cases h
    · next p out hp =>
      cases h
      exact ⟨p, out, hp, rfl, rfl⟩

/-- A message that has not been read is read by a server at its port. -/
theorem step_arrive {k arrived : Nat} {now : Rat}
    (h : s.step C (.arrive i k arrived now) = some (s', b)) :
    ∃ pkt, s.wire[k]? = some pkt ∧ pkt.port = C.port i ∧ k ∉ s.read ∧
      ∃ served part, s.serve C i (readOf C pkt.msg arrived) now = (served, part) ∧
        s' = { s.leave i served part with read := k :: s.read } ∧ b = served.reply := by
  simp only [step] at h
  split at h
  · cases h
  · next pkt hpkt =>
    split at h
    · next hserves =>
      generalize hserved : s.serve C i (readOf C pkt.msg arrived) now = r at h
      obtain ⟨served, part⟩ := r
      cases h
      exact ⟨pkt, hpkt, hserves.1, hserves.2, served, part, hserved, rfl, rfl⟩
    · cases h

end Deployment

abbrev DeploymentRun (N : Nat) (ω : Type) :=
  Config (Deployment N ω) (DeploymentAction N) (Option Obj)

/-- The request in what a read has returned. -/
def requestIn (loads : String → Except PyError Json) (data : ByteArray) : Option Obj :=
  if data.isEmpty then none else (receive loads data).toOption

/-- The bytes are a message of a Raft type. -/
def isRaftData (loads : String → Except PyError Json) (data : ByteArray) : Bool :=
  (requestIn loads data).any fun request => isRaftType (Obj.get request "type" (.str ""))

/-- What comes by a connection that no Raft node has opened. -/
def DeploymentAction.clientData : DeploymentAction N → Option ByteArray
  | .request _ data _ => some data
  | _ => none

/-- Only the Raft nodes send messages of their types. -/
def Honest (C : DeploymentSetup N ω) (_ : DeploymentRun N ω) (a : DeploymentAction N) : Prop :=
  ∀ data ∈ a.clientData, isRaftData C.loads data = false

instance (C : DeploymentSetup N ω) (c : DeploymentRun N ω) (a : DeploymentAction N) :
    Decidable (Honest C c a) :=
  inferInstanceAs (Decidable (∀ data ∈ a.clientData, _))

/-! ## A request and the Raft node -/

/-- A message of a Raft type goes to the Raft node. -/
theorem handleRequest_raft {keys : Keys} {s : NodeServer} {now : Rat} {request : Obj}
    (h : isRaftType (Obj.get request "type" (.str "")) = true) :
    handleRequest keys s now request =
      .done (serveRaft s request fun _ => [("raft_ok", .bool true)]) := by
  have hauth : ∀ action token, authorize keys (Obj.get request "type" (.str "")) action token =
      .ok true := by
    intro action token
    simp [authorize, internal_iff, h]
  simp only [handleRequest, hauth, if_pos h]

/-- A field that is there has no default. -/
theorem get_of_has {request : Obj} {key : String} (h : Obj.has request key = true) (d d' : Json) :
    Obj.get request key d = Obj.get request key d' := by
  unfold Obj.has at h
  unfold Obj.get
  cases hl : request.lookup key with
  | none => simp [hl] at h
  | some v => rfl

/-- Past the check for Raft types, a request goes to the dispatcher. -/
theorem processRequest_eq {s : NodeServer} {request : Obj}
    (h : isRaftType (Obj.get request "type" (.str "")) = false) :
    processRequest s request =
      (performAction s request).map fun response => ⟨s, [], response.toOption⟩ := by
  unfold processRequest
  split
  · next htype =>
    obtain ⟨hhas, hraft⟩ := Bool.and_eq_true_iff.mp htype
    rw [get_of_has hhas .null (.str ""), h] at hraft
    cases hraft
  · rfl

/-- Any other request leaves it alone. -/
theorem handleRequest_frame {keys : Keys} {s : NodeServer} {now : Rat} {request : Obj}
    (h : isRaftType (Obj.get request "type" (.str "")) = false) {χ : Type}
    (H : Handler components χ) (state : χ) :
    ((handleRequest keys s now request).run H state).1.server.raft = s.raft ∧
      ((handleRequest keys s now request).run H state).1.spawned = [] := by
  simp only [handleRequest]
  split
  · exact ⟨rfl, rfl⟩
  · exact ⟨rfl, rfl⟩
  · rw [if_neg (by rw [h]; decide)]
    split
    · split <;> exact ⟨rfl, rfl⟩
    · rw [processRequest_eq h, Program.run_map]
      exact ⟨rfl, rfl⟩

/-! ## One read -/

section

variable {J : Codec} {msg : Obj}

/-- All of the message has arrived, it is not too long for one read, and
`json.loads` takes it. -/
def ReadWhole (J : Codec) (msg : Obj) (arrived : Nat) : Prop :=
  (encode J.floatRepr msg).size ≤ min arrived 8192 ∧ J.Accepts (.obj msg)

instance (J : Codec) (msg : Obj) (arrived : Nat) : Decidable (ReadWhole J msg arrived) :=
  inferInstanceAs (Decidable (_ ∧ _))

theorem encode_ne_empty (floatRepr : Rat → String) (msg : Obj) :
    ¬ (encode floatRepr msg).isEmpty = true := by
  rw [encode, isEmpty_toUTF8]
  intro hempty
  have htext : (dumps floatRepr (.obj msg)).toList = (Json.obj msg).text floatRepr :=
    String.toList_ofList
  rw [hempty] at htext
  cases htext

/-- One read finds the message or nothing. -/
theorem requestIn_read (h : J.Lawful) (hmsg : (Json.obj msg).Readable J.floatRepr J.floatOf)
    (arrived : Nat) :
    requestIn J.loads ((encode J.floatRepr msg).extract 0 (min arrived 8192)) =
      if ReadWhole J msg arrived then some msg else none := by
  by_cases hlong : (encode J.floatRepr msg).size ≤ min arrived 8192
  · have hall : (encode J.floatRepr msg).extract 0 (min arrived 8192) =
        encode J.floatRepr msg := by
      rw [← Nat.max_eq_left hlong, ByteArray.extract_zero_max_size]
    rw [hall, requestIn, if_neg (encode_ne_empty _ _)]
    split
    · next hread => rw [receive_encode (h.loads_dumps hmsg hread.2)]; rfl
    · next hread =>
      have hrefused : ¬ J.Accepts (.obj msg) := fun haccepts => hread ⟨hlong, haccepts⟩
      rw [Codec.Accepts] at hrefused
      simp only [receive, encode, fromUTF8?_toUTF8]
      cases hv : J.loads (dumps J.floatRepr (.obj msg)) with
      | error e => rfl
      | ok v => simp [hv, Except.isOk, Except.toBool] at hrefused
  · rw [if_neg (fun hread => hlong hread.1)]
    have hsize : ((encode J.floatRepr msg).extract 0 (min arrived 8192)).size =
        min arrived 8192 := by
      rw [ByteArray.size_extract]
      omega
    rcases Nat.eq_zero_or_pos (min arrived 8192) with hnone | hpos
    · rw [ByteArray.size_eq_zero_iff.mp (hsize.trans hnone)]
      rfl
    · have hcut : IsRead 8192 (encode J.floatRepr msg)
          ((encode J.floatRepr msg).extract 0 (min arrived 8192)) := by
        refine ⟨by omega, by omega, ?_⟩
        refine ⟨(encode J.floatRepr msg).extract (min arrived 8192)
          (encode J.floatRepr msg).size, ?_⟩
        rw [ByteArray.extract_append_extract, Nat.zero_min, Nat.max_eq_right (by omega),
          ByteArray.extract_zero_size]
      obtain ⟨e, he⟩ := receive_cut h.floatText h.balanced hcut (by
        intro heq
        rw [heq] at hsize
        omega)
      rw [requestIn, he]
      split <;> rfl

/-- What a connection comes to. -/
theorem handleConnection_eq (loads : String → Except PyError Json) (keys : Keys) (s : NodeServer)
    (now : Rat) (data : ByteArray) :
    handleConnection loads keys s now data =
      (requestIn loads data).elim (.done ⟨s, [], none⟩) (handleRequest keys s now) := by
  unfold handleConnection requestIn
  split
  · rfl
  · cases receive loads data <;> rfl

end

/-! ## The Raft nodes of a deployment -/

section

variable {C : DeploymentSetup N ω} {s s' : Deployment N ω}

/-- The Raft nodes, with the messages that have arrived whole. -/
def raftView (C : DeploymentSetup N ω) :
    View (Deployment N ω) (DeploymentAction N) (Option Obj) (Cluster N) (ClusterAction N) Unit where
  state s := ⟨s.process, s.wire⟩
  event s a _ :=
    match a with
    | .raft i a => some (.act i a, ())
    | .arrive i k arrived _ =>
        match s.wire[k]? with
        | some pkt =>
            if ReadWhole C.toCodec pkt.msg arrived then some (.deliver i k, ()) else none
        | none => none
    | .request _ _ _ => none
    | .background _ _ _ => none

theorem process_setProcess (i : Fin N) (p : RaftProcess) (out : List Packet) :
    (s.setProcess i p out).process = Function.update s.process i p := by
  funext j
  rcases eq_or_ne j i with rfl | hj
  · simp [Deployment.process, Deployment.setProcess]
  · simp [Deployment.process, Deployment.setProcess, hj]

theorem process_leave (i : Fin N) (served : Served) (part : ω) :
    (s.leave i served part).process = Function.update s.process i
      ((⟨served.server.raft, s.pending i⟩ : RaftProcess).spawn served.server.raft.currentTerm
        served.spawned) := by
  funext j
  rcases eq_or_ne j i with rfl | hj
  · simp [Deployment.process, Deployment.leave, RaftProcess.spawn]
  · simp [Deployment.process, Deployment.leave, hj]

/-- A request that leaves the Raft node alone shows nothing. -/
theorem process_leave_frame (C : DeploymentSetup N ω) {i : Fin N} {served : Served} {part : ω}
    (hraft : served.server.raft = (s.servers i).raft) (hspawned : served.spawned = []) :
    (raftView C).state (s.leave i served part) = (raftView C).state s := by
  have hsame : (⟨(s.servers i).raft, s.pending i⟩ : RaftProcess).spawn
      (s.servers i).raft.currentTerm [] = s.process i := by
    simp [RaftProcess.spawn, Deployment.process]
  simp only [raftView, process_leave, hraft, hspawned, hsame, Function.update_eq_self]
  rfl

theorem isRaftType_of_builtBy {P : RaftNode → Prop} {msg : Obj} (h : BuiltBy P msg) :
    isRaftType (Obj.get msg "type" (.str "")) = true := by
  cases h with
  | requestVote n i t _ => exact (by decide : isRaftType (.str "request_vote") = true)
  | heartbeat n _ => exact (by decide : isRaftType (.str "heartbeat") = true)
  | voteResponse n granted _ => exact (by decide : isRaftType (.str "vote_response") = true)

/-- What a request that is no Raft message does to the Raft node. -/
theorem serve_frame {i : Fin N} {data : ByteArray} {now : Rat}
    (h : isRaftData C.loads data = false) :
    (s.serve C i data now).1.server.raft = (s.servers i).raft ∧
      (s.serve C i data now).1.spawned = [] := by
  rw [Deployment.serve, handleConnection_eq]
  cases hrequest : requestIn C.loads data with
  | none => exact ⟨rfl, rfl⟩
  | some request =>
    rw [isRaftData, hrequest] at h
    exact handleRequest_frame h _ _

/-- A step submits a command. -/
def submits : ClusterAction N → Bool
  | .act _ (.submit _ _) => true
  | _ => false

/-- The place of the message that a step delivers. -/
def delivered : ClusterAction N → Option Nat
  | .deliver _ k => some k
  | _ => none

/-- The steps of a cluster that servers can take: no command is submitted,
and a message is delivered that has not been delivered before and that
one read takes. -/
def Fits (C : DeploymentSetup N ω) (r : ClusterRun N) (a : ClusterAction N) : Prop :=
  submits a = false ∧ ∀ k ∈ delivered a, (∀ e ∈ r.1, k ∉ delivered e.action) ∧
    ∀ pkt ∈ r.2.net[k]?, ReadWhole C.toCodec pkt.msg 8192

instance (C : DeploymentSetup N ω) (r : ClusterRun N) (a : ClusterAction N) :
    Decidable (Fits C r a) :=
  inferInstanceAs (Decidable (_ ∧ ∀ k ∈ delivered a, _ ∧ ∀ pkt ∈ r.2.net[k]?, _))

/-! ### Every message is read once -/

/-- A connection is served, or nothing has been read. -/
theorem read_step {a : DeploymentAction N} {b : Option Obj}
    (hs : (Deployment.machine C).step s a = some (s', b)) :
    s'.read = match a with
      | .arrive _ k _ _ => k :: s.read
      | _ => s.read := by
  cases a with
  | raft i a =>
    obtain ⟨p, out, _, rfl, _⟩ := Deployment.step_raft hs
    rfl
  | arrive i k arrived now =>
    obtain ⟨_, _, _, _, _, _, _, rfl, _⟩ := Deployment.step_arrive hs
    rfl
  | request i data now | background i k now =>
    cases hs
    rfl

/-- What is shown to be delivered has been read. -/
def ReadsShown (C : DeploymentSetup N ω) (c : DeploymentRun N ω) : Prop :=
  ∀ e ∈ ((raftView C).run c).1, ∀ k ∈ delivered e.action, k ∈ c.2.read

theorem readsShown_push {d : DeploymentRun N ω} (ih : ReadsShown C d) {a : DeploymentAction N}
    {b : Option Obj} (hs : (Deployment.machine C).step d.2 a = some (s', b)) :
    ReadsShown C (d.push a s' b) := by
  intro e he k hk
  rw [Config.push_state, read_step hs]
  rw [View.run, Config.push_history, List.filterMap_append, List.mem_append] at he
  rcases he with hold | hnew
  · -- what has been read stays read
    have hmem := ih e hold k hk
    cases a <;> first | exact hmem | exact List.mem_cons_of_mem _ hmem
  · obtain ⟨e', he', hshown⟩ := List.mem_filterMap.mp hnew
    rw [List.mem_singleton.mp he'] at hshown
    obtain ⟨⟨a', u⟩, hevent, rfl⟩ := Option.map_eq_some_iff.mp hshown
    cases a with
    | raft i a => cases hevent; cases hk
    | request i data now | background i k now => cases hevent
    | arrive i k' arrived now =>
      simp only [raftView] at hevent
      split at hevent
      · split at hevent
        · cases hevent
          cases hk
          exact List.mem_cons_self
        · cases hevent
      · cases hevent

theorem readsShown_of_leads {ok : DeploymentRun N ω → DeploymentAction N → Prop}
    {start : Fin N → Rat} {c : DeploymentRun N ω}
    (h : (Deployment.machine C).Leads ok ([], .init C start) c) : ReadsShown C c :=
  h.invariant (I := ReadsShown C) (fun e he => by cases he)
    (fun _ _ _ _ _ ih _ hs => readsShown_push ih hs)

/-! ### The steps -/

/-- What a node does by itself is what it does in the cluster. -/
theorem follows_raft {d : DeploymentRun N ω} {i : Fin N} {a : NodeAction} {b : Option Obj}
    (hs : (Deployment.machine C).step d.2 (.raft i a) = some (s', b)) :
    (raftView C).Follows (Cluster.machine N) (Fits C) d (.raft i a) s' b := by
  have hperform : ∀ p out, (d.2.process i).step a = some (p, out) →
      Cluster.perform ⟨d.2.process, d.2.wire⟩ i a =
        some (⟨(d.2.setProcess i p out).process, d.2.wire ++ out⟩, ()) := by
    intro p out hstep
    simp only [Cluster.perform, hstep, process_setProcess]
  cases a with
  | receive msg => cases hs
  | submit command data => cases hs
  | _ =>
    simp only [Deployment.machine, Deployment.step] at hs
    split at hs
    · cases hs
    · next p out hstep =>
      cases hs
      exact ⟨⟨rfl, fun k hk => by cases hk⟩, hperform p out hstep⟩

/-- A message that arrives whole is delivered; one that is cut is not. -/
theorem follows_arrive (hjson : C.toCodec.Lawful) {d : DeploymentRun N ω}
    (hw : WellFormed C.toClusterConfig ((raftView C).state d.2))
    (hplain : IntegralTerms ((raftView C).state d.2)) (hreads : ReadsShown C d) {i : Fin N}
    {k arrived : Nat} {now : Rat} {b : Option Obj}
    (hs : (Deployment.machine C).step d.2 (.arrive i k arrived now) = some (s', b)) :
    (raftView C).Follows (Cluster.machine N) (Fits C) d (.arrive i k arrived now) s' b := by
  obtain ⟨pkt, hpkt, hport, hfresh, served, part, hserved, rfl, rfl⟩ := Deployment.step_arrive hs
  have hmem : pkt ∈ d.2.wire := List.mem_of_getElem? hpkt
  have hread := requestIn_read hjson ((hplain.net pkt hmem).readable C.floatRepr C.floatOf) arrived
  rw [Deployment.serve, Deployment.readOf, handleConnection_eq] at hserved
  by_cases hwhole : ReadWhole C.toCodec pkt.msg arrived
  · rw [if_pos hwhole] at hread
    rw [hread, Option.elim_some,
      handleRequest_raft (isRaftType_of_builtBy (hw.honest pkt hmem))] at hserved
    cases hserved
    have hprocess : (d.2.process i).node.port = C.port i := hw.port i
    simp only [View.Follows, raftView, hpkt, if_pos hwhole]
    refine ⟨⟨rfl, ?_⟩, ?_⟩
    · intro k' hk'
      cases hk'
      refine ⟨fun e he hk => hfresh (hreads e he k hk), ?_⟩
      intro pkt' hpkt'
      cases hpkt.symm.trans hpkt'
      exact ⟨hwhole.1.trans (by omega), hwhole.2⟩
    · simp only [Cluster.machine, Cluster.step, hpkt, hprocess, if_pos hport, Cluster.perform,
        RaftProcess.step, List.append_nil]
      have hprocs := process_leave (s := d.2) i (serveRaft (d.2.servers i) pkt.msg fun _ =>
        [("raft_ok", .bool true)]) (d.2.parts i)
      exact congrArg (fun p => some ((⟨p, d.2.wire⟩ : Cluster N), ())) hprocs.symm
  · rw [if_neg hwhole] at hread
    rw [hread] at hserved
    cases hserved
    simp only [View.Follows, raftView, hpkt, if_neg hwhole]
    exact process_leave_frame C rfl rfl

theorem follows_step (hjson : C.toCodec.Lawful) {d : DeploymentRun N ω}
    (hw : WellFormed C.toClusterConfig ((raftView C).state d.2))
    (hplain : IntegralTerms ((raftView C).state d.2)) (hreads : ReadsShown C d)
    {a : DeploymentAction N} {b : Option Obj} (hok : Honest C d a)
    (hs : (Deployment.machine C).step d.2 a = some (s', b)) :
    (raftView C).Follows (Cluster.machine N) (Fits C) d a s' b := by
  cases a with
  | raft i a => exact follows_raft hs
  | arrive i k arrived now => exact follows_arrive hjson hw hplain hreads hs
  | request i data now =>
    cases hs
    obtain ⟨hraft, hspawned⟩ := serve_frame (hok data rfl)
    exact process_leave_frame C hraft hspawned
  | background i k now =>
    cases hs
    rfl

/-- The Raft nodes of a deployment are a run of the cluster. -/
theorem raft_leads (hjson : C.toCodec.Lawful) {start : Fin N → Rat} {c : DeploymentRun N ω}
    (h : (Deployment.machine C).Leads (Honest C) ([], .init C start) c) :
    (Cluster.machine N).Leads (Fits C) ([], .init C.toClusterConfig) ((raftView C).run c) := by
  refine (raftView C).leads_of_follows h ?_
  intro d a s' b hd hshown hok hs
  exact follows_step hjson (wellFormed_of_leads hshown) (integralTerms_of_leads hshown)
    (readsShown_of_leads hd) hok hs

/-! ## The runs of a cluster that a deployment has -/

end

/-- The servers of three nodes, with components that answer nothing. -/
def threeServers : DeploymentSetup 3 Unit where
  toClusterConfig := threeNodes
  toCodec := .unlimited plainRepr fun _ => 0
  keys := demoKeys
  nodeType := "lock_manager"
  other := fun _ state => (.error .typeError, state)
  background _ _ := id
  rest := ()

end SyncSystem.Server
