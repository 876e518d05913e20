/-
SyncSystem.Raft.IntegralTerms — whole terms, and messages without floats.

A term starts at 0, goes up by 1 and is otherwise taken over from a
message. So in a cluster every term is a whole number, in the nodes, in
their logs, in the tasks that wait for a connection and in the messages
(`integralTerms_of_leads`), and no message has a float in it. That is why
`json.loads` gives the receiver the very dict the sender has built,
whatever the `repr` of a float is.
-/
import SyncSystem.Python.JsonRoundTrip
import SyncSystem.Raft.Cluster

namespace SyncSystem.Raft

open SyncSystem.Python
open SyncSystem.Consensus

/-! ## Whole numbers -/

def Integral (q : Rat) : Prop := q.den = 1

theorem Integral.succ {q : Rat} (h : Integral q) : Integral (q + 1) := by
  have hcast : q + 1 = ((q.num + 1 : Int) : Rat) := by
    rw [Int.cast_add, Int.cast_one, Rat.coe_int_num_of_den_eq_one h]
  show (q + 1).den = 1
  rw [hcast]
  exact Rat.den_intCast _

theorem ofRat_integral {q : Rat} (h : Integral q) : Json.ofRat q = .int q.num := if_pos h

/-! ## A node -/

/-- The term that the task will announce for the last entry. -/
def SendTask.Integral : SendTask → Prop
  | .requestVote _ _ lastTerm => Raft.Integral lastTerm
  | _ => True

structure RaftProcess.Integral (p : RaftProcess) : Prop where
  term : Raft.Integral p.node.currentTerm
  log : ∀ e ∈ p.node.log, Raft.Integral e.term
  pending : ∀ t ∈ p.pending, t.task.Integral

/-- The term of a message, if it has one, is whole. -/
def IntegralMsg (msg : Obj) : Prop := ∀ t, msgTerm msg = .ok t → Integral t

theorem integral_lastTerm {n : RaftNode} (h : ∀ e ∈ n.log, Integral e.term) :
    Integral n.lastTerm := by
  unfold RaftNode.lastTerm
  cases hlast : n.log.getLast? with
  | none => rfl
  | some e => exact h e (List.mem_of_getLast? hlast)

theorem integral_adoptTerm {n : RaftNode} {t : Rat} (hn : Integral n.currentTerm)
    (ht : Integral t) : Integral (n.adoptTerm t).currentTerm := by
  unfold RaftNode.adoptTerm
  split
  · exact ht
  · exact hn

theorem MessageEffect.integral {n : RaftNode} {msg : Obj} {r : Handled} (h : MessageEffect n msg r)
    (hn : Integral n.currentTerm) (hmsg : IntegralMsg msg) : Integral r.node.currentTerm := by
  cases h with
  | badTerm e _ => exact hn
  | response t ht _ =>
    have hterm : ((n.adoptTerm t).handleVoteResponse msg).1.currentTerm =
        (n.adoptTerm t).currentTerm :=
      congrArg Ballot.term (ballot_handleVoteResponse (n.adoptTerm t) msg)
    show Integral ((n.adoptTerm t).handleVoteResponse msg).1.currentTerm
    rw [hterm]
    exact integral_adoptTerm hn (hmsg t ht)
  | badField t e ht => exact integral_adoptTerm hn (hmsg t ht)
  | ignored t ht => exact integral_adoptTerm hn (hmsg t ht)
  | refused t s ht => exact integral_adoptTerm hn (hmsg t ht)
  | granted t c s ht _ _ _ => exact integral_adoptTerm hn (hmsg t ht)
  | heartbeat t ht => exact integral_adoptTerm hn (hmsg t ht)

/-- A message starts no vote request. -/
theorem MessageEffect.integral_task {n : RaftNode} {msg : Obj} {r : Handled}
    (h : MessageEffect n msg r) {k : SendTask} (hk : k ∈ r.spawned) : k.Integral := by
  cases k with
  | requestVote peer i t =>
    have hrole : (SendTask.requestVote peer i t).role = some .candidate := rfl
    cases (h.role_task hk hrole).1
  | heartbeats => trivial
  | heartbeat peer => trivial
  | voteResponse receiver granted => trivial

theorem integral_started {p : RaftProcess} {a : NodeAction} {t : Pending} (hp : p.Integral)
    (h : RaftProcess.Started p a t) : t.task.Integral := by
  cases h with
  | elected peer => exact integral_lastTerm hp.log
  | ticked peer _ => trivial
  | answered msg k hk => exact (handleMessage_effect _ _).integral_task hk
  | fanned k peer born _ => trivial

/-- What a step does to a node whose terms are whole. -/
theorem RaftProcess.NodeEffect.integral {n n' : RaftNode} {a : NodeAction} (h : NodeEffect n a n')
    (hn : Raft.Integral n.currentTerm) (hlog : ∀ e ∈ n.log, Raft.Integral e.term)
    (hmsg : ∀ msg, a = .receive msg → IntegralMsg msg) :
    Raft.Integral n'.currentTerm ∧ ∀ e ∈ n'.log, Raft.Integral e.term := by
  cases h with
  | elected => exact ⟨hn.succ, hlog⟩
  | received msg r hr => exact ⟨hr.integral hn (hmsg msg rfl), hr.log ▸ hlog⟩
  | submitted command data =>
    unfold RaftNode.submitCommand
    split
    · exact ⟨hn, hlog⟩
    · refine ⟨hn, ?_⟩
      intro e he
      rcases List.mem_append.mp he with he | he
      · exact hlog e he
      · rw [List.mem_singleton.mp he]
        exact hn
  | same => exact ⟨hn, hlog⟩

theorem integral_step {p p' : RaftProcess} {a : NodeAction} {out : List Packet} (hp : p.Integral)
    (hmsg : ∀ msg, a = .receive msg → IntegralMsg msg) (h : p.step a = some (p', out)) :
    p'.Integral := by
  obtain ⟨hterm, hlog⟩ := (RaftProcess.step_node h).integral hp.term hp.log hmsg
  refine ⟨hterm, hlog, ?_⟩
  intro t ht
  rcases RaftProcess.pending_step h ht with hold | hnew
  · exact hp.pending t hold
  · exact integral_started hp hnew

/-! ## The messages -/

/-- What a node writes to another one: a message of a Raft type without
floats. -/
structure PlainMsg (msg : Obj) : Prop where
  integral : IntegralMsg msg
  readable : ∀ floatRepr floatOf, (Json.obj msg).Readable floatRepr floatOf

theorem integralMsg_of_ofRat {msg : Obj} {q : Rat}
    (hterm : Obj.get msg "term" (.int 0) = .ofRat q) (hq : Integral q) : IntegralMsg msg := by
  intro t ht
  rw [msgTerm, hterm, num_ofRat] at ht
  cases ht
  exact hq

theorem plainMsg_of_writes {n : RaftNode} {k : SendTask} {pkt : Packet} (h : k.Writes n pkt)
    (hn : Integral n.currentTerm) (hk : k.Integral) : PlainMsg pkt.msg := by
  cases h with
  | requestVote peer i t port =>
    refine ⟨integralMsg_of_ofRat rfl hn, ?_⟩
    intro floatRepr floatOf
    simp [RaftNode.requestVoteMsg, ofRat_integral hn, ofRat_integral hk, Json.Readable,
      Json.FieldsReadable]
  | heartbeat peer port =>
    refine ⟨integralMsg_of_ofRat rfl hn, ?_⟩
    intro floatRepr floatOf
    simp [RaftNode.heartbeatMsg, ofRat_integral hn, Json.Readable, Json.FieldsReadable]
  | voteResponse receiver granted port _ =>
    refine ⟨integralMsg_of_ofRat rfl hn, ?_⟩
    intro floatRepr floatOf
    simp [RaftNode.voteResponseMsg, ofRat_integral hn, Json.Readable, Json.FieldsReadable]

/-! ## A cluster -/

variable {N : Nat} {C : ClusterConfig N}

structure IntegralTerms (s : Cluster N) : Prop where
  procs : ∀ i, (s.procs i).Integral
  net : ∀ pkt ∈ s.net, PlainMsg pkt.msg

theorem integralTerms_init (C : ClusterConfig N) : IntegralTerms (Cluster.init C) := by
  refine ⟨fun i => ⟨rfl, ?_, ?_⟩, ?_⟩
  · intro e he; cases he
  · intro t ht; cases ht
  · intro pkt hpkt; cases hpkt

theorem integralTerms_step {s s' : Cluster N} {a : ClusterAction N} {u : Unit}
    (hs : IntegralTerms s) (h : (Cluster.machine N).step s a = some (s', u)) :
    IntegralTerms s' := by
  have hmoves := Cluster.forall_step (P := RaftProcess.Integral) (R := fun pkt => PlainMsg pkt.msg)
    h hs.procs hs.net ?_
  · exact ⟨hmoves.1, hmoves.2⟩
  intro i b p out hperf hstep
  have hmsg : ∀ msg, b = .receive msg → IntegralMsg msg := by
    rintro msg rfl
    cases hperf with
    | act _ _ hne => exact absurd rfl (hne msg)
    | deliver _ k pkt hk _ => exact (hs.net pkt (List.mem_of_getElem? hk)).integral
  refine ⟨integral_step (hs.procs i) hmsg hstep, ?_⟩
  intro pkt hpkt
  obtain ⟨k, t, rfl, ht, hmem⟩ := RaftProcess.output_step hstep hpkt
  exact plainMsg_of_writes (SendTask.writes hmem) (hs.procs i).term
    ((hs.procs i).pending t (List.mem_of_getElem? ht))

/-- In every run of a cluster the terms are whole numbers and the
messages have no float in them. -/
theorem integralTerms_of_leads {ok : ClusterRun N → ClusterAction N → Prop} {c : ClusterRun N}
    (h : (Cluster.machine N).Leads ok ([], Cluster.init C) c) : IntegralTerms c.2 :=
  h.invariant (I := fun c => IntegralTerms c.2) (integralTerms_init C)
    (fun _ _ _ _ _ ih _ hs => integralTerms_step ih hs)

end SyncSystem.Raft
