/-
SyncSystem.Server.Elections — how the servers of a deployment vote.

No request submits a command, so no server's log ever has an entry, and
every vote request carries the index and the term of an empty log
(`emptyLogs_of_leads`). The comparison of logs in `_handle_vote_request`
therefore never refuses a vote: a server grants a request exactly by the
term and by the vote it has given (`votes_go_by_term`).
-/
import SyncSystem.Server.Deployment

namespace SyncSystem.Server

open SyncSystem.Python
open SyncSystem.Raft

variable {N : Nat} {ω : Type}

/-! ## Logs without entries -/

/-- The request that the task will write is one of an empty log. -/
def ofEmptyLog : SendTask → Prop
  | .requestVote _ lastIdx lastTerm => lastIdx = 0 ∧ lastTerm = 0
  | _ => True

structure EmptyLog (p : RaftProcess) : Prop where
  log : p.node.log = []
  pending : ∀ t ∈ p.pending, ofEmptyLog t.task

/-- A vote request is one of an empty log. -/
def FromEmptyLog (msg : Obj) : Prop :=
  Obj.get msg "type" (.str "") = .str "request_vote" → ∃ n, msg = RaftNode.requestVoteMsg n 0 0

theorem log_of_effect {n n' : RaftNode} {a : NodeAction} (h : RaftProcess.NodeEffect n a n')
    (hlog : n.log = []) (hno : ∀ command data, a ≠ .submit command data) : n'.log = [] := by
  cases h with
  | elected => exact hlog
  | received msg r hr => exact hr.log.trans hlog
  | submitted command data => exact absurd rfl (hno command data)
  | same => exact hlog

theorem ofEmptyLog_started {p : RaftProcess} {a : NodeAction} {t : Pending} (hp : EmptyLog p)
    (h : RaftProcess.Started p a t) : ofEmptyLog t.task := by
  cases h with
  | elected peer => simp [ofEmptyLog, RaftNode.lastIdx, RaftNode.lastTerm, hp.log]
  | ticked peer _ => trivial
  | answered msg k hk =>
    cases k with
    | requestVote peer i t =>
      have hrole : (SendTask.requestVote peer i t).role = some .candidate := rfl
      cases ((handleMessage_effect _ _).role_task hk hrole).1
    | _ => trivial
  | fanned k peer born _ => trivial

theorem fromEmptyLog_of_writes {n : RaftNode} {k : SendTask} {pkt : Packet} (h : k.Writes n pkt)
    (hk : ofEmptyLog k) : FromEmptyLog pkt.msg := by
  intro htype
  cases h with
  | requestVote peer i t port =>
    obtain ⟨rfl, rfl⟩ := hk
    exact ⟨n, rfl⟩
  | heartbeat peer port => exact absurd (Json.str.inj htype) (by decide)
  | voteResponse receiver granted port _ => exact absurd (Json.str.inj htype) (by decide)

theorem emptyLog_step {p p' : RaftProcess} {a : NodeAction} {out : List Packet} (hp : EmptyLog p)
    (hno : ∀ command data, a ≠ .submit command data) (h : p.step a = some (p', out)) :
    EmptyLog p' ∧ ∀ pkt ∈ out, FromEmptyLog pkt.msg := by
  refine ⟨⟨log_of_effect (RaftProcess.step_node h) hp.log hno, ?_⟩, ?_⟩
  · intro t ht
    rcases RaftProcess.pending_step h ht with hold | hnew
    · exact hp.pending t hold
    · exact ofEmptyLog_started hp hnew
  · intro pkt hpkt
    obtain ⟨k, t, rfl, ht, hmem⟩ := RaftProcess.output_step h hpkt
    exact fromEmptyLog_of_writes (SendTask.writes hmem) (hp.pending t (List.mem_of_getElem? ht))

/-- Where no command is submitted, no log has an entry and no vote
request speaks of one. -/
theorem emptyLogs_of_leads {C : ClusterConfig N} {ok : ClusterRun N → ClusterAction N → Prop}
    (hno : ∀ r i command data, ¬ ok r (.act i (.submit command data))) {r : ClusterRun N}
    (h : (Cluster.machine N).Leads ok ([], .init C) r) :
    (∀ i, EmptyLog (r.2.procs i)) ∧ ∀ pkt ∈ r.2.net, FromEmptyLog pkt.msg := by
  refine h.invariant (I := fun r =>
    (∀ i, EmptyLog (r.2.procs i)) ∧ ∀ pkt ∈ r.2.net, FromEmptyLog pkt.msg) ?_ ?_
  · refine ⟨fun i => ⟨rfl, ?_⟩, ?_⟩
    · intro t ht; cases ht
    · intro pkt hpkt; cases hpkt
  · intro d a s' u _ ih hok hs
    refine Cluster.forall_step hs ih.1 ih.2 ?_
    intro i b p out hperf hstep
    refine emptyLog_step (ih.1 i) ?_ hstep
    rintro command data rfl
    cases hperf with
    | act _ _ _ => exact hno d i command data hok

/-! ## The answer to a vote request -/

theorem logOk_of_empty {n : RaftNode} (hlog : n.log = []) :
    n.logOk (.ofRat 0) (.int 0) = .ok true := by
  have hterm : n.lastTerm = 0 := by simp [RaftNode.lastTerm, hlog]
  have hidx : n.lastIdx = 0 := by simp [RaftNode.lastIdx, hlog]
  unfold RaftNode.logOk
  rw [num_ofRat, hterm, hidx]
  rfl

/-- The term test, after a higher term has been adopted. -/
theorem termOk_adoptTerm (n : RaftNode) (t : Rat) (candidate : String) :
    (n.adoptTerm t).termOk t (.str candidate) = true ↔
      n.currentTerm < t ∨
        n.currentTerm = t ∧ (n.votedFor = .null ∨ n.votedFor = .str candidate) := by
  unfold RaftNode.adoptTerm
  split
  · next hhigher => simp [RaftNode.termOk, show n.currentTerm < t from hhigher]
  · next hle =>
    have hnot : ¬ n.currentTerm < t := hle
    rw [eq_comm (a := n.currentTerm)]
    simp only [RaftNode.termOk, gt_iff_lt, hnot, decide_false, Bool.false_or, Bool.and_eq_true,
      beq_iff_eq, Bool.or_eq_true, pyEq_str_right, false_or]
    refine and_congr_right (fun _ => or_congr_left ?_)
    cases n.votedFor <;> simp

theorem handleVoteRequest_of_empty {n : RaftNode} (m : RaftNode) (hlog : n.log = []) :
    n.handleVoteRequest (m.requestVoteMsg 0 0) =
      .ok (if n.termOk m.currentTerm (.str m.nodeId) then
          ({ n with votedFor := .str m.nodeId, currentTerm := m.currentTerm },
            [.voteResponse (.str (address m.port)) true])
        else (n, [.voteResponse (.str (address m.port)) false])) := by
  show ((Json.ofRat m.currentTerm).num >>= fun t => n.logOk (.ofRat 0) (.int 0) >>= fun ok =>
    if n.termOk t (.str m.nodeId) && ok then _ else _) = _
  rw [num_ofRat, logOk_of_empty hlog]
  show (if n.termOk m.currentTerm (.str m.nodeId) && true then _ else _) = _
  rw [Bool.and_true]
  split <;> rfl

/-- A node without entries grants a request that speaks of none by the
term and by its vote. -/
theorem grants_iff {n : RaftNode} (m : RaftNode) (hlog : n.log = []) :
    (n.handleMessage (m.requestVoteMsg 0 0)).raised = none ∧
    (.voteResponse (.str (address m.port)) true ∈
        (n.handleMessage (m.requestVoteMsg 0 0)).spawned ↔
      n.currentTerm < m.currentTerm ∨
        n.currentTerm = m.currentTerm ∧ (n.votedFor = .null ∨ n.votedFor = .str m.nodeId)) := by
  have hdispatch : (n.adoptTerm m.currentTerm).dispatch (m.requestVoteMsg 0 0) = _ :=
    handleVoteRequest_of_empty m ((log_adoptTerm n m.currentTerm).trans hlog)
  have hterm : (Obj.get (m.requestVoteMsg 0 0) "term" (.int 0)).num = .ok m.currentTerm := by
    rw [term_requestVoteMsg, num_ofRat]
  rw [← termOk_adoptTerm]
  unfold RaftNode.handleMessage
  simp only [hterm, hdispatch]
  split
  · next hok => simp [hok]
  · next hno => simp [hno]

/-- **Votes go by the term.** In every run of the servers, each of them
answers any vote request that has been written without an exception, and
grants it exactly if the request's term is higher than its own, or the
same and its vote free or given to this candidate: no log is ever
compared with another that is longer or newer. -/
theorem votes_go_by_term {C : DeploymentSetup N ω} (hjson : C.toCodec.Lawful)
    {start : Fin N → Rat} {c : DeploymentRun N ω}
    (h : (Deployment.machine C).Leads (Honest C) ([], .init C start) c)
    {pkt : Packet} (hpkt : pkt ∈ c.2.wire)
    (htype : Obj.get pkt.msg "type" (.str "") = .str "request_vote") (i : Fin N) :
    (c.2.servers i).raft.log = [] ∧
    ((c.2.servers i).raft.handleMessage pkt.msg).raised = none ∧
    ∃ term candidate, msgTerm pkt.msg = .ok term ∧ candidateId pkt.msg = .ok (.str candidate) ∧
      (.voteResponse (Obj.get pkt.msg "sender" (.str "")) true ∈
          ((c.2.servers i).raft.handleMessage pkt.msg).spawned ↔
        (c.2.servers i).raft.currentTerm < term ∨
          (c.2.servers i).raft.currentTerm = term ∧
            ((c.2.servers i).raft.votedFor = .null ∨
              (c.2.servers i).raft.votedFor = .str candidate)) := by
  obtain ⟨hprocs, hnet⟩ :=
    emptyLogs_of_leads (fun _ _ _ _ hok => by cases hok.1) (raft_leads hjson h)
  obtain ⟨m, hm⟩ := hnet pkt hpkt htype
  obtain ⟨hraised, hgrants⟩ := grants_iff m (hprocs i).log
  rw [hm]
  refine ⟨(hprocs i).log, hraised, m.currentTerm, m.nodeId, ?_, rfl, hgrants⟩
  rw [msgTerm, term_requestVoteMsg, num_ofRat]

/-- A node asks for votes in term 1. -/
def askingRun (candidate : Fin 3) : List (DeploymentAction 3) :=
  [.raft candidate .electionTimeout, .raft candidate (.resume 0)]

theorem votes_go_by_term_askingRun :
    ∃ c, (Deployment.machine threeServers).Leads (Honest threeServers)
        ([], .init threeServers fun _ => 0) c ∧ ∃ pkt ∈ c.2.wire, (c.2.servers 2).raft.log = [] ∧
      ((c.2.servers 2).raft.handleMessage pkt.msg).raised = none := by
  obtain ⟨c, hc, hp⟩ := Machine.exists_leads_of_exec (Deployment.machine threeServers)
    (Honest threeServers) ([], .init threeServers fun _ => 0) (askingRun 0)
    (fun c => c.2.wire.any fun pkt =>
      (Obj.get pkt.msg "type" (.str "")).pyEq (.str "request_vote")) (by decide +kernel)
  obtain ⟨pkt, hpkt, htype⟩ := List.any_eq_true.mp hp
  have hvotes := votes_go_by_term (Codec.lawful_unlimited floatText_plainRepr _) hc hpkt
    (pyEq_str_right.mp htype) 2
  exact ⟨c, hc, pkt, hpkt, hvotes.1, hvotes.2.1⟩

end SyncSystem.Server
