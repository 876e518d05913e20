/-
SyncSystem.Raft.ElectionRestriction — a vote goes only to a node whose
log is at least as up to date.

A request carries the last (term, index) its sender's log had when the
election started; it is compared with the voter's log when it arrives.
In between both logs may have grown. The comparison itself is
`logOk_eq`; that the sender's log has not fallen behind its request is
an invariant of the cluster (`Summarised`), because the last pair of a
log never goes down.
-/
import SyncSystem.Raft.Cluster
import Mathlib.Data.Prod.Lex

namespace SyncSystem.Raft

open SyncSystem.Python
open SyncSystem.Consensus

/-- The term and the index of the last entry, in lexicographic order. -/
def RaftNode.lastPair (n : RaftNode) : Rat ×ₗ Nat := toLex (n.lastTerm, n.lastIdx)

/-- The up-to-dateness test is the order of the last pairs. -/
theorem logOk_eq (n : RaftNode) (t : Rat) (i : Nat) :
    n.logOk (.ofRat t) (.int i) = .ok (decide (n.lastPair ≤ toLex (t, i))) := by
  have hidx : (Json.int i).num = .ok (i : Rat) := by simp [Json.num, Json.num?]
  have hle : n.lastPair ≤ toLex (t, i) ↔ n.lastTerm < t ∨ n.lastTerm = t ∧ n.lastIdx ≤ i :=
    Prod.Lex.toLex_le_toLex
  simp only [RaftNode.logOk, num_ofRat, hidx, hle, bind, Except.bind]
  split
  · next hgt => simp [pure, Except.pure, hgt]
  · next hgt =>
    split
    · next heq => simp [pure, Except.pure, heq]
    · next hne => simp [pure, Except.pure, hgt, Ne.symm hne]

/-! ## The last pair of a log -/

/-- Entries are numbered from 1, and none is from a later term. -/
structure LogSound (n : RaftNode) : Prop where
  index : n.lastIdx = n.log.length
  term : n.lastTerm ≤ n.currentTerm

theorem logSound_init (nodeId : String) (peers : List String) (port : Nat) :
    LogSound (.init nodeId peers port) := ⟨rfl, le_rfl⟩

theorem lastPair_congr {n n' : RaftNode} (h : n'.log = n.log) : n'.lastPair = n.lastPair := by
  simp only [RaftNode.lastPair, RaftNode.lastTerm, RaftNode.lastIdx, h]

theorem LogSound.of_log {n n' : RaftNode} (hn : LogSound n) (h : n'.log = n.log)
    (hterm : n.currentTerm ≤ n'.currentTerm) : LogSound n' := by
  obtain ⟨hindex, hlast⟩ := hn
  refine ⟨?_, ?_⟩
  · simpa only [RaftNode.lastIdx, h] using hindex
  · refine le_trans ?_ hterm
    simpa only [RaftNode.lastTerm, h] using hlast

theorem logSound_submitCommand {n : RaftNode} (hn : LogSound n) (command : String) (data : Obj) :
    LogSound (n.submitCommand command data).1 ∧
      n.lastPair ≤ (n.submitCommand command data).1.lastPair := by
  unfold RaftNode.submitCommand
  split
  · exact ⟨hn, le_rfl⟩
  · refine ⟨⟨by simp [RaftNode.lastIdx], by simp [RaftNode.lastTerm]⟩, ?_⟩
    rw [RaftNode.lastPair, RaftNode.lastPair, Prod.Lex.toLex_le_toLex]
    simp only [RaftNode.lastTerm, RaftNode.lastIdx, List.getLast?_concat, Option.map_some,
      Option.getD_some]
    rcases hn.term.lt_or_eq with hlt | heq
    · exact Or.inl hlt
    · refine Or.inr ⟨heq, ?_⟩
      exact hn.index.le.trans (Nat.le_succ _)

/-- No action lowers the last pair of a sound log. -/
theorem RaftProcess.NodeEffect.lastPair_le {n n' : RaftNode} {a : NodeAction}
    (h : NodeEffect n a n') (hn : LogSound n) : LogSound n' ∧ n.lastPair ≤ n'.lastPair := by
  cases h with
  | elected =>
    have hterm : n.currentTerm ≤ n.startElection.1.currentTerm :=
      Ballot.term_le (ballot_startElection n)
    exact ⟨hn.of_log rfl hterm, le_rfl⟩
  | received msg r hr =>
    exact ⟨hn.of_log hr.log hr.term_le, (lastPair_congr hr.log).ge⟩
  | submitted command data => exact logSound_submitCommand hn command data
  | same => exact ⟨hn, le_rfl⟩

/-! ## The pairs in the requests -/

theorem requestVoteMsg_inj {n n' : RaftNode} {i i' : Nat} {t t' : Rat}
    (h : n.requestVoteMsg i t = n'.requestVoteMsg i' t') :
    n.nodeId = n'.nodeId ∧ i = i' ∧ t = t' := by
  simp only [RaftNode.requestVoteMsg, List.cons.injEq, Prod.mk.injEq, true_and, Json.str.injEq,
    Json.obj.injEq, Json.int.injEq, and_true, Nat.cast_inj] at h
  obtain ⟨_, hid, _, _, hi, ht⟩ := h
  have hnum := congrArg Json.num? ht
  simp only [num?_ofRat, Option.some.injEq] at hnum
  exact ⟨hid, hi, hnum⟩

/-- The node's log is at least as up to date as the pair. -/
def Covers (n : RaftNode) (t : Rat) (i : Nat) : Prop := toLex (t, i) ≤ n.lastPair

theorem Covers.mono {n n' : RaftNode} {t : Rat} {i : Nat} (h : Covers n t i)
    (hle : n.lastPair ≤ n'.lastPair) : Covers n' t i := le_trans h hle

/-- The requests a node has still to send are covered by its log. -/
def PendingCovered (p : RaftProcess) : Prop :=
  ∀ t ∈ p.pending, ∀ peer i lt, t.task = .requestVote peer i lt → Covers p.node lt i

theorem pendingCovered_step {p p' : RaftProcess} {a : NodeAction} {out : List Packet}
    (hp : PendingCovered p) (hle : p.node.lastPair ≤ p'.node.lastPair)
    (h : p.step a = some (p', out)) : PendingCovered p' := by
  intro t ht peer i lt htask
  rcases RaftProcess.pending_step h ht with hold | hnew
  · exact (hp t hold peer i lt htask).mono hle
  · cases hnew with
    | elected => cases htask; exact hle
    | ticked => cases htask
    | fanned => cases htask
    | answered msg k hk =>
      simp only at htask
      rw [htask] at hk
      cases ((handleMessage_effect p.node msg).role_task hk rfl).1

/-- A request that is written states a pair that the sender's log covers. -/
theorem covers_of_sent {p p' : RaftProcess} {a : NodeAction} {out : List Packet}
    (hp : PendingCovered p) (h : p.step a = some (p', out)) {pkt : Packet} (hpkt : pkt ∈ out)
    {n : RaftNode} {i : Nat} {lt : Rat} (hmsg : pkt.msg = n.requestVoteMsg i lt) :
    n.nodeId = p.node.nodeId ∧ Covers p.node lt i := by
  obtain ⟨k, ⟨task, born⟩, rfl, hk, hmem⟩ := RaftProcess.output_step h hpkt
  have hty := congrArg (fun m => Obj.get m "type" .null) hmsg
  cases SendTask.writes hmem with
  | heartbeat peer port => simp at hty
  | voteResponse receiver granted port _ => simp at hty
  | requestVote peer i' lt' port =>
    obtain ⟨hid, rfl, rfl⟩ := requestVoteMsg_inj hmsg
    exact ⟨hid.symm, hp _ (List.mem_of_getElem? hk) peer _ _ rfl⟩

/-! ## Runs of the cluster -/

variable {N : Nat}

/-- Logs are sound, and cover the requests their nodes have made. -/
structure Summarised (C : ClusterConfig N) (s : Cluster N) : Prop where
  sound : ∀ i, LogSound (s.procs i).node
  pending : ∀ i, PendingCovered (s.procs i)
  sent : ∀ pkt ∈ s.net, ∀ (n : RaftNode) i lt, pkt.msg = n.requestVoteMsg i lt →
    ∀ j, n.nodeId = C.nodeId j → Covers (s.procs j).node lt i

theorem summarised_init (C : ClusterConfig N) : Summarised C (Cluster.init C) where
  sound _ := logSound_init _ _ _
  pending _ := by intro t ht; cases ht
  sent := by intro pkt hpkt; cases hpkt

theorem summarised_step {C : ClusterConfig N} {s s' : Cluster N} {a : ClusterAction N} {u : Unit}
    (hw : WellFormed C s) (hs : Summarised C s)
    (h : (Cluster.machine N).step s a = some (s', u)) : Summarised C s' := by
  obtain ⟨i, b, p, out, _, hstep, rfl⟩ := Cluster.step_cases h
  obtain ⟨hsound, hle⟩ := (RaftProcess.step_node hstep).lastPair_le (hs.sound i)
  -- no log has fallen behind a pair it covered
  have hcovers : ∀ j {t : Rat} {k : Nat}, Covers (s.procs j).node t k →
      Covers (Function.update s.procs i p j).node t k := by
    intro j t k hc
    rcases eq_or_ne j i with rfl | hj
    · rw [Function.update_self]
      exact hc.mono hle
    · rw [Function.update_of_ne hj]
      exact hc
  refine ⟨?_, ?_, ?_⟩
  · exact (Function.forall_update_iff _ fun _ (q : RaftProcess) => LogSound q.node).mpr
      ⟨hsound, fun j _ => hs.sound j⟩
  · exact (Function.forall_update_iff _ fun _ q => PendingCovered q).mpr
      ⟨pendingCovered_step (hs.pending i) hle hstep, fun j _ => hs.pending j⟩
  · intro pkt hpkt n k lt hmsg j hj
    rcases List.mem_append.mp hpkt with hold | hnew
    · exact hcovers j (hs.sent pkt hold n k lt hmsg j hj)
    · obtain ⟨hid, hc⟩ := covers_of_sent (hs.pending i) hstep hnew hmsg
      obtain rfl : i = j := C.nodeId_injective ((hw.nodeId i).symm.trans (hid.symm.trans hj))
      exact hcovers i hc

theorem summarised_of_leads {ok : ClusterRun N → ClusterAction N → Prop}
    {C : ClusterConfig N} {c : ClusterRun N}
    (h : (Cluster.machine N).Leads ok ([], Cluster.init C) c) : Summarised C c.2 :=
  h.invariant (I := fun c => Summarised C c.2) (summarised_init C)
    (fun _ _ _ _ hreach ih _ hs => summarised_step (wellFormed_of_leads hreach) ih hs)

/-! ## The restriction -/

/-- By this step `_handle_vote_request` of node `i` sets `voted_for` to
`candidate`: it is the call that is answered with a granted vote. -/
def GivesVote (c : ClusterRun N) (a : ClusterAction N) (i : Fin N) (candidate : Json) : Prop :=
  ∃ k pkt receiver, a = .deliver i k ∧ c.2.net[k]? = some pkt ∧
    .voteResponse receiver true ∈ ((c.2.procs i).node.handleMessage pkt.msg).spawned ∧
    ((c.2.procs i).node.handleMessage pkt.msg).node.votedFor = candidate

/-- A granted message that a node has built is its request, and the pair
in it is no less than the voter's. -/
theorem Grants.requestVote {P : RaftNode → Prop} {n n' : RaftNode} {msg : Obj} {receiver : Json}
    (h : Grants n msg receiver n') (hb : BuiltBy P msg) :
    ∃ m i lt, P m ∧ msg = m.requestVoteMsg i lt ∧ n'.votedFor = .str m.nodeId ∧
      n.lastPair ≤ toLex (lt, i) := by
  cases hb with
  | heartbeat m _ => have hty := h.type; simp at hty
  | voteResponse m granted _ => have hty := h.type; simp at hty
  | requestVote m i lt hm =>
    obtain ⟨_, _, hlt, hli, hok⟩ := h.upToDate
    have htest : n.logOk (.ofRat lt) (.int i) = .ok true := by
      cases hlt
      cases hli
      exact hok
    rw [logOk_eq] at htest
    exact ⟨m, i, lt, hm, rfl, (Except.ok.inj h.candidate).symm,
      of_decide_eq_true (Except.ok.inj htest)⟩

/-- **The election restriction.** Whenever a node votes for a candidate,
the candidate is a node whose log then ends in no smaller a pair. -/
theorem election_restriction {C : ClusterConfig N} {c : ClusterRun N}
    (h : (Cluster.machine N).Leads Machine.always ([], Cluster.init C) c) :
    EveryStep (fun before a _ => ∀ i candidate, GivesVote before a i candidate →
      ∃ j, candidate = .str (C.nodeId j) ∧
        (before.2.procs i).node.lastPair ≤ (before.2.procs j).node.lastPair) c.1 := by
  refine h.everyStep ?_
  rintro d a s' u hreach _ _ i candidate ⟨k, pkt, receiver, rfl, hpkt, hspawned, rfl⟩
  have hmem := List.mem_of_getElem? hpkt
  obtain ⟨m, idx, lt, ⟨j, hj⟩, hmsg, hvote, hle⟩ :=
    (grants_of_spawned hspawned).requestVote ((wellFormed_of_leads hreach).honest pkt hmem)
  refine ⟨j, by rw [hvote, hj], ?_⟩
  exact hle.trans ((summarised_of_leads hreach).sent pkt hmem m idx lt hmsg j hj)

/-- A leader has an entry of term 1 when a rival with an empty log stands
in term 2; it stands itself in term 3 and has the vote of the rival. -/
def restrictedRun (leader voter rival : Fin 3) : List (ClusterAction 3) :=
  [.act leader .electionTimeout, .act leader (.resume 0), .deliver voter 0,
   .act voter (.resume 0), .deliver leader 1, .act leader (.submit "set" []),
   .act rival .electionTimeout, .act rival .electionTimeout, .act rival (.resume 2),
   .deliver leader 2,
   .act leader .electionTimeout, .act leader (.resume 4), .deliver rival 3]

theorem election_restriction_restrictedRun :
    ∃ c, (Cluster.machine 3).Leads Machine.always ([], Cluster.init threeNodes) c ∧
      (c.2.procs 2).node.votedFor = .str "node_1" ∧ (c.2.procs 0).node.log.length = 1 ∧
      EveryStep (fun before a _ => ∀ i candidate, GivesVote before a i candidate →
        ∃ j, candidate = .str (threeNodes.nodeId j) ∧
          (before.2.procs i).node.lastPair ≤ (before.2.procs j).node.lastPair) c.1 := by
  obtain ⟨c, hc, hp⟩ := Machine.exists_leads_of_exec (Cluster.machine 3) Machine.always
    ([], Cluster.init threeNodes) (restrictedRun 0 1 2)
    (fun c => (c.2.procs 2).node.votedFor.pyEq (.str "node_1") &&
      decide ((c.2.procs 0).node.log.length = 1)) (by decide +kernel)
  rw [Bool.and_eq_true] at hp
  exact ⟨c, hc, pyEq_str_right.mp hp.1, of_decide_eq_true hp.2, election_restriction hc⟩

end SyncSystem.Raft
