/-
SyncSystem.Raft.RoleTheorems — what a node's role says about its votes.

A candidate or leader has its own vote, and a leader a majority of them;
the votes received are different in every role, because every handler
that adds one looks first. A term that a leader hears of makes it a
follower, so a leader's term is fixed as long as it stays leader.
-/
import SyncSystem.Raft.StaleMessages

namespace SyncSystem.Raft

open SyncSystem.Python

/-- The sender's id, if any, is a string. -/
def stringSender (msg : Obj) : Bool := Obj.get msg "sender_id" (.str "") matches .str _

theorem exists_str_of_stringSender {msg : Obj} (h : stringSender msg = true) :
    ∃ s, Obj.get msg "sender_id" (.str "") = .str s := by
  unfold stringSender at h
  cases hs : Obj.get msg "sender_id" (.str "") with
  | str s => exact ⟨s, rfl⟩
  | _ => simp [hs] at h

/-- Elections start in another role than leader; a message has an integer
term and string ids. -/
abbrev RoleActions (c : NodeConfig) : NodeAction → Prop
  | .electionTimeout => c.2.node.state ≠ .leader
  | .receive msg => integerTerm msg = true ∧ stringCandidate msg = true ∧ stringSender msg = true
  | _ => True

instance (c : NodeConfig) (a : NodeAction) : Decidable (RoleActions c a) :=
  NodeAction.decidable a

structure RoleInv (n : RaftNode) : Prop where
  votes : n.votesReceived.Nodup
  /-- A candidate or leader has voted for itself and counted it. -/
  self : n.state = .candidate ∨ n.state = .leader →
    n.votedFor = .str n.nodeId ∧ .str n.nodeId ∈ n.votesReceived
  majority : n.state = .leader → n.majority ≤ n.votesReceived.length

theorem roleInv_init (nodeId : String) (peers : List String) (port : Nat) :
    RoleInv (.init nodeId peers port) where
  votes := List.nodup_nil
  self := by rintro (h | h) <;> cases h
  majority := by intro h; cases h

/-- As far as roles go, the node is as before. -/
theorem RoleInv.congr {n n' : RaftNode} (h : RoleInv n) (hstate : n'.state = n.state)
    (hvote : n'.votedFor = n.votedFor) (hvotes : n'.votesReceived = n.votesReceived)
    (hid : n'.nodeId = n.nodeId) (hpeers : n'.peers = n.peers) : RoleInv n' := by
  refine ⟨?_, ?_, ?_⟩
  · rw [hvotes]; exact h.votes
  · rw [hstate, hvote, hid, hvotes]; exact h.self
  · rw [RaftNode.majority, hstate, hpeers, hvotes]; exact h.majority

/-- A follower has only its votes to keep different. -/
theorem RoleInv.follower {n : RaftNode} (hs : n.state = .follower) (hv : n.votesReceived.Nodup) :
    RoleInv n where
  votes := hv
  self := by rw [hs]; rintro (h | h) <;> cases h
  majority := by rw [hs]; intro h; cases h

theorem RoleInv.adoptTerm {n : RaftNode} (h : RoleInv n) (t : Rat) : RoleInv (n.adoptTerm t) := by
  unfold RaftNode.adoptTerm
  split
  · exact .follower rfl h.votes
  · exact h

theorem roleInv_startElection (n : RaftNode) : RoleInv n.startElection.1 where
  votes := List.nodup_singleton _
  self _ := ⟨rfl, List.mem_singleton.mpr rfl⟩
  majority := by intro h; cases h

/-- A vote that is counted is new. -/
theorem RoleInv.withVote {n : RaftNode} (h : RoleInv n) {msg : Obj}
    (hs : stringSender msg = true) : RoleInv (n.withVote msg) := by
  obtain ⟨s, hsender⟩ := exists_str_of_stringSender hs
  unfold RaftNode.withVote
  split
  · next hnew =>
    refine ⟨nodup_withSender h.votes hnew hsender, ?_, ?_⟩
    · intro hrole
      exact ⟨(h.self hrole).1, List.mem_append_left _ (h.self hrole).2⟩
    · intro hl
      refine (h.majority hl).trans ?_
      simp
  · exact h

theorem RoleInv.checkElectionWinner {n : RaftNode} (h : RoleInv n) :
    RoleInv n.checkElectionWinner.1 := by
  unfold RaftNode.checkElectionWinner
  split
  · exact h
  · next hs =>
    split
    · next hm =>
      have hself := h.self (Or.inl (not_not.mp hs))
      exact ⟨h.votes, fun _ => hself, fun _ => hm⟩
    · exact h

/-- A granted vote leaves a candidate or leader with its own. -/
theorem RoleInv.granted {n : RaftNode} (h : RoleInv n) {c : Json}
    (hv : n.votedFor = .null ∨ n.votedFor.pyEq c = true) :
    RoleInv { n with votedFor := c } := by
  refine ⟨h.votes, ?_, h.majority⟩
  intro hrole
  obtain ⟨hown, hmem⟩ := h.self hrole
  refine ⟨?_, hmem⟩
  rcases hv with hv | hv
  · rw [hown] at hv
    cases hv
  · rw [hown] at hv
    exact pyEq_str_left.mp hv

theorem MessageEffect.roleInv {n : RaftNode} {msg : Obj} {r : Handled}
    (h : MessageEffect n msg r) (hn : RoleInv n) (hs : stringSender msg = true) :
    RoleInv r.node := by
  cases h with
  | badTerm e _ => exact hn
  | badField t e _ => exact hn.adoptTerm t
  | ignored t _ => exact hn.adoptTerm t
  | refused t s _ => exact hn.adoptTerm t
  | granted t c s _ _ _ hv => exact (hn.adoptTerm t).granted hv
  | response t _ _ =>
    rw [handleVoteResponse_eq]
    exact ((hn.adoptTerm t).withVote hs).checkElectionWinner
  | heartbeat t _ => exact .follower rfl (hn.adoptTerm t).votes

theorem RaftProcess.NodeEffect.roleInv {n n' : RaftNode} {a : NodeAction}
    (h : NodeEffect n a n') (hn : RoleInv n)
    (ha : ∀ msg, a = .receive msg → stringSender msg = true) : RoleInv n' := by
  cases h with
  | elected => exact roleInv_startElection n
  | received msg r hr => exact hr.roleInv hn (ha msg rfl)
  | submitted command data =>
    unfold RaftNode.submitCommand
    split
    · exact hn
    · exact hn.congr rfl rfl rfl rfl rfl
  | same => exact hn

/-- A leader that comes out of an action as leader is in the same term. -/
theorem RaftProcess.NodeEffect.leader_term {n n' : RaftNode} {a : NodeAction}
    (h : NodeEffect n a n') (hn' : n'.state = .leader) : n'.currentTerm = n.currentTerm := by
  cases h with
  | elected => cases hn'
  | received msg r hr => exact (hr.role (by rw [hn']; decide)).1
  | submitted command data =>
    unfold RaftNode.submitCommand
    split <;> rfl
  | same => rfl

/-! ## Runs -/

theorem roleInv_of_leads {nodeId : String} {peers : List String} {port : Nat} {c : NodeConfig}
    (h : RaftProcess.machine.Leads RoleActions ([], RaftProcess.init nodeId peers port) c) :
    RoleInv c.2.node := by
  refine h.invariant (I := fun c => RoleInv c.2.node) (roleInv_init nodeId peers port) ?_
  intro c a p' out _ ih hok hs
  refine (RaftProcess.step_node hs).roleInv ih ?_
  rintro msg rfl
  exact hok.2.2

/-- The actions of a node that is leader. -/
abbrev AsLeader (c : NodeConfig) (a : NodeAction) : Prop :=
  RoleActions c a ∧ c.2.node.state = .leader

/-- **Roles and votes.** In every reachable state the votes received are
different, a candidate or leader has its own vote and a leader a
majority; and the term stays while the node stays leader. -/
theorem role_invariant {nodeId : String} {peers : List String} {port : Nat} {c : NodeConfig}
    (h : RaftProcess.machine.Leads RoleActions ([], RaftProcess.init nodeId peers port) c) :
    RoleInv c.2.node ∧ ∀ c', RaftProcess.machine.Leads AsLeader c c' →
      c'.2.node.state = .leader → c'.2.node.currentTerm = c.2.node.currentTerm := by
  refine ⟨roleInv_of_leads h, ?_⟩
  intro c' h'
  refine h'.invariant (I := fun c' => c'.2.node.state = .leader →
    c'.2.node.currentTerm = c.2.node.currentTerm) (fun _ => rfl) ?_
  intro d a p' out _ ih hok hs hleader
  exact ((RaftProcess.step_node hs).leader_term hleader).trans (ih hok.2)

/-- A command, and a candidate of the same term. -/
def tenureRun : List NodeAction :=
  [.submit "set" [],
   .receive [("type", .str "request_vote"), ("term", .int 1), ("sender_id", .str "n2"),
     ("data", .obj [("candidate_id", .str "n1"), ("last_log_term", .int 5)])]]

theorem role_invariant_tenureRun :
    ∃ c c', RaftProcess.machine.Leads RoleActions
        ([], RaftProcess.init "n1" ["127.0.0.1:8002"] 8001) c ∧
      RaftProcess.machine.Leads AsLeader c c' ∧ c.2.node.state = .leader ∧ RoleInv c.2.node ∧
      c'.2.node.log.length = 1 ∧ c'.2.node.currentTerm = c.2.node.currentTerm := by
  obtain ⟨c, hc, hp⟩ := Machine.exists_leads_of_exec RaftProcess.machine RoleActions
    ([], RaftProcess.init "n1" ["127.0.0.1:8002"] 8001) leaderRun
    (fun c => decide (c.2.node.state = .leader) &&
      (RaftProcess.machine.exec AsLeader c tenureRun).any
        (fun (c' : NodeConfig) =>
          decide (c'.2.node.state = .leader ∧ c'.2.node.log.length = 1)))
    (by decide +kernel)
  rw [Bool.and_eq_true] at hp
  obtain ⟨c', hc', hp'⟩ := Machine.exists_leads_of_exec RaftProcess.machine AsLeader c tenureRun _
    hp.2
  obtain ⟨hleader, hlog⟩ := of_decide_eq_true hp'
  obtain ⟨hinv, hterm⟩ := role_invariant hc
  exact ⟨c, c', hc, hc', of_decide_eq_true hp.1, hinv, hlog, hterm c' hc' hleader⟩

end SyncSystem.Raft
