/-
SyncSystem.Raft.Candidacy — a majority of the votes ends a candidacy.

Votes are counted in two places, but the winner check follows only one of
them: `_start_election` counts the node's own vote and leaves it at that.
That is short of a majority unless the node is alone in its cluster. So a
node with peers is never a candidate with a majority, and a node without
is one from its first election on (`majority_ends_candidacy_iff`): no
other node will ever send it a response.
-/
import SyncSystem.Raft.Process

namespace SyncSystem.Raft

open SyncSystem.Python

namespace RaftNode

/-- A candidate that has not got a majority. -/
def Undecided (n : RaftNode) : Prop :=
  ¬ (n.state = .candidate ∧ n.majority ≤ n.votesReceived.length)

/-- The step is no election of a node without peers. -/
def canWin (n : RaftNode) : NodeAction → Bool
  | .electionTimeout => !n.peers.isEmpty
  | _ => true

end RaftNode

/-! ## Steps -/

theorem undecided_of_not_candidate {n : RaftNode} (h : n.state ≠ .candidate) : n.Undecided :=
  fun hc => h hc.1

/-- As far as the count goes, the node is as before. -/
theorem RaftNode.Undecided.congr {n n' : RaftNode} (h : n.Undecided) (hstate : n'.state = n.state)
    (hvotes : n'.votesReceived = n.votesReceived) (hpeers : n'.peers = n.peers) :
    n'.Undecided := by
  unfold RaftNode.Undecided RaftNode.majority
  rw [hstate, hvotes, hpeers]
  exact h

theorem RaftNode.Undecided.adoptTerm {n : RaftNode} (h : n.Undecided) (t : Rat) :
    (n.adoptTerm t).Undecided := by
  unfold RaftNode.adoptTerm
  split
  · exact undecided_of_not_candidate (by simp)
  · exact h

/-- One vote is a majority only where there are no peers. -/
theorem undecided_startElection {n : RaftNode} :
    n.startElection.1.Undecided ↔ n.peers ≠ [] := by
  have hmajority : n.startElection.1.majority ≤ 1 ↔ n.peers.length = 0 := by
    simp only [RaftNode.startElection, RaftNode.majority]
    omega
  rw [ne_eq, ← List.length_eq_zero_iff, ← hmajority]
  exact not_congr (and_iff_right rfl)

/-- The winner check leaves no candidate with a majority. -/
theorem undecided_checkElectionWinner (n : RaftNode) : n.checkElectionWinner.1.Undecided := by
  unfold RaftNode.checkElectionWinner
  split
  · next hs => exact undecided_of_not_candidate hs
  · split
    · exact undecided_of_not_candidate (by simp)
    · next hm => exact fun hc => hm hc.2

theorem MessageEffect.undecided {n : RaftNode} {msg : Obj} {r : Handled}
    (h : MessageEffect n msg r) (hn : n.Undecided) : r.node.Undecided := by
  cases h with
  | badTerm e _ => exact hn
  | badField t e _ => exact hn.adoptTerm t
  | ignored t _ => exact hn.adoptTerm t
  | refused t s _ => exact hn.adoptTerm t
  | granted t c s _ _ _ _ => exact (hn.adoptTerm t).congr rfl rfl rfl
  | response t _ _ => exact undecided_checkElectionWinner _
  | heartbeat t _ => exact undecided_of_not_candidate (by simp [RaftNode.handleHeartbeat])

theorem RaftProcess.NodeEffect.undecided {n n' : RaftNode} {a : NodeAction}
    (h : NodeEffect n a n') (hn : n.Undecided) (ha : n.canWin a = true) : n'.Undecided := by
  cases h with
  | elected => exact undecided_startElection.mpr (by simpa [RaftNode.canWin] using ha)
  | received msg r hr => exact hr.undecided hn
  | submitted command data =>
    unfold RaftNode.submitCommand
    split
    · exact hn
    · exact hn.congr rfl rfl rfl
  | same => exact hn

/-! ## Runs -/

/-- **A majority always ends a candidacy**, in every state of a run,
exactly when no election is started by a node without peers. -/
theorem majority_ends_candidacy_iff {nodeId : String} {peers : List String} {port : Nat}
    {c : NodeConfig}
    (h : RaftProcess.machine.Leads Machine.always ([], RaftProcess.init nodeId peers port) c) :
    (∀ p ∈ c.visited, ¬ (p.node.state = .candidate ∧
        p.node.votesReceived.length ≥ (p.node.peers.length + 1) / 2 + 1)) ↔
      EveryStep (fun before a _ => before.2.node.canWin a = true) c.1 := by
  show (∀ p ∈ c.visited, p.node.Undecided) ↔ _
  refine h.visited_iff ?_ ?_
  · intro c hc
    refine hc.invariant (I := fun c => c.2.node.Undecided)
      (undecided_of_not_candidate (by simp [RaftProcess.init, RaftNode.init])) ?_
    intro d a p' out _ ih hok hs
    exact (RaftProcess.step_node hs).undecided ih hok
  · intro d a p' out _ hwin hs hgood
    cases a with
    | electionTimeout =>
      cases hs
      exact hwin (by simpa [RaftNode.canWin] using undecided_startElection.mp hgood)
    | _ => exact hwin rfl

/-- `n1` stands twice and wins with the vote of its peer. -/
def secondElectionRun : List NodeAction :=
  [.electionTimeout, .electionTimeout,
   .receive [("type", .str "vote_response"), ("term", .int 2), ("sender_id", .str "n2"),
     ("granted", .bool true)]]

theorem majority_ends_candidacy_iff_secondElectionRun :
    ∃ c, RaftProcess.machine.Leads Machine.always
        ([], RaftProcess.init "n1" ["127.0.0.1:8002"] 8001) c ∧
      c.2.node.state = .leader ∧ (∃ p ∈ c.visited, p.node.state = .candidate) ∧
      ∀ p ∈ c.visited, ¬ (p.node.state = .candidate ∧
        p.node.votesReceived.length ≥ (p.node.peers.length + 1) / 2 + 1) := by
  obtain ⟨c, hc, hp⟩ := Machine.exists_leads_of_exec RaftProcess.machine Machine.always
    ([], RaftProcess.init "n1" ["127.0.0.1:8002"] 8001) secondElectionRun
    (fun (c : NodeConfig) => decide (c.2.node.state = .leader ∧
      (∃ p ∈ c.visited, p.node.state = .candidate) ∧
      EveryStep (fun (before : NodeConfig) a _ => before.2.node.canWin a = true) c.1))
    (by decide +kernel)
  obtain ⟨hleader, hcandidate, hwin⟩ := of_decide_eq_true hp
  exact ⟨c, hc, hleader, hcandidate, (majority_ends_candidacy_iff hc).mpr hwin⟩

/-- A node without peers whose election has started. -/
theorem candidate_with_majority :
    ∃ c, RaftProcess.machine.Leads Machine.always ([], RaftProcess.init "n1" [] 8001) c ∧
      c.2.node.state = .candidate ∧
      c.2.node.votesReceived.length ≥ (c.2.node.peers.length + 1) / 2 + 1 := by
  obtain ⟨c, hc, hp⟩ := Machine.exists_leads_of_exec RaftProcess.machine Machine.always
    ([], RaftProcess.init "n1" [] 8001) [.electionTimeout]
    (fun (c : NodeConfig) => decide (c.2.node.state = .candidate ∧
      c.2.node.votesReceived.length ≥ (c.2.node.peers.length + 1) / 2 + 1)) (by decide +kernel)
  exact ⟨c, hc, of_decide_eq_true hp⟩

end SyncSystem.Raft
