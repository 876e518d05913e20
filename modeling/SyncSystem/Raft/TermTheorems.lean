/-
SyncSystem.Raft.TermTheorems — over the life of a node the term only
grows and a vote is final for its term.

One step never lowers the ballot (`ballot_step`); the rest is the
monotonicity rule for runs. The only hypothesis on the messages is that
a candidate id is a string: a request that carries `null` there would
be granted as "no vote".
-/
import SyncSystem.Raft.Process

namespace SyncSystem.Raft

open SyncSystem.Python
open SyncSystem.Consensus

/-- The message's term is an integer. -/
def integerTerm (msg : Obj) : Bool := Obj.get msg "term" (.int 0) matches .int _

/-- A received message has an integer term and a string candidate id;
its type and its other fields are arbitrary. -/
abbrev WellTyped (_ : Config RaftProcess NodeAction (List Packet)) : NodeAction → Prop
  | .receive msg => integerTerm msg = true ∧ stringCandidate msg = true
  | _ => True

instance (c : Config RaftProcess NodeAction (List Packet)) (a : NodeAction) :
    Decidable (WellTyped c a) :=
  NodeAction.decidable a

/-- One effect of a step never lowers the ballot. -/
theorem RaftProcess.NodeEffect.ballot_le {n n' : RaftNode} {a : NodeAction}
    (h : NodeEffect n a n') (ha : ∀ msg, a = .receive msg → stringCandidate msg = true) :
    n.ballot ≤ n'.ballot := by
  cases h with
  | elected => exact ballot_startElection n
  | received msg r hr => exact hr.ballot_le (ha msg rfl)
  | submitted command data => rw [ballot_submitCommand]
  | same => exact le_rfl

theorem ballot_step {p p' : RaftProcess} {a : NodeAction} {out : List Packet}
    (ha : ∀ msg, a = .receive msg → stringCandidate msg = true)
    (h : p.step a = some (p', out)) : p.node.ballot ≤ p'.node.ballot :=
  (RaftProcess.step_node h).ballot_le ha

theorem ballot_le_of_leads {c c' : Config RaftProcess NodeAction (List Packet)}
    (h : RaftProcess.machine.Leads WellTyped c c') : c.2.node.ballot ≤ c'.2.node.ballot := by
  refine h.monotone (fun p => p.node.ballot) ?_
  intro d a s' b hok hs
  refine ballot_step ?_ hs
  rintro msg rfl
  exact hok.2

/-- **Terms only grow and a node votes once per term.** Between any two
states of a run the term has not decreased, and a vote that was given
is still the vote if the term is still the same. -/
theorem term_grows_and_vote_stays {c c' : Config RaftProcess NodeAction (List Packet)}
    (h : RaftProcess.machine.Leads WellTyped c c') :
    c.2.node.currentTerm ≤ c'.2.node.currentTerm ∧
      (c.2.node.votedFor ≠ .null → c'.2.node.currentTerm = c.2.node.currentTerm →
        c'.2.node.votedFor = c.2.node.votedFor) := by
  have hle := ballot_le_of_leads h
  refine ⟨Ballot.term_le hle, ?_⟩
  intro hv ht
  exact votedFor_of_ballot_vote (Ballot.vote_eq hle ht.symm (ballot_vote_of_ne_null hv))

/-- A voter grants `n2` its vote in term 3. -/
def grantRun : List NodeAction :=
  [.receive [("type", .str "request_vote"), ("term", .int 3), ("sender", .str "127.0.0.1:8002"),
     ("data", .obj [("candidate_id", .str "n2")])]]

/-- A second candidate and a heartbeat in the same term. -/
def rivalRun : List NodeAction :=
  [.receive [("type", .str "request_vote"), ("term", .int 3), ("sender", .str "127.0.0.1:8003"),
     ("data", .obj [("candidate_id", .str "n3")])],
   .receive [("type", .str "heartbeat"), ("term", .int 3), ("sender_id", .str "n2")]]

theorem term_grows_and_vote_stays_grantRun :
    ∃ c c', RaftProcess.machine.Leads WellTyped ([], RaftProcess.init "n1" [] 8001) c ∧
      RaftProcess.machine.Leads WellTyped c c' ∧ c.2.node.votedFor = .str "n2" ∧
      c.2.node.currentTerm ≤ c'.2.node.currentTerm ∧ c'.2.node.votedFor = .str "n2" := by
  obtain ⟨c, hc, hp⟩ := Machine.exists_leads_of_exec RaftProcess.machine WellTyped
    ([], RaftProcess.init "n1" [] 8001) grantRun
    (fun c => c.2.node.votedFor.pyEq (.str "n2") &&
      (RaftProcess.machine.exec WellTyped c rivalRun).any
        (fun c' => c'.2.node.currentTerm == c.2.node.currentTerm)) (by decide +kernel)
  rw [Bool.and_eq_true] at hp
  have hvote := pyEq_str_right.mp hp.1
  obtain ⟨c', hc', hterm⟩ := Machine.exists_leads_of_exec RaftProcess.machine WellTyped c
    rivalRun _ hp.2
  obtain ⟨hle, hstays⟩ := term_grows_and_vote_stays hc'
  refine ⟨c, c', hc, hc', hvote, hle, ?_⟩
  rw [hstays (by rw [hvote]; simp) (beq_iff_eq.mp hterm), hvote]

end SyncSystem.Raft
