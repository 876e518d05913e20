/-
SyncSystem.Raft.LeaderNames — whom a node names as leader.

`get_leader_id` is the node itself while it is leader and `leader_id`
otherwise. The winner check writes both fields together and a heartbeat
replaces both, but the first lines of `handle_message` only make the node
a follower. So a leader that hears of a higher term in any message but a
heartbeat goes on naming itself (`deposed_names_itself`), and that is the
only way to it (`leader_named_iff`).
-/
import SyncSystem.Raft.StaleMessages

namespace SyncSystem.Raft

open SyncSystem.Python

/-- The id `_handle_heartbeat` takes for the leader's. -/
def senderId (msg : Obj) : Json := Obj.get msg "sender_id" (Obj.get msg "sender" (.str ""))

/-- `_election_loop` looks for another role than leader before it starts
an election; a message is from another node. -/
abbrev FromOthers (c : NodeConfig) : NodeAction → Prop
  | .electionTimeout => c.2.node.state ≠ .leader
  | .receive msg => (senderId msg).pyEq (.str c.2.node.nodeId) = false
  | _ => True

instance (c : NodeConfig) (a : NodeAction) : Decidable (FromOthers c a) :=
  NodeAction.decidable a

/-- `msg_type == 'heartbeat' or msg_type == 'append_entries'`. -/
def isHeartbeat (msg : Obj) : Bool :=
  (Obj.get msg "type" (.str "")).pyEq (.str "heartbeat") ||
    (Obj.get msg "type" (.str "")).pyEq (.str "append_entries")

namespace RaftNode

/-- The message's term is a number and higher than the node's. -/
def higherTerm (n : RaftNode) (msg : Obj) : Bool :=
  (Obj.get msg "term" (.int 0)).num?.any (fun t => decide (n.currentTerm < t))

/-- A leader hears of a higher term in a message that is not a heartbeat. -/
def deposedBy (n : RaftNode) : NodeAction → Bool
  | .receive msg => n.state == .leader && n.higherTerm msg && !isHeartbeat msg
  | _ => false

/-- A node that names itself is leader. -/
def NamesLeader (n : RaftNode) : Prop :=
  n.getLeaderId = .str n.nodeId → n.state = .leader

end RaftNode

/-! ## The two fields -/

/-- `leader_id` is the node's own id exactly while it is leader. -/
def InStep (n : RaftNode) : Prop := n.leaderId = .str n.nodeId ↔ n.state = .leader

theorem inStep_init (nodeId : String) (peers : List String) (port : Nat) :
    InStep (.init nodeId peers port) := by
  constructor
  · intro h; cases h
  · intro h; cases h

theorem InStep.namesLeader {n : RaftNode} (h : InStep n) : n.NamesLeader := by
  intro hself
  unfold RaftNode.getLeaderId at hself
  split at hself
  · next hl => exact hl
  · exact h.mp hself

/-- The node is no leader now and has `leader_id` as before. -/
theorem InStep.of_not_leader {n n' : RaftNode} (h : InStep n) (hn : n.state ≠ .leader)
    (hn' : n'.state ≠ .leader) (hleader : n'.leaderId = n.leaderId)
    (hid : n'.nodeId = n.nodeId) : InStep n' := by
  refine iff_of_false ?_ hn'
  rw [hleader, hid]
  exact fun heq => hn (h.mp heq)

theorem InStep.congr {n n' : RaftNode} (h : InStep n) (hstate : n'.state = n.state)
    (hleader : n'.leaderId = n.leaderId) (hid : n'.nodeId = n.nodeId) : InStep n' := by
  unfold InStep
  rw [hleader, hid, hstate]
  exact h

/-- The term is adopted by a node that is no leader, or is not higher. -/
theorem InStep.adoptTerm {n : RaftNode} (h : InStep n) {t : Rat}
    (ht : n.state = .leader → t ≤ n.currentTerm) : InStep (n.adoptTerm t) := by
  by_cases hn : n.state = .leader
  · rw [adoptTerm_of_le (ht hn)]
    exact h
  · unfold RaftNode.adoptTerm
    split
    · exact h.of_not_leader hn (by simp) rfl rfl
    · exact h

theorem InStep.withVote {n : RaftNode} (h : InStep n) (msg : Obj) : InStep (n.withVote msg) := by
  unfold RaftNode.withVote
  split
  · exact h.congr rfl rfl rfl
  · exact h

theorem InStep.checkElectionWinner {n : RaftNode} (h : InStep n) :
    InStep n.checkElectionWinner.1 := by
  unfold RaftNode.checkElectionWinner
  split
  · exact h
  · split
    · exact iff_of_true rfl rfl
    · exact h

/-- A heartbeat of another node replaces both fields. -/
theorem inStep_handleHeartbeat {n : RaftNode} {msg : Obj}
    (h : (senderId msg).pyEq (.str n.nodeId) = false) : InStep (n.handleHeartbeat msg) := by
  refine iff_of_false ?_ (by simp [RaftNode.handleHeartbeat])
  intro heq
  have hself : (senderId msg).pyEq (.str n.nodeId) = true := pyEq_str_right.mpr heq
  rw [h] at hself
  cases hself

theorem isHeartbeat_iff {msg : Obj} : isHeartbeat msg = true ↔
    Obj.get msg "type" (.str "") = .str "heartbeat" ∨
      Obj.get msg "type" (.str "") = .str "append_entries" := by
  rw [isHeartbeat, Bool.or_eq_true, pyEq_str_right, pyEq_str_right]

theorem handleMessage_heartbeat {n : RaftNode} {msg : Obj} {t : Rat} (ht : msgTerm msg = .ok t)
    (h : isHeartbeat msg = true) :
    (n.handleMessage msg).node = (n.adoptTerm t).handleHeartbeat msg := by
  rw [handleMessage_node ht]
  have hty := isHeartbeat_iff.mp h
  rcases dispatch_cases (n.adoptTerm t) msg with ⟨hd, _⟩ | ⟨hd, _⟩ | ⟨_, hd⟩ | ⟨hd, _⟩
  · simp [hd] at hty
  · simp [hd] at hty
  · rw [hd]
    rfl
  · exact absurd hty (not_or.mpr ⟨hd _ (by simp), hd _ (by simp)⟩)

/-- The node leaves a part of `handle_message` with the fields that
`get_leader_id` reads as they were. -/
def SameNames (n n' : RaftNode) : Prop :=
  n'.state = n.state ∧ n'.leaderId = n.leaderId ∧ n'.nodeId = n.nodeId

/-- Of the other handlers only the winner check writes these fields. -/
theorem handleMessage_other {n : RaftNode} {msg : Obj} {t : Rat} (ht : msgTerm msg = .ok t)
    (h : isHeartbeat msg = false) :
    (n.handleMessage msg).node = ((n.adoptTerm t).withVote msg).checkElectionWinner.1 ∨
      SameNames (n.adoptTerm t) (n.handleMessage msg).node := by
  rw [handleMessage_node ht]
  rcases dispatch_cases (n.adoptTerm t) msg with ⟨_, hd⟩ | ⟨_, hd⟩ | ⟨hty, _⟩ | ⟨_, hd⟩
  · -- request_vote
    rw [hd]
    right
    cases hv : (n.adoptTerm t).handleVoteRequest msg with
    | error e => exact ⟨rfl, rfl, rfl⟩
    | ok r =>
      obtain ⟨n', tasks⟩ := r
      rcases handleVoteRequest_cases hv with ⟨rfl, _⟩ | ⟨c, t', _, _, _, _, rfl, _⟩
      · exact ⟨rfl, rfl, rfl⟩
      · exact ⟨rfl, rfl, rfl⟩
  · rw [hd]
    exact Or.inl rfl
  · rw [isHeartbeat_iff.mpr hty] at h
    cases h
  · rw [hd]
    exact Or.inr ⟨rfl, rfl, rfl⟩

/-! ## Steps -/

theorem higherTerm_eq {n : RaftNode} {msg : Obj} {t : Rat} (ht : msgTerm msg = .ok t) :
    n.higherTerm msg = decide (n.currentTerm < t) := by
  simp [RaftNode.higherTerm, num_eq_ok ht]

theorem InStep.handleMessage {n : RaftNode} {msg : Obj} (h : InStep n)
    (hother : (senderId msg).pyEq (.str n.nodeId) = false)
    (hkeep : n.deposedBy (.receive msg) = false) : InStep (n.handleMessage msg).node := by
  cases ht : msgTerm msg with
  | error e =>
    rw [msgTerm] at ht
    simp only [RaftNode.handleMessage, ht]
    exact h
  | ok t =>
    cases hbeat : isHeartbeat msg with
    | true =>
      rw [handleMessage_heartbeat ht hbeat]
      refine inStep_handleHeartbeat ?_
      rwa [(sameIdentity_adoptTerm n t).1]
    | false =>
      have hadopt : InStep (n.adoptTerm t) := by
        refine h.adoptTerm fun hl => ?_
        simpa [RaftNode.deposedBy, hl, hbeat, higherTerm_eq ht] using hkeep
      rcases handleMessage_other ht hbeat with heq | ⟨hstate, hleader, hid⟩
      · rw [heq]
        exact (hadopt.withVote msg).checkElectionWinner
      · exact hadopt.congr hstate hleader hid

/-- The other actions: an election starts in another role than leader. -/
theorem RaftProcess.NodeEffect.inStep {n n' : RaftNode} {a : NodeAction} (h : NodeEffect n a n')
    (hn : InStep n) (hmsg : ∀ msg, a ≠ .receive msg)
    (helect : a = .electionTimeout → n.state ≠ .leader) : InStep n' := by
  cases h with
  | elected => exact hn.of_not_leader (helect rfl) (by simp [RaftNode.startElection]) rfl rfl
  | received msg r hr => exact absurd rfl (hmsg msg)
  | submitted command data =>
    unfold RaftNode.submitCommand
    split
    · exact hn
    · exact hn.congr rfl rfl rfl
  | same => exact hn

/-- The two fields stay in step unless the step deposes the leader. -/
theorem inStep_step {c : NodeConfig} {a : NodeAction} {p' : RaftProcess} {out : List Packet}
    (h : InStep c.2.node) (hok : FromOthers c a) (hkeep : c.2.node.deposedBy a = false)
    (hs : c.2.step a = some (p', out)) : InStep p'.node := by
  by_cases hmsg : ∃ msg, a = .receive msg
  · obtain ⟨msg, rfl⟩ := hmsg
    cases hs
    exact h.handleMessage hok hkeep
  · refine (RaftProcess.step_node hs).inStep h (fun msg heq => hmsg ⟨msg, heq⟩) ?_
    rintro rfl
    exact hok

theorem sameNames_of_follower {n : RaftNode} (h : n.state = .follower) (msg : Obj) :
    SameNames n (n.withVote msg).checkElectionWinner.1 := by
  have hvote : SameNames n (n.withVote msg) := by
    unfold RaftNode.withVote
    split <;> exact ⟨rfl, rfl, rfl⟩
  have hcheck : (n.withVote msg).checkElectionWinner.1 = n.withVote msg := by
    simp [RaftNode.checkElectionWinner, hvote.1, h]
  rw [hcheck]
  exact hvote

/-- A leader that is deposed by anything but a heartbeat has still its own
id in `leader_id`. -/
theorem deposed_names_itself {n : RaftNode} {a : NodeAction} (h : InStep n)
    (hdeposed : n.deposedBy a = true) :
    ∃ msg, a = .receive msg ∧ ¬ (n.handleMessage msg).node.NamesLeader := by
  cases a with
  | receive msg =>
    simp only [RaftNode.deposedBy, Bool.and_eq_true, beq_iff_eq, Bool.not_eq_true'] at hdeposed
    obtain ⟨⟨hleader, hterm⟩, hbeat⟩ := hdeposed
    refine ⟨msg, rfl, ?_⟩
    obtain ⟨t, hnum, hlt⟩ := Option.any_eq_true _ _ |>.mp hterm
    have ht : msgTerm msg = .ok t := num_of_num? hnum
    have hadopt : n.adoptTerm t =
        { n with currentTerm := t, state := .follower, votedFor := .null } :=
      if_pos (of_decide_eq_true hlt)
    have hsame : SameNames (n.adoptTerm t) (n.handleMessage msg).node := by
      rcases handleMessage_other ht hbeat with heq | hsame
      · rw [heq]
        exact sameNames_of_follower (by rw [hadopt]) msg
      · exact hsame
    obtain ⟨hstate, hid, hnode⟩ := hsame
    rw [hadopt] at hstate hid hnode
    intro hnames
    have hself : (n.handleMessage msg).node.getLeaderId = .str (n.handleMessage msg).node.nodeId := by
      simp only [RaftNode.getLeaderId, hstate, reduceCtorEq, if_false, hid, hnode]
      exact h.mpr hleader
    have hl := hnames hself
    rw [hstate] at hl
    cases hl
  | _ => cases hdeposed

/-! ## Runs -/

theorem inStep_of_leads {nodeId : String} {peers : List String} {port : Nat} {c : NodeConfig}
    (h : RaftProcess.machine.Leads
      (fun d a => FromOthers d a ∧ d.2.node.deposedBy a = false)
      ([], RaftProcess.init nodeId peers port) c) : InStep c.2.node := by
  refine h.invariant (I := fun c => InStep c.2.node) (inStep_init nodeId peers port) ?_
  intro d a p' out _ ih hok hs
  exact inStep_step ih hok.1 hok.2 hs

/-- **A node names itself leader only while it is leader**, in every state
of a run, exactly when it does not hear of a higher term as leader in a
message that is not a heartbeat. -/
theorem leader_named_iff {nodeId : String} {peers : List String} {port : Nat} {c : NodeConfig}
    (h : RaftProcess.machine.Leads FromOthers ([], RaftProcess.init nodeId peers port) c) :
    (∀ p ∈ c.visited, p.node.NamesLeader) ↔
      EveryStep (fun before a _ => before.2.node.deposedBy a = false) c.1 := by
  rw [← throughout_state]
  refine h.throughout_iff_under (fun c hc => (inStep_of_leads hc).namesLeader) ?_
  intro d a p' out hd _ hkeep hs hnames
  obtain ⟨msg, rfl, hself⟩ := deposed_names_itself (inStep_of_leads hd) (by simpa using hkeep)
  cases hs
  exact hself hnames

/-- `n1` is leader of term 1 and hears of term 2 from a leader, then of
term 3 from a candidate. -/
def handoverRun : List NodeAction :=
  [.electionTimeout,
   .receive [("type", .str "vote_response"), ("term", .int 1), ("sender_id", .str "n2"),
     ("granted", .bool true)],
   .receive [("type", .str "heartbeat"), ("term", .int 2), ("sender_id", .str "n2")],
   .receive [("type", .str "request_vote"), ("term", .int 3), ("sender_id", .str "n3")]]

theorem leader_named_iff_handoverRun :
    ∃ c, RaftProcess.machine.Leads FromOthers
        ([], RaftProcess.init "n1" ["127.0.0.1:8002"] 8001) c ∧
      c.2.node.currentTerm = 3 ∧ (∃ p ∈ c.visited, p.node.state = .leader) ∧
      ∀ p ∈ c.visited, p.node.NamesLeader := by
  obtain ⟨c, hc, hp⟩ := Machine.exists_leads_of_exec RaftProcess.machine FromOthers
    ([], RaftProcess.init "n1" ["127.0.0.1:8002"] 8001) handoverRun
    (fun (c : NodeConfig) => decide (c.2.node.currentTerm = 3 ∧
      (∃ p ∈ c.visited, p.node.state = .leader) ∧
      EveryStep (fun (before : NodeConfig) a _ => before.2.node.deposedBy a = false) c.1))
    (by decide +kernel)
  obtain ⟨hterm, hleader, hkeep⟩ := of_decide_eq_true hp
  exact ⟨c, hc, hterm, hleader, (leader_named_iff hc).mpr hkeep⟩

/-- `n1` is leader of term 1 and `n2` is a candidate of term 2. -/
def challengeRun : List NodeAction :=
  [.electionTimeout,
   .receive [("type", .str "vote_response"), ("term", .int 1), ("sender_id", .str "n2"),
     ("granted", .bool true)],
   .receive [("type", .str "request_vote"), ("term", .int 2), ("sender", .str "127.0.0.1:8002"),
     ("sender_id", .str "n2"), ("data", .obj [("candidate_id", .str "n2")])]]

/-- It has voted for `n2` and names itself. -/
theorem follower_names_itself :
    ∃ c, RaftProcess.machine.Leads FromOthers
        ([], RaftProcess.init "n1" ["127.0.0.1:8002"] 8001) c ∧
      c.2.node.votedFor = .str "n2" ∧ c.2.node.getLeaderId = .str c.2.node.nodeId ∧
      c.2.node.state = .follower := by
  obtain ⟨c, hc, hp⟩ := Machine.exists_leads_of_exec RaftProcess.machine FromOthers
    ([], RaftProcess.init "n1" ["127.0.0.1:8002"] 8001) challengeRun
    (fun (c : NodeConfig) => c.2.node.votedFor.pyEq (.str "n2") &&
      (c.2.node.getLeaderId.pyEq (.str c.2.node.nodeId) &&
        decide (c.2.node.state = .follower))) (by decide +kernel)
  rw [Bool.and_eq_true, Bool.and_eq_true, pyEq_str_right, pyEq_str_right] at hp
  exact ⟨c, hc, hp.1, hp.2.1, of_decide_eq_true hp.2.2⟩

end SyncSystem.Raft
