/-
SyncSystem.Raft.Process — a running node: the state and the send tasks
that have been started and not finished.

Between two suspensions a coroutine runs alone, so the interleavings of a
node are the sequences of its atomic sections: an election, a pass of the
heartbeat loop, one `handle_message`, one `submit_command`, and for every
send task the section from its open connection to the written message.
A task whose connection fails ends without a message.
-/
import SyncSystem.Raft.NodeTheorems
import SyncSystem.Machine.Runs

namespace SyncSystem.Raft

open SyncSystem.Python

/-- A started send task. `born` is the term of the node when it decided
to send; the code does not keep it. -/
structure Pending where
  task : SendTask
  born : Rat

structure RaftProcess where
  node : RaftNode
  pending : List Pending

inductive NodeAction where
  /-- `_election_loop` finds the timeout elapsed and runs `_start_election`. -/
  | electionTimeout
  /-- `_heartbeat_loop` wakes from its sleep. -/
  | heartbeatTick
  | receive (msg : Obj)
  | submit (command : String) (data : Obj)
  /-- The `k`-th pending task gets its connection. -/
  | resume (k : Nat)
  /-- The `k`-th pending task fails to connect. -/
  | abort (k : Nat)

/-- A condition on an action is decidable if it is for each kind of them. -/
@[reducible] def NodeAction.decidable {P : NodeAction → Prop} [Decidable (P .electionTimeout)]
    [Decidable (P .heartbeatTick)] [∀ msg, Decidable (P (.receive msg))]
    [∀ command data, Decidable (P (.submit command data))] [∀ k, Decidable (P (.resume k))]
    [∀ k, Decidable (P (.abort k))] : ∀ a, Decidable (P a)
  | .electionTimeout => inferInstance
  | .heartbeatTick => inferInstance
  | .receive _ => inferInstance
  | .submit _ _ => inferInstance
  | .resume _ => inferInstance
  | .abort _ => inferInstance

namespace RaftProcess

def init (nodeId : String) (peers : List String) (port : Nat) : RaftProcess :=
  ⟨RaftNode.init nodeId peers port, []⟩

/-- Start `tasks`, decided on in term `born`. -/
def spawn (p : RaftProcess) (born : Rat) (tasks : List SendTask) : RaftProcess :=
  { p with pending := p.pending ++ tasks.map (⟨·, born⟩) }

/-- The atomic sections of a node; the output is what it writes to its
connections. -/
def step (p : RaftProcess) : NodeAction → Option (RaftProcess × List Packet)
  | .electionTimeout =>
      let (n, tasks) := p.node.startElection
      some ({ p with node := n }.spawn n.currentTerm tasks, [])
  | .heartbeatTick =>
      if p.node.state = .leader then
        some (p.spawn p.node.currentTerm (p.node.peers.map .heartbeat), [])
      else some (p, [])
  | .receive msg =>
      let r := p.node.handleMessage msg
      some ({ p with node := r.node }.spawn r.node.currentTerm r.spawned, [])
  | .submit command data => some ({ p with node := (p.node.submitCommand command data).1 }, [])
  | .resume k =>
      match p.pending[k]? with
      | none => none
      | some t =>
          let (packets, tasks) := t.task.resume p.node
          some ({ p with pending := p.pending.eraseIdx k }.spawn t.born tasks, packets)
  | .abort k =>
      if k < p.pending.length then some ({ p with pending := p.pending.eraseIdx k }, []) else none

/-- One running node, its messages coming from anywhere. -/
def machine : Machine RaftProcess NodeAction (List Packet) := ⟨step⟩

@[simp] theorem machine_step (p : RaftProcess) (a : NodeAction) : machine.step p a = p.step a := rfl

@[simp] theorem spawn_node (p : RaftProcess) (born : Rat) (tasks : List SendTask) :
    (p.spawn born tasks).node = p.node := rfl

theorem mem_spawn {p : RaftProcess} {born : Rat} {tasks : List SendTask} {t : Pending} :
    t ∈ (p.spawn born tasks).pending ↔ t ∈ p.pending ∨ ∃ k ∈ tasks, t = ⟨k, born⟩ := by
  simp only [spawn, List.mem_append, List.mem_map, eq_comm]

/-- What one step does to the node itself: the send tasks only read it. -/
inductive NodeEffect (n : RaftNode) : NodeAction → RaftNode → Prop where
  | elected : NodeEffect n .electionTimeout n.startElection.1
  | received (msg : Obj) (r : Handled) : MessageEffect n msg r →
      NodeEffect n (.receive msg) r.node
  | submitted (command : String) (data : Obj) :
      NodeEffect n (.submit command data) (n.submitCommand command data).1
  | same (a : NodeAction) : NodeEffect n a n

theorem step_node {p p' : RaftProcess} {a : NodeAction} {out : List Packet}
    (h : p.step a = some (p', out)) : NodeEffect p.node a p'.node := by
  cases a with
  | electionTimeout => cases h; exact .elected
  | heartbeatTick =>
    simp only [step] at h
    split at h <;> (cases h; exact .same _)
  | receive msg => cases h; exact .received msg _ (handleMessage_effect _ _)
  | submit command data => cases h; exact .submitted command data
  | resume k =>
    simp only [step] at h
    split at h
    · cases h
    · cases h; exact .same _
  | abort k =>
    simp only [step] at h
    split at h
    · cases h; exact .same _
    · cases h

/-- No action takes an entry out. -/
theorem NodeEffect.log_isPrefixOf {n n' : RaftNode} {a : NodeAction}
    (h : NodeEffect n a n') : n.log <+: n'.log := by
  cases h with
  | elected => exact List.prefix_rfl
  | received msg r hr => rw [hr.log]
  | submitted command data =>
    unfold RaftNode.submitCommand
    split
    · exact List.prefix_rfl
    · exact List.prefix_append _ _
  | same => exact List.prefix_rfl

/-- Only a resumed task writes to a connection. -/
theorem output_step {p p' : RaftProcess} {a : NodeAction} {out : List Packet} {pkt : Packet}
    (h : p.step a = some (p', out)) (hpkt : pkt ∈ out) :
    ∃ k t, a = .resume k ∧ p.pending[k]? = some t ∧ pkt ∈ (t.task.resume p.node).1 := by
  cases a with
  | electionTimeout => cases h; cases hpkt
  | heartbeatTick =>
    simp only [step] at h
    split at h <;> (cases h; cases hpkt)
  | receive msg => cases h; cases hpkt
  | submit command data => cases h; cases hpkt
  | resume k =>
    simp only [step] at h
    split at h
    · cases h
    · next t ht => cases h; exact ⟨k, t, rfl, ht, hpkt⟩
  | abort k =>
    simp only [step] at h
    split at h
    · cases h; cases hpkt
    · cases h

/-- The tasks a step can start, with the term of the decision. -/
inductive Started (p : RaftProcess) : NodeAction → Pending → Prop where
  | elected (peer : String) : Started p .electionTimeout
      ⟨.requestVote peer p.node.lastIdx p.node.lastTerm, p.node.currentTerm + 1⟩
  | ticked (peer : String) : p.node.state = .leader →
      Started p .heartbeatTick ⟨.heartbeat peer, p.node.currentTerm⟩
  | answered (msg : Obj) (k : SendTask) : k ∈ (p.node.handleMessage msg).spawned →
      Started p (.receive msg) ⟨k, (p.node.handleMessage msg).node.currentTerm⟩
  | fanned (k : Nat) (peer : String) (born : Rat) :
      p.pending[k]? = some ⟨.heartbeats, born⟩ → Started p (.resume k) ⟨.heartbeat peer, born⟩

/-- A task that is pending after a step was pending before or has been
started by the step. -/
theorem pending_step {p p' : RaftProcess} {a : NodeAction} {out : List Packet} {t : Pending}
    (h : p.step a = some (p', out)) (ht : t ∈ p'.pending) : t ∈ p.pending ∨ Started p a t := by
  cases a with
  | electionTimeout =>
    cases h
    refine (mem_spawn.mp ht).imp_right ?_
    rintro ⟨k, hk, rfl⟩
    obtain ⟨peer, _, rfl⟩ := List.mem_map.mp hk
    exact .elected peer
  | heartbeatTick =>
    simp only [step] at h
    split at h
    · next hl =>
      cases h
      refine (mem_spawn.mp ht).imp_right ?_
      rintro ⟨k, hk, rfl⟩
      obtain ⟨peer, _, rfl⟩ := List.mem_map.mp hk
      exact .ticked peer hl
    · cases h; exact Or.inl ht
  | receive msg =>
    cases h
    refine (mem_spawn.mp ht).imp_right ?_
    rintro ⟨k, hk, rfl⟩
    exact .answered msg k hk
  | submit command data => cases h; exact Or.inl ht
  | resume k =>
    simp only [step] at h
    split at h
    · cases h
    · next t₀ ht₀ =>
      cases h
      refine (mem_spawn.mp ht).imp List.mem_of_mem_eraseIdx ?_
      rintro ⟨k', hk', rfl⟩
      obtain ⟨task, born⟩ := t₀
      cases task with
      | heartbeats =>
        obtain ⟨peer, _, rfl⟩ := List.mem_map.mp hk'
        exact .fanned k peer born ht₀
      | _ => cases hk'
  | abort k =>
    simp only [step] at h
    split at h
    · cases h; exact Or.inl (List.mem_of_mem_eraseIdx ht)
    · cases h

end RaftProcess

abbrev NodeConfig := Config RaftProcess NodeAction (List Packet)

end SyncSystem.Raft
