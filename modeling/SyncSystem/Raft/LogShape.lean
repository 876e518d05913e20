/-
SyncSystem.Raft.LogShape — the entries of a node's log over its life.

`submit_command` appends an entry of the current term and numbers it by
the length of the list; nothing else writes the log, and no action lowers
the term. So the numbers are the positions, the terms go up along the log
and never past the node's own, and a log is a prefix of every later one.
-/
import SyncSystem.Raft.Process

namespace SyncSystem.Raft

open SyncSystem.Python
open SyncSystem.Consensus

/-- The k-th entry has index k, counting from 1, the terms do not go down
along the log, and the last one is at most the node's. -/
structure LogShape (n : RaftNode) : Prop where
  index : ∀ k e, n.log[k]? = some e → e.index = k + 1
  sorted : n.log.Pairwise (fun a b => a.term ≤ b.term)
  last : ∀ e, n.log.getLast? = some e → e.term ≤ n.currentTerm

theorem logShape_init (nodeId : String) (peers : List String) (port : Nat) :
    LogShape (.init nodeId peers port) where
  index := by intro k e h; simp [RaftNode.init] at h
  sorted := .nil
  last := by intro e h; simp [RaftNode.init] at h

/-- The last term bounds all of them. -/
theorem LogShape.term_le {n : RaftNode} (h : LogShape n) {e : LogEntry} (he : e ∈ n.log) :
    e.term ≤ n.currentTerm := by
  have hne : n.log ≠ [] := List.ne_nil_of_mem he
  have hlast := h.last (n.log.getLast hne) (List.getLast?_eq_some_getLast hne)
  have hsplit := List.dropLast_append_getLast hne
  have hsorted := h.sorted
  rw [← hsplit] at he hsorted
  rcases List.mem_append.mp he with he | he
  · exact ((List.pairwise_append.mp hsorted).2.2 e he _ (List.mem_singleton.mpr rfl)).trans hlast
  · rw [List.mem_singleton.mp he]
    exact hlast

/-- The log is the same and the term no lower. -/
theorem LogShape.of_log {n n' : RaftNode} (h : LogShape n) (hlog : n'.log = n.log)
    (hterm : n.currentTerm ≤ n'.currentTerm) : LogShape n' where
  index := by rw [hlog]; exact h.index
  sorted := by rw [hlog]; exact h.sorted
  last := by
    intro e he
    rw [hlog] at he
    exact (h.last e he).trans hterm

/-- One more entry, of the current term. -/
theorem LogShape.append {n : RaftNode} (h : LogShape n) (command : String) (data : Obj) :
    LogShape { n with log := n.log ++ [⟨n.currentTerm, n.log.length + 1, command, data⟩] } where
  index := by
    intro k e he
    rcases Nat.lt_or_ge k n.log.length with hk | hk
    · rw [List.getElem?_append_left hk] at he
      exact h.index k e he
    · rw [List.getElem?_append_right hk, List.getElem?_singleton] at he
      split at he
      · cases he
        show n.log.length + 1 = k + 1
        omega
      · cases he
  sorted := by
    refine List.pairwise_append.mpr ⟨h.sorted, List.pairwise_singleton _ _, ?_⟩
    intro e he e' he'
    rw [List.mem_singleton.mp he']
    exact h.term_le he
  last := by
    intro e he
    rw [List.getLast?_concat] at he
    cases he
    exact le_rfl

/-- Every action keeps the shape. -/
theorem RaftProcess.NodeEffect.logShape {n n' : RaftNode} {a : NodeAction}
    (h : NodeEffect n a n') (hn : LogShape n) : LogShape n' := by
  cases h with
  | elected => exact hn.of_log rfl (Ballot.term_le (ballot_startElection n))
  | received msg r hr => exact hn.of_log hr.log hr.term_le
  | submitted command data =>
    unfold RaftNode.submitCommand
    split
    · exact hn
    · exact hn.append command data
  | same => exact hn

/-! ## Runs -/

theorem logShape_of_leads {nodeId : String} {peers : List String} {port : Nat} {c : NodeConfig}
    (h : RaftProcess.machine.Leads Machine.always ([], RaftProcess.init nodeId peers port) c) :
    LogShape c.2.node := by
  refine h.invariant (I := fun c => LogShape c.2.node) (logShape_init nodeId peers port) ?_
  intro d a p' out _ ih _ hs
  exact (RaftProcess.step_node hs).logShape ih

/-- **The shape of the log.** In every reachable state, and every log is a
prefix of every later one. -/
theorem log_shape {nodeId : String} {peers : List String} {port : Nat} {c c' : NodeConfig}
    (h : RaftProcess.machine.Leads Machine.always ([], RaftProcess.init nodeId peers port) c)
    (h' : RaftProcess.machine.Leads Machine.always c c') :
    LogShape c.2.node ∧ c.2.node.log <+: c'.2.node.log := by
  refine ⟨logShape_of_leads h, ?_⟩
  refine h'.invariant (I := fun c' => c.2.node.log <+: c'.2.node.log) List.prefix_rfl ?_
  intro d a p' out _ ih _ hs
  exact ih.trans (RaftProcess.step_node hs).log_isPrefixOf

/-- `n1` is leader of term 1 and takes a command. -/
def firstTenure : List NodeAction :=
  [.electionTimeout,
   .receive [("type", .str "vote_response"), ("term", .int 1), ("sender_id", .str "n2"),
     ("granted", .bool true)],
   .submit "set" []]

/-- It is deposed, refuses a command, is leader of term 3 and takes two. -/
def secondTenure : List NodeAction :=
  [.receive [("type", .str "heartbeat"), ("term", .int 2), ("sender_id", .str "n2")],
   .submit "set" [], .electionTimeout,
   .receive [("type", .str "vote_response"), ("term", .int 3), ("sender_id", .str "n2"),
     ("granted", .bool true)],
   .submit "set" [], .submit "del" []]

theorem log_shape_secondTenure :
    ∃ c c', RaftProcess.machine.Leads Machine.always
        ([], RaftProcess.init "n1" ["127.0.0.1:8002"] 8001) c ∧
      RaftProcess.machine.Leads Machine.always c c' ∧ LogShape c.2.node ∧
      c'.2.node.log.map LogEntry.term = [1, 3, 3] ∧ c.2.node.log <+: c'.2.node.log := by
  obtain ⟨c, hc, hp⟩ := Machine.exists_leads_of_exec RaftProcess.machine Machine.always
    ([], RaftProcess.init "n1" ["127.0.0.1:8002"] 8001) firstTenure
    (fun (c : NodeConfig) => (RaftProcess.machine.exec Machine.always c secondTenure).any
      (fun (c' : NodeConfig) => decide (c'.2.node.log.map LogEntry.term = [1, 3, 3])))
    (by decide +kernel)
  obtain ⟨c', hc', hterms⟩ := Machine.exists_leads_of_exec RaftProcess.machine Machine.always c
    secondTenure _ hp
  obtain ⟨hshape, hprefix⟩ := log_shape hc hc'
  exact ⟨c, c', hc, hc', hshape, of_decide_eq_true hterms, hprefix⟩

end SyncSystem.Raft
