/-
SyncSystem.Raft.LogMatching — whose entries a term has.

Only a leader appends to its log, in its own term, and no message ever
carries an entry. So every entry is from a term its node has led
(`entriesLed_of_leads`), in any run. Where a term has one leader, which
is where candidates count only votes of their present term, a term's
entries are all in one log, and two logs of the run that have an entry of
one term at one index agree up to there (`log_matching`).
-/
import SyncSystem.Raft.ElectionSafety

namespace SyncSystem.Raft

open SyncSystem.Python
open SyncSystem.Consensus

variable {N : Nat} {C : ClusterConfig N} {c : ClusterRun N}

/-- Node `i` has been leader in term `T`. -/
def HasLed (c : ClusterRun N) (i : Fin N) (T : Rat) : Prop :=
  ∃ s ∈ c.visited, (s.procs i).node.state = .leader ∧ (s.procs i).node.currentTerm = T

theorem HasLed.push {i : Fin N} {T : Rat} (h : HasLed c i T) (a : ClusterAction N)
    (s' : Cluster N) (u : Unit) : HasLed (c.push a s' u) i T := by
  obtain ⟨s, hs, hled⟩ := h
  exact ⟨s, by rw [Config.visited_push]; exact List.mem_append_left _ hs, hled⟩

/-- Every entry of a log is from a term that the log's node has led. -/
def EntriesLed (c : ClusterRun N) : Prop :=
  ∀ i, ∀ e ∈ (c.2.procs i).node.log, HasLed c i e.term

/-- An entry of the log afterwards was there before, or is of the present
term of a leader. -/
theorem RaftProcess.NodeEffect.mem_log {n n' : RaftNode} {a : NodeAction}
    (h : NodeEffect n a n') {e : LogEntry} (he : e ∈ n'.log) :
    e ∈ n.log ∨ n.state = .leader ∧ e.term = n.currentTerm := by
  cases h with
  | elected => exact Or.inl he
  | received msg r hr =>
    rw [hr.log] at he
    exact Or.inl he
  | submitted command data =>
    unfold RaftNode.submitCommand at he
    split at he
    · exact Or.inl he
    · next hleader =>
      rcases List.mem_append.mp he with he | he
      · exact Or.inl he
      · rw [List.mem_singleton.mp he]
        exact Or.inr ⟨not_not.mp hleader, rfl⟩
  | same => exact Or.inl he

/-- One node moves, and its log with it. -/
theorem log_step {s s' : Cluster N} {a : ClusterAction N} {u : Unit}
    (h : (Cluster.machine N).step s a = some (s', u)) (j : Fin N) :
    (s.procs j).node.log <+: (s'.procs j).node.log ∧
      ∀ e ∈ (s'.procs j).node.log, e ∈ (s.procs j).node.log ∨
        (s.procs j).node.state = .leader ∧ e.term = (s.procs j).node.currentTerm := by
  obtain ⟨i, b, p, out, _, hstep, rfl⟩ := Cluster.step_cases h
  have heffect := RaftProcess.step_node hstep
  rcases eq_or_ne j i with rfl | hj
  · simp only [Function.update_self]
    exact ⟨heffect.log_isPrefixOf, fun e he => heffect.mem_log he⟩
  · simp only [Function.update_of_ne hj]
    exact ⟨List.prefix_rfl, fun e he => Or.inl he⟩

theorem entriesLed_of_leads {ok : ClusterRun N → ClusterAction N → Prop}
    (h : (Cluster.machine N).Leads ok ([], Cluster.init C) c) : EntriesLed c := by
  refine h.invariant (I := EntriesLed) (by intro i e he; cases he) ?_
  intro d a s' u _ ih _ hs i e he
  rcases (log_step hs i).2 e he with hold | ⟨hleader, hterm⟩
  · exact (ih i e hold).push a s' u
  · have hled : HasLed d i e.term := ⟨d.2, d.current_mem_visited, hleader, hterm.symm⟩
    exact hled.push a s' u

/-- A log that has been is the beginning of the log that is. -/
theorem log_visited_prefix {ok : ClusterRun N → ClusterAction N → Prop}
    (h : (Cluster.machine N).Leads ok ([], Cluster.init C) c) :
    ∀ s ∈ c.visited, ∀ i, (s.procs i).node.log <+: (c.2.procs i).node.log := by
  refine h.invariant (I := fun c => ∀ s ∈ c.visited, ∀ i,
    (s.procs i).node.log <+: (c.2.procs i).node.log) ?_ ?_
  · intro s hs i
    rw [List.mem_singleton.mp hs]
  · intro d a s' u _ ih _ hstep s hs i
    rw [Config.visited_push] at hs
    rcases List.mem_append.mp hs with hs | hs
    · exact (ih s hs i).trans (log_step hstep i).1
    · rw [List.mem_singleton.mp hs]
      exact List.prefix_rfl

/-- A term has one leader, if votes are counted in their term only. -/
theorem hasLed_unique (h : (Cluster.machine N).Leads CountsCurrentVotes ([], Cluster.init C) c)
    {i j : Fin N} {T : Rat} (hi : HasLed c i T) (hj : HasLed c j T) : i = j := by
  obtain ⟨s, hs, hleader, hterm⟩ := hi
  obtain ⟨t, ht, hleader', hterm'⟩ := hj
  have hinv := voteInv_of_leads h
  obtain ⟨S, hS, hvS⟩ := hinv.leader s hs i hleader
  obtain ⟨S', hS', hvS'⟩ := hinv.leader t ht j hleader'
  rw [hterm] at hvS
  rw [hterm'] at hvS'
  exact C.nodeId_injective (winner_unique (hasVoted_unique h) hS hS' hvS hvS')

theorem take_eq_take {α : Type} {l l' : List α} (h : l <+: l') {k : Nat} {a : α}
    (hk : l[k]? = some a) : l.take (k + 1) = l'.take (k + 1) := by
  obtain ⟨hlt, _⟩ := List.getElem?_eq_some_iff.mp hk
  rw [List.prefix_iff_eq_take.mp h, List.take_take, Nat.min_eq_left (by omega)]

/-- **Log matching.** In a run whose candidates count only votes of their
present term, logs of any two moments that have an entry of one term at
one index are logs of one node, and the same up to that index. -/
theorem log_matching (h : (Cluster.machine N).Leads CountsCurrentVotes ([], Cluster.init C) c)
    {s t : Cluster N} (hs : s ∈ c.visited) (ht : t ∈ c.visited) {i j : Fin N} {k : Nat}
    {e e' : LogEntry} (he : (s.procs i).node.log[k]? = some e)
    (he' : (t.procs j).node.log[k]? = some e') (hterm : e.term = e'.term) :
    i = j ∧ (s.procs i).node.log.take (k + 1) = (t.procs j).node.log.take (k + 1) := by
  have hprefix := log_visited_prefix h s hs i
  have hprefix' := log_visited_prefix h t ht j
  have hmem := List.IsPrefix.subset hprefix (List.mem_of_getElem? he)
  have hmem' := List.IsPrefix.subset hprefix' (List.mem_of_getElem? he')
  have hled := entriesLed_of_leads h i e hmem
  have hled' := entriesLed_of_leads h j e' hmem'
  rw [← hterm] at hled'
  obtain rfl := hasLed_unique h hled hled'
  exact ⟨rfl, (take_eq_take hprefix he).trans (take_eq_take hprefix' he').symm⟩

/-- `node_1` is elected in term 1, and a node takes two commands. -/
def commandRun (leader : Fin 3) : List (ClusterAction 3) :=
  electionRun ++ [.act leader (.submit "set" []), .act leader (.submit "del" [])]

theorem log_matching_commandRun :
    ∃ c, (Cluster.machine 3).Leads CountsCurrentVotes ([], Cluster.init threeNodes) c ∧
      (c.2.procs 0).node.log.length = 2 ∧
      ∀ t ∈ c.visited, ∀ j e, (t.procs j).node.log[0]? = some e → e.term = 1 →
        0 = j ∧ (c.2.procs 0).node.log.take 1 = (t.procs j).node.log.take 1 := by
  obtain ⟨c, hc, hp⟩ := Machine.exists_leads_of_exec (Cluster.machine 3) CountsCurrentVotes
    ([], Cluster.init threeNodes) (commandRun 0)
    (fun c => decide ((c.2.procs 0).node.log.length = 2 ∧
      ((c.2.procs 0).node.log[0]?).map LogEntry.term = some 1)) (by decide +kernel)
  obtain ⟨hlength, hfirst⟩ := of_decide_eq_true hp
  obtain ⟨first, hget, hterm⟩ := Option.map_eq_some_iff.mp hfirst
  exact ⟨c, hc, hlength, fun t ht j e he hone =>
    log_matching hc c.current_mem_visited ht hget he (hterm.trans hone.symm)⟩

end SyncSystem.Raft
