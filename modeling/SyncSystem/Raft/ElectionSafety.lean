/-
SyncSystem.Raft.ElectionSafety — at most one leader per term, and where
the code breaks it.

A voter's ballot never goes down, so it votes once per term, and two
majorities share a voter. That gives election safety as long as the
votes a candidate counts are votes of its current term.
`_handle_vote_response` does not look: it counts a grant in whatever term
the candidate has by then. `CountsCurrentVotes` is the missing check,
`electionSafety` is what holds under it, and `two_leaders` is a
three-node run with two leaders of term 2 after a grant of term 1 has
arrived late.

"Has voted" and "has been leader" are about the whole run: they are read
off the states the run has visited.
-/
import SyncSystem.Raft.Cluster

namespace SyncSystem.Raft

open SyncSystem.Python
open SyncSystem.Consensus

variable {N : Nat}

/-- Node `j` has at some time had `candidate` as its vote in term `T`. -/
def HasVoted (c : ClusterRun N) (j : Fin N) (candidate : String) (T : Rat) : Prop :=
  ∃ s ∈ c.visited, (s.procs j).node.votedFor.pyEq (.str candidate) = true ∧
    (s.procs j).node.currentTerm = T

instance (c : ClusterRun N) (j : Fin N) (candidate : String) (T : Rat) :
    Decidable (HasVoted c j candidate T) :=
  inferInstanceAs (Decidable (∃ s ∈ c.visited,
    (s.procs j).node.votedFor.pyEq (.str candidate) = true ∧ (s.procs j).node.currentTerm = T))

/-- The sender of a counted vote has voted for this candidate in the
candidate's present term. -/
def CurrentVote (c : ClusterRun N) (i : Fin N) (msg : Obj) : Prop :=
  ∃ j, (Obj.get msg "sender_id" (.str "")).pyEq (.str (c.2.procs j).node.nodeId) = true ∧
    HasVoted c j (c.2.procs i).node.nodeId (c.2.procs i).node.currentTerm

instance (c : ClusterRun N) (i : Fin N) (msg : Obj) : Decidable (CurrentVote c i msg) :=
  inferInstanceAs (Decidable (∃ j : Fin N,
    (Obj.get msg "sender_id" (.str "")).pyEq (.str (c.2.procs j).node.nodeId) = true ∧
      HasVoted c j (c.2.procs i).node.nodeId (c.2.procs i).node.currentTerm))

/-- A candidate counts only votes that were given to it in its present
term. -/
def CountsCurrentVotes (c : ClusterRun N) : ClusterAction N → Prop
  | .deliver i k => ∀ pkt, c.2.net[k]? = some pkt →
      (c.2.procs i).node.countsVote pkt.msg = true → CurrentVote c i pkt.msg
  | .act _ _ => True

instance (c : ClusterRun N) (a : ClusterAction N) : Decidable (CountsCurrentVotes c a) :=
  match a with
  | .act _ _ => isTrue trivial
  | .deliver i k =>
      match h : c.2.net[k]? with
      | none => isTrue (by intro pkt hp; rw [h] at hp; cases hp)
      | some pkt =>
          decidable_of_iff ((c.2.procs i).node.countsVote pkt.msg = true → CurrentVote c i pkt.msg)
            ⟨fun hc pkt' hp => by rw [h] at hp; cases hp; exact hc, fun hc => hc pkt h⟩

/-! ## Votes are unique -/

theorem HasVoted.push {c : ClusterRun N} {j : Fin N} {candidate : String} {T : Rat}
    (h : HasVoted c j candidate T) (a : ClusterAction N) (s' : Cluster N) (u : Unit) :
    HasVoted (c.push a s' u) j candidate T := by
  obtain ⟨s, hs, hv⟩ := h
  exact ⟨s, by rw [Config.visited_push]; exact List.mem_append_left _ hs, hv⟩

theorem hasVoted_unique {ok : ClusterRun N → ClusterAction N → Prop} {C : ClusterConfig N}
    {c : ClusterRun N} (h : (Cluster.machine N).Leads ok ([], Cluster.init C) c) {T : Rat}
    (j : Fin N) (v w : String) (hv : HasVoted c j v T) (hw : HasVoted c j w T) : v = w := by
  obtain ⟨s, hs, hvote, hterm⟩ := hv
  obtain ⟨t, ht, hvote', hterm'⟩ := hw
  have hord := h.visited_ordered (fun s => (s.procs j).node.ballot)
    (fun c a s' b hreach _ hstep => ballot_cluster_step (wellFormed_of_leads hreach) hstep j)
    s hs t ht
  exact vote_unique_of_ordered hord (hterm.trans hterm'.symm) (pyEq_str_right.mp hvote)
    (pyEq_str_right.mp hvote')

/-! ## The invariant of a run that counts current votes -/

/-- The votes received are different, and each was given to `candidate`
in the term of the node. -/
def Backed (C : ClusterConfig N) (c : ClusterRun N) (candidate : String) (n : RaftNode) : Prop :=
  n.votesReceived.Nodup ∧ ∀ v ∈ n.votesReceived, ∃ j, v = .str (C.nodeId j) ∧
    HasVoted c j candidate n.currentTerm

/-- A majority of the nodes has voted for `candidate` in term `T`. -/
def Elected (c : ClusterRun N) (candidate : String) (T : Rat) : Prop :=
  ∃ S : Finset (Fin N), Fintype.card (Fin N) / 2 + 1 ≤ S.card ∧ ∀ j ∈ S, HasVoted c j candidate T

theorem Elected.push {c : ClusterRun N} {candidate : String} {T : Rat}
    (h : Elected c candidate T) (a : ClusterAction N) (s' : Cluster N) (u : Unit) :
    Elected (c.push a s' u) candidate T := by
  obtain ⟨S, hS, hv⟩ := h
  exact ⟨S, hS, fun j hj => (hv j hj).push a s' u⟩

theorem Backed.push {C : ClusterConfig N} {c : ClusterRun N} {candidate : String} {n : RaftNode}
    (h : Backed C c candidate n) (a : ClusterAction N) (s' : Cluster N) (u : Unit) :
    Backed C (c.push a s' u) candidate n := by
  refine ⟨h.1, ?_⟩
  intro v hv
  obtain ⟨j, hj, hvoted⟩ := h.2 v hv
  exact ⟨j, hj, hvoted.push a s' u⟩

/-- Enough backed votes are an election. -/
theorem Backed.elected {C : ClusterConfig N} {c : ClusterRun N} {candidate : String}
    {n : RaftNode} (h : Backed C c candidate n) {i : Fin N} (hpeers : n.peers = C.peers i)
    (hmaj : n.majority ≤ n.votesReceived.length) : Elected c candidate n.currentTerm := by
  obtain ⟨S, hS, hv⟩ := exists_voters (f := fun j => Json.str (C.nodeId j))
    (P := fun j => HasVoted c j candidate n.currentTerm) h.1 h.2
  refine ⟨S, ?_, hv⟩
  have hN := peers_length (C := C) i
  rw [RaftNode.majority, hpeers, hN] at hmaj
  rw [Fintype.card_fin]
  exact hmaj.trans hS

structure VoteInv (C : ClusterConfig N) (c : ClusterRun N) : Prop where
  candidate : ∀ i, (c.2.procs i).node.state = .candidate →
    Backed C c (C.nodeId i) (c.2.procs i).node
  /-- Whoever has been leader has been elected. -/
  leader : ∀ s ∈ c.visited, ∀ i, (s.procs i).node.state = .leader →
    Elected c (C.nodeId i) (s.procs i).node.currentTerm

theorem voteInv_init (C : ClusterConfig N) : VoteInv C ([], Cluster.init C) where
  candidate := by intro i h; cases h
  leader := by
    intro s hs i h
    rw [List.mem_singleton.mp hs] at h
    cases h

/-- A vote that is new and current keeps the votes backed. -/
theorem backed_tally {C : ClusterConfig N} {c : ClusterRun N} {i : Fin N} {n' : RaftNode}
    {msg : Obj} (hw : WellFormed C c.2) (hb : Backed C c (C.nodeId i) (c.2.procs i).node)
    (hcur : (c.2.procs i).node.countsVote msg = true → CurrentVote c i msg)
    (hterm : n'.currentTerm = (c.2.procs i).node.currentTerm)
    (ht : Tally (c.2.procs i).node msg n') : Backed C c (C.nodeId i) n' := by
  rcases ht with heq | ⟨hcount, heq⟩
  · rw [Backed, heq, hterm]
    exact hb
  · obtain ⟨j, hsender, hvoted⟩ := hcur hcount
    rw [hw.nodeId] at hsender hvoted
    have hs := pyEq_str_right.mp hsender
    have hnew : (c.2.procs i).node.newVote msg = true := by
      simp only [RaftNode.countsVote, Bool.and_eq_true] at hcount
      exact hcount.2
    rw [Backed, heq, hterm]
    refine ⟨nodup_withSender hb.1 hnew hs, ?_⟩
    rw [hs]
    intro v hv
    rcases List.mem_append.mp hv with hv | hv
    · exact hb.2 v hv
    · exact ⟨j, List.mem_singleton.mp hv, hvoted⟩

/-- The acting node, when it comes out as candidate or leader. -/
theorem voteInv_actor {C : ClusterConfig N} {c : ClusterRun N} {i : Fin N} {b : NodeAction}
    {n' : RaftNode} (a : ClusterAction N) (s' : Cluster N) (u : Unit)
    (hw : WellFormed C c.2) (hinv : VoteInv C c)
    (hok : ∀ msg, b = .receive msg →
      (c.2.procs i).node.countsVote msg = true → CurrentVote c i msg)
    (hs' : (s'.procs i).node = n') (h : RaftProcess.NodeEffect (c.2.procs i).node b n') :
    (n'.state = .candidate → Backed C (c.push a s' u) (C.nodeId i) n') ∧
    (n'.state = .leader → Elected (c.push a s' u) (C.nodeId i) n'.currentTerm) := by
  -- a node that is as before, as far as elections go
  have hsame : ∀ m : RaftNode, m.state = (c.2.procs i).node.state →
      m.votesReceived = (c.2.procs i).node.votesReceived →
      m.currentTerm = (c.2.procs i).node.currentTerm →
      (m.state = .candidate → Backed C (c.push a s' u) (C.nodeId i) m) ∧
      (m.state = .leader → Elected (c.push a s' u) (C.nodeId i) m.currentTerm) := by
    intro m hst hvotes hterm
    refine ⟨?_, ?_⟩
    · intro hc
      have hb := (hinv.candidate i (hst ▸ hc)).push a s' u
      rw [Backed, hvotes, hterm]
      exact hb
    · intro hl
      rw [hterm]
      exact (hinv.leader c.2 c.current_mem_visited i (hst ▸ hl)).push a s' u
  cases h with
  | same => exact hsame _ rfl rfl rfl
  | submitted command data =>
    unfold RaftNode.submitCommand
    split <;> exact hsame _ rfl rfl rfl
  | elected =>
    refine ⟨?_, fun hl => by cases hl⟩
    intro _
    refine ⟨List.nodup_singleton _, ?_⟩
    intro v hv
    refine ⟨i, ?_, s', by simp, ?_, ?_⟩
    · rw [List.mem_singleton.mp hv, hw.nodeId]
    · rw [hs']
      exact pyEq_str_right.mpr (congrArg Json.str (hw.nodeId i))
    · rw [hs']
  | received msg r hr =>
    have hbacked : (c.2.procs i).node.state = .candidate →
        r.node.currentTerm = (c.2.procs i).node.currentTerm →
        Tally (c.2.procs i).node msg r.node →
        Backed C (c.push a s' u) (C.nodeId i) r.node := fun hcand hterm htally =>
      (backed_tally hw (hinv.candidate i hcand) (hok msg rfl) hterm htally).push a s' u
    refine ⟨?_, ?_⟩
    · intro hc
      obtain ⟨hterm, ⟨_, hl⟩ | ⟨hcand, htally, _⟩⟩ := hr.role (by rw [hc]; decide)
      · rw [hc] at hl; cases hl
      · exact hbacked hcand hterm htally
    · intro hl
      obtain ⟨hterm, ⟨hlead, _⟩ | ⟨hcand, htally, hmaj⟩⟩ := hr.role (by rw [hl]; decide)
      · rw [hterm]
        exact (hinv.leader c.2 c.current_mem_visited i hlead).push a s' u
      · have hpeers : r.node.peers = C.peers i := hr.sameIdentity.2.2.trans (hw.peers i)
        exact (hbacked hcand hterm htally).elected hpeers (hmaj hl)

theorem voteInv_step {C : ClusterConfig N} {c : ClusterRun N} {a : ClusterAction N}
    {s' : Cluster N} {u : Unit} (hw : WellFormed C c.2) (hinv : VoteInv C c)
    (hok : CountsCurrentVotes c a) (h : (Cluster.machine N).step c.2 a = some (s', u)) :
    VoteInv C (c.push a s' u) := by
  obtain ⟨i, b, p, out, hperf, hstep, rfl⟩ := Cluster.step_cases h
  have hcur : ∀ msg, b = .receive msg →
      (c.2.procs i).node.countsVote msg = true → CurrentVote c i msg := by
    rintro msg rfl
    cases hperf with
    | act _ _ hne => exact absurd rfl (hne msg)
    | deliver _ k pkt hk _ => exact hok pkt hk
  have hactor := voteInv_actor a ⟨Function.update c.2.procs i p, c.2.net ++ out⟩ u hw hinv hcur
    (by simp only [Function.update_self]) (RaftProcess.step_node hstep)
  refine ⟨?_, ?_⟩
  · intro j hj
    rcases eq_or_ne j i with rfl | hne
    · simp only [Config.push_state, Function.update_self] at hj ⊢
      exact hactor.1 hj
    · simp only [Config.push_state, Function.update_of_ne hne] at hj ⊢
      exact (hinv.candidate j hj).push _ _ _
  · intro s hs j hj
    rw [Config.visited_push] at hs
    rcases List.mem_append.mp hs with hs | hs
    · exact (hinv.leader s hs j hj).push _ _ _
    · rw [List.mem_singleton.mp hs] at hj ⊢
      rcases eq_or_ne j i with rfl | hne
      · simp only [Function.update_self] at hj ⊢
        exact hactor.2 hj
      · simp only [Function.update_of_ne hne] at hj ⊢
        exact (hinv.leader c.2 c.current_mem_visited j hj).push _ _ _

theorem voteInv_of_leads {C : ClusterConfig N} {c : ClusterRun N}
    (h : (Cluster.machine N).Leads CountsCurrentVotes ([], Cluster.init C) c) : VoteInv C c :=
  h.invariant (I := VoteInv C) (voteInv_init C)
    (fun _ _ _ _ hreach ih hok hs => voteInv_step (wellFormed_of_leads hreach) ih hok hs)

/-! ## Election safety -/

/-- **Election safety.** In a run whose candidates count only votes of
their present term, two nodes that have ever been leader in one term, at
the same time or not, are one node. -/
theorem electionSafety {C : ClusterConfig N} {c : ClusterRun N}
    (h : (Cluster.machine N).Leads CountsCurrentVotes ([], Cluster.init C) c)
    {s t : Cluster N} (hs : s ∈ c.visited) (ht : t ∈ c.visited) {i j : Fin N}
    (hi : (s.procs i).node.state = .leader) (hj : (t.procs j).node.state = .leader)
    (hterm : (s.procs i).node.currentTerm = (t.procs j).node.currentTerm) : i = j := by
  have hinv := voteInv_of_leads h
  obtain ⟨S, hS, hvS⟩ := hinv.leader s hs i hi
  obtain ⟨T, hT, hvT⟩ := hinv.leader t ht j hj
  rw [← hterm] at hvT
  have hid : C.nodeId i = C.nodeId j := winner_unique (hasVoted_unique h) hS hT hvS hvT
  exact C.nodeId_injective hid

/-- `node_1` is elected in term 1 by `node_2`. -/
def electionRun : List (ClusterAction 3) :=
  [.act 0 .electionTimeout, .act 0 (.resume 0), .deliver 1 0, .act 1 (.resume 0), .deliver 0 1]

theorem electionSafety_electionRun :
    ∃ c, (Cluster.machine 3).Leads CountsCurrentVotes ([], Cluster.init threeNodes) c ∧
      (c.2.procs 0).node.state = .leader ∧
      ∀ t ∈ c.visited, ∀ j, (t.procs j).node.state = .leader →
        (c.2.procs 0).node.currentTerm = (t.procs j).node.currentTerm → 0 = j := by
  obtain ⟨c, hc, hp⟩ := Machine.exists_leads_of_exec (Cluster.machine 3) CountsCurrentVotes
    ([], Cluster.init threeNodes) electionRun
    (fun c => decide ((c.2.procs 0).node.state = .leader)) (by decide +kernel)
  have hl := of_decide_eq_true hp
  exact ⟨c, hc, hl, fun t ht j hj hterm =>
    electionSafety hc c.current_mem_visited ht hl hj hterm⟩

/-- `node_1` runs twice; the vote of `node_2` in term 1 reaches it in
term 2, after `node_2` has made `node_3` leader of that term. -/
def splitRun : List (ClusterAction 3) :=
  [.act 0 .electionTimeout, .act 0 (.resume 0), .deliver 1 0, .act 1 (.resume 0),
   .act 0 .electionTimeout,
   .act 2 .electionTimeout, .act 2 .electionTimeout, .act 2 (.resume 3), .deliver 1 2,
   .act 1 (.resume 0), .deliver 2 3,
   .deliver 0 1]

theorem two_leaders :
    ∃ c, (Cluster.machine 3).Leads Machine.always ([], Cluster.init threeNodes) c ∧
      (c.2.procs 0).node.state = .leader ∧ (c.2.procs 0).node.currentTerm = 2 ∧
      (c.2.procs 2).node.state = .leader ∧ (c.2.procs 2).node.currentTerm = 2 := by
  obtain ⟨c, hc, hp⟩ := Machine.exists_leads_of_exec (Cluster.machine 3) Machine.always
    ([], Cluster.init threeNodes) splitRun
    (fun c => decide ((c.2.procs 0).node.state = .leader ∧ (c.2.procs 0).node.currentTerm = 2 ∧
      (c.2.procs 2).node.state = .leader ∧ (c.2.procs 2).node.currentTerm = 2)) (by decide +kernel)
  exact ⟨c, hc, of_decide_eq_true hp⟩

end SyncSystem.Raft
