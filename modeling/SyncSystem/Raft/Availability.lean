/-
SyncSystem.Raft.Availability — the cluster can always elect a leader.

Whatever has happened, elections, requests and responses that get through
are enough to make some node leader, with no node in a later term
(`leader_can_be_elected`): the node with the most up-to-date log stands
until its term is above all others, asks one node after the other, and is
refused by none, because every log is behind its own. A leader that is
in the way hears of a later term first.

One node is not enough: its election asks nobody, and so nobody checks
whether it has won.
-/
import SyncSystem.Raft.Candidacy
import SyncSystem.Raft.ElectionRestriction
import Mathlib.Algebra.Order.Archimedean.Basic
import Mathlib.Data.Fintype.Lattice
import Mathlib.Data.Fintype.Order

namespace SyncSystem.Raft

open SyncSystem.Python

variable {N : Nat}

/-- No command is submitted, no connection fails, and leaders do not
stand for election. -/
def Undisturbed (c : ClusterRun N) : ClusterAction N → Prop
  | .act i .electionTimeout => (c.2.procs i).node.state ≠ .leader
  | .act _ (.submit _ _) => False
  | .act _ (.abort _) => False
  | _ => True

/-- Node `i` is leader, and no node is in a later term. -/
structure LeadsAll (s : Cluster N) (i : Fin N) : Prop where
  leader : (s.procs i).node.state = .leader
  latest : ∀ j, (s.procs j).node.currentTerm ≤ (s.procs i).node.currentTerm

/-! ## The messages of an election -/

theorem receiverPort_address (port : Nat) : receiverPort (.str (address port)) = some port := by
  have hne : address port ≠ "" := by
    intro h
    have hlen := congrArg String.length h
    simp [address, String.length_append] at hlen
  simp [receiverPort, hne, peerPort_address]

theorem handleVoteRequest_granted {n m : RaftNode} {i : Nat} {t : Rat}
    (hlog : n.logOk (.ofRat t) (.int i) = .ok true)
    (hterm : n.termOk m.currentTerm (.str m.nodeId) = true) :
    n.handleVoteRequest (m.requestVoteMsg i t) =
      .ok ({ n with votedFor := .str m.nodeId, currentTerm := m.currentTerm },
        [.voteResponse (.str (address m.port)) true]) := by
  have hcandidate : (Obj.get (m.requestVoteMsg i t) "data" (.obj [])).get "candidate_id" (.str "") =
      .ok (.str m.nodeId) := rfl
  have hindex : (Obj.get (m.requestVoteMsg i t) "data" (.obj [])).get "last_log_index" (.int 0) =
      .ok (.int i) := rfl
  have hlast : (Obj.get (m.requestVoteMsg i t) "data" (.obj [])).get "last_log_term" (.int 0) =
      .ok (.ofRat t) := rfl
  have hsender : Obj.get (m.requestVoteMsg i t) "sender" (.str "") = .str (address m.port) := rfl
  simp only [RaftNode.handleVoteRequest, hcandidate, hindex, hlast, hsender, term_requestVoteMsg,
    num_ofRat, bind, Except.bind, hlog, hterm, Bool.and_self, if_true]
  rfl

/-- A request of a later term, from a log that is no further behind. -/
theorem handleMessage_grants {n m : RaftNode} {i : Nat} {t : Rat}
    (hterm : n.currentTerm < m.currentTerm) (hlog : n.lastPair ≤ toLex (t, i)) :
    n.handleMessage (m.requestVoteMsg i t) =
      ⟨{ n with
          state := .follower
          currentTerm := m.currentTerm
          votedFor := .str m.nodeId },
        [.voteResponse (.str (address m.port)) true], none⟩ := by
  have hadopt : n.adoptTerm m.currentTerm =
      { n with currentTerm := m.currentTerm, state := .follower, votedFor := .null } := if_pos hterm
  have hok : (n.adoptTerm m.currentTerm).logOk (.ofRat t) (.int i) = .ok true := by
    rw [logOk_adoptTerm, logOk_eq, decide_eq_true hlog]
  have htest : (n.adoptTerm m.currentTerm).termOk m.currentTerm (.str m.nodeId) = true := by
    simp [hadopt, RaftNode.termOk]
  have hrequest : (n.adoptTerm m.currentTerm).dispatch (m.requestVoteMsg i t) = _ :=
    handleVoteRequest_granted hok htest
  simp only [RaftNode.handleMessage, term_requestVoteMsg, num_ofRat, hrequest]
  rw [hadopt]

/-- A vote of this term that has not been counted. -/
theorem handleMessage_counts {n v : RaftNode} (hterm : v.currentTerm = n.currentTerm)
    (hnew : Json.str v.nodeId ∉ n.votesReceived) :
    n.handleMessage (v.voteResponseMsg true) =
      ⟨({ n with
            votesReceived := n.votesReceived ++ [.str v.nodeId] } : RaftNode).checkElectionWinner.1,
        ({ n with
            votesReceived := n.votesReceived ++ [.str v.nodeId] } : RaftNode).checkElectionWinner.2,
        none⟩ := by
  have hadopt : n.adoptTerm v.currentTerm = n := if_neg (by rw [hterm]; exact lt_irrefl _)
  have hvote : n.newVote (v.voteResponseMsg true) = true := by
    have hsender : Obj.get (v.voteResponseMsg true) "sender_id" (.str "") = .str v.nodeId := rfl
    have hout : Json.isIn (.str v.nodeId) n.votesReceived = false := by
      rw [Json.isIn, List.any_eq_false]
      intro w hw heq
      exact hnew (pyEq_str_right.mp heq ▸ hw)
    simp [RaftNode.newVote, hsender, hout, Json.truthy]
  have hdispatch : n.dispatch (v.voteResponseMsg true) =
      .ok (n.handleVoteResponse (v.voteResponseMsg true)) := rfl
  have hresponse : n.handleVoteResponse (v.voteResponseMsg true) =
      RaftNode.checkElectionWinner
        { n with votesReceived := n.votesReceived ++ [.str v.nodeId] } := by
    simp only [RaftNode.handleVoteResponse, hvote, if_true]
    rfl
  simp only [RaftNode.handleMessage, term_voteResponseMsg, num_ofRat, hadopt, hdispatch, hresponse]

theorem MessageEffect.msgTerm_le {n : RaftNode} {msg : Obj} {r : Handled}
    (h : MessageEffect n msg r) {t : Rat} (ht : msgTerm msg = .ok t) : t ≤ r.node.currentTerm := by
  have hsame : ∀ t', msgTerm msg = .ok t' → t ≤ (n.adoptTerm t').currentTerm := by
    intro t' ht'
    rw [ht] at ht'
    cases ht'
    exact le_adoptTerm n t
  cases h with
  | badTerm e he =>
    rw [ht] at he
    cases he
  | badField t' e ht' => exact hsame t' ht'
  | ignored t' ht' => exact hsame t' ht'
  | refused t' s ht' => exact hsame t' ht'
  | granted t' c s ht' _ _ _ => exact hsame t' ht'
  | response t' ht' _ =>
    have hterm := congrArg Consensus.Ballot.term (ballot_handleVoteResponse (n.adoptTerm t') msg)
    exact (hsame t' ht').trans_eq hterm.symm
  | heartbeat t' ht' => exact hsame t' ht'

/-- Nobody leads or stands after a message of a later term. -/
theorem follower_of_higher {n : RaftNode} {msg : Obj} {t : Rat} (ht : msgTerm msg = .ok t)
    (hlt : n.currentTerm < t) : (n.handleMessage msg).node.state = .follower := by
  by_contra hs
  have heffect := handleMessage_effect n msg
  have hkept := (heffect.role hs).1
  have hle := heffect.msgTerm_le ht
  rw [hkept] at hle
  exact absurd hlt (not_lt.mpr hle)

/-! ## A message gets through -/

/-- The process after it has handled `msg`. -/
def RaftProcess.received (p : RaftProcess) (msg : Obj) : RaftProcess :=
  { p with node := (p.node.handleMessage msg).node }.spawn
    (p.node.handleMessage msg).node.currentTerm (p.node.handleMessage msg).spawned

/-- The process without its `k`-th pending task. -/
def RaftProcess.without (p : RaftProcess) (k : Nat) : RaftProcess :=
  { p with pending := p.pending.eraseIdx k }

/-- A pending task of `j` gets its connection, and what it writes arrives
at `i`. -/
theorem exchange {c : ClusterRun N} {i j : Fin N} (hij : i ≠ j) {k : Nat} {t : Pending} {msg : Obj}
    (hk : (c.2.procs j).pending[k]? = some t)
    (hresume : t.task.resume (c.2.procs j).node = ([⟨(c.2.procs i).node.port, msg⟩], [])) :
    ∃ c', (Cluster.machine N).Leads Undisturbed c c' ∧
      c'.2.procs = Function.update (Function.update c.2.procs j ((c.2.procs j).without k)) i
        ((c.2.procs i).received msg) := by
  have hsend : (Cluster.machine N).step c.2 (.act j (.resume k)) =
      some (⟨Function.update c.2.procs j ((c.2.procs j).without k),
        c.2.net ++ [⟨(c.2.procs i).node.port, msg⟩]⟩, ()) := by
    simp [Cluster.machine, Cluster.step, Cluster.perform, RaftProcess.step, hk, hresume,
      RaftProcess.spawn, RaftProcess.without]
  have hdeliver : (Cluster.machine N).step ⟨Function.update c.2.procs j ((c.2.procs j).without k),
        c.2.net ++ [⟨(c.2.procs i).node.port, msg⟩]⟩ (.deliver i c.2.net.length) =
      some (⟨Function.update (Function.update c.2.procs j ((c.2.procs j).without k)) i
        ((c.2.procs i).received msg), c.2.net ++ [⟨(c.2.procs i).node.port, msg⟩]⟩, ()) := by
    simp [Cluster.machine, Cluster.step, Cluster.perform, RaftProcess.step, hij,
      RaftProcess.received]
  let sent : ClusterRun N := c.push (.act j (.resume k))
    ⟨Function.update c.2.procs j ((c.2.procs j).without k),
      c.2.net ++ [⟨(c.2.procs i).node.port, msg⟩]⟩ ()
  refine ⟨sent.push (.deliver i c.2.net.length)
    ⟨Function.update (Function.update c.2.procs j ((c.2.procs j).without k)) i
      ((c.2.procs i).received msg), c.2.net ++ [⟨(c.2.procs i).node.port, msg⟩]⟩ (), ?_, rfl⟩
  have hfirst : (Cluster.machine N).Leads Undisturbed c sent :=
    .single ⟨.act j (.resume k), _, _, trivial, hsend, rfl⟩
  exact hfirst.tail ⟨.deliver i c.2.net.length, _, _, trivial, hdeliver, rfl⟩

theorem mem_eraseIdx_of_ne {α : Type} {l : List α} {k : Nat} {a b : α} (hk : l[k]? = some b)
    (ha : a ∈ l) (hne : a ≠ b) : a ∈ l.eraseIdx k := by
  obtain ⟨hlt, rfl⟩ := List.getElem?_eq_some_iff.mp hk
  rcases List.mem_cons.mp ((List.getElem_cons_eraseIdx_perm hlt).mem_iff.mpr ha) with h | h
  · exact absurd h hne
  · exact h

/-- Nothing is written to a log. -/
theorem log_of_undisturbed {c c' : ClusterRun N}
    (h : (Cluster.machine N).Leads Undisturbed c c') (j : Fin N) :
    (c'.2.procs j).node.log = (c.2.procs j).node.log := by
  refine h.invariant (I := fun d => (d.2.procs j).node.log = (c.2.procs j).node.log) rfl ?_
  intro d a s' u _ ih hok hs
  obtain ⟨i, b, p, out, hperforms, hstep, rfl⟩ := Cluster.step_cases hs
  have hlog : p.node.log = (d.2.procs i).node.log := by
    have heffect := RaftProcess.step_node hstep
    generalize p.node = n' at heffect
    cases heffect with
    | elected => rfl
    | received msg r hr => exact hr.log
    | submitted command data =>
      cases hperforms with
      | act _ _ _ => exact absurd hok id
    | same => rfl
  rw [Config.push_state, ← ih]
  rcases eq_or_ne j i with rfl | hj
  · simp only [Function.update_self, hlog]
  · simp only [Function.update_of_ne hj]

/-! ## Asking for votes -/

/-- `j` has still to be asked: it is in an earlier term, its log is no
further, and the request to it is pending. -/
structure Open (C : ClusterConfig N) (s : Cluster N) (i j : Fin N) : Prop where
  earlier : (s.procs j).node.currentTerm < (s.procs i).node.currentTerm
  behind : (s.procs j).node.lastPair ≤ (s.procs i).node.lastPair
  request : ∃ t ∈ (s.procs i).pending, ∃ peer,
    t.task = .requestVote peer (s.procs i).node.lastIdx (s.procs i).node.lastTerm ∧
      peerPort peer = some (C.port j)

/-- `i` stands and has the votes of `asked`; everyone else is to be asked. -/
structure Campaign (C : ClusterConfig N) (i : Fin N) (asked : List (Fin N)) (s : Cluster N) :
    Prop where
  candidate : (s.procs i).node.state = .candidate
  undecided : (s.procs i).node.Undecided
  votes : (s.procs i).node.votesReceived = (i :: asked).map (fun j => .str (C.nodeId j))
  latest : ∀ j, (s.procs j).node.currentTerm ≤ (s.procs i).node.currentTerm
  remaining : ∀ j ∉ i :: asked, Open C s i j

/-- `i` has asked `j`, and has the answer. -/
structure Answered (c c' : ClusterRun N) (i j : Fin N) : Prop where
  candidate : (c'.2.procs i).node = ({ (c.2.procs i).node with
      votesReceived := (c.2.procs i).node.votesReceived ++ [.str (c.2.procs j).node.nodeId] } :
        RaftNode).checkElectionWinner.1
  voter : (c'.2.procs j).node.currentTerm = (c.2.procs i).node.currentTerm
  others : ∀ l, l ≠ i → l ≠ j → c'.2.procs l = c.2.procs l
  /-- Only the request to `j` has been sent. -/
  pending : ∀ t ∈ (c.2.procs i).pending, ∀ peer idx last, t.task = .requestVote peer idx last →
    peerPort peer ≠ some (c.2.procs j).node.port → t ∈ (c'.2.procs i).pending

/-- The request goes to `j`, and the vote comes back. -/
theorem exists_answered {C : ClusterConfig N} {c : ClusterRun N} {i j : Fin N}
    (hw : WellFormed C c.2) (hij : i ≠ j) (hopen : Open C c.2 i j)
    (hnew : Json.str (c.2.procs j).node.nodeId ∉ (c.2.procs i).node.votesReceived) :
    ∃ c', (Cluster.machine N).Leads Undisturbed c c' ∧ Answered c c' i j := by
  obtain ⟨t, ht, peer, htask, hpeer⟩ := hopen.request
  obtain ⟨k, hk⟩ := List.mem_iff_getElem?.mp ht
  have hport : peerPort peer = some (c.2.procs j).node.port := by rw [hpeer, hw.port]
  have hrequest : t.task.resume (c.2.procs i).node = ([⟨(c.2.procs j).node.port,
      (c.2.procs i).node.requestVoteMsg (c.2.procs i).node.lastIdx
        (c.2.procs i).node.lastTerm⟩], []) := by
    simp [htask, SendTask.resume, hport]
  obtain ⟨c₁, hrun₁, hprocs₁⟩ := exchange hij.symm hk hrequest
  have hvoter₁ : c₁.2.procs j = (c.2.procs j).received ((c.2.procs i).node.requestVoteMsg
      (c.2.procs i).node.lastIdx (c.2.procs i).node.lastTerm) := by
    rw [hprocs₁, Function.update_self]
  have hcand₁ : c₁.2.procs i = (c.2.procs i).without k := by
    rw [hprocs₁, Function.update_of_ne hij, Function.update_self]
  have hgrants := handleMessage_grants hopen.earlier hopen.behind
  simp only [RaftProcess.received, RaftProcess.spawn, hgrants] at hvoter₁
  -- the vote is the last of the voter's tasks
  have hk₁ : (c₁.2.procs j).pending[(c.2.procs j).pending.length]? =
      some ⟨.voteResponse (.str (address (c.2.procs i).node.port)) true,
        (c.2.procs i).node.currentTerm⟩ := by
    simp [hvoter₁]
  have hvote : (SendTask.voteResponse (.str (address (c.2.procs i).node.port)) true).resume
      (c₁.2.procs j).node =
      ([⟨(c₁.2.procs i).node.port, (c₁.2.procs j).node.voteResponseMsg true⟩], []) := by
    simp [SendTask.resume, receiverPort_address, hcand₁, RaftProcess.without]
  obtain ⟨c₂, hrun₂, hprocs₂⟩ := exchange hij hk₁ hvote
  refine ⟨c₂, hrun₁.trans hrun₂, ?_, ?_, ?_, ?_⟩
  · have hcounts : ((c.2.procs i).without k).node.handleMessage
        ((c₁.2.procs j).node.voteResponseMsg true) = _ :=
      handleMessage_counts (by rw [hvoter₁]; rfl) (by rw [hvoter₁]; exact hnew)
    rw [hprocs₂, Function.update_self, hcand₁, RaftProcess.received, RaftProcess.spawn_node,
      hcounts, hvoter₁]
    rfl
  · rw [hprocs₂, Function.update_of_ne hij.symm, Function.update_self, RaftProcess.without, hvoter₁]
  · intro l hli hlj
    rw [hprocs₂, Function.update_of_ne hli, Function.update_of_ne hlj, hprocs₁,
      Function.update_of_ne hlj, Function.update_of_ne hli]
  · intro t' ht' peer' idx last htask' hne
    have hkept : t' ∈ (c.2.procs i).pending.eraseIdx k := by
      refine mem_eraseIdx_of_ne hk ht' ?_
      rintro rfl
      rw [htask] at htask'
      cases htask'
      exact hne hport
    rw [hprocs₂, Function.update_self, hcand₁]
    exact List.mem_append_left _ hkept

/-- One more node is asked. -/
theorem Campaign.ask {C : ClusterConfig N} {c : ClusterRun N} {i : Fin N} {asked : List (Fin N)}
    (hw : WellFormed C c.2) (h : Campaign C i asked c.2) {j : Fin N} (hj : j ∉ i :: asked) :
    ∃ c', (Cluster.machine N).Leads Undisturbed c c' ∧
      (LeadsAll c'.2 i ∨ Campaign C i (asked ++ [j]) c'.2) := by
  have hij : i ≠ j := fun heq => hj (heq ▸ List.mem_cons_self)
  have hnew : Json.str (c.2.procs j).node.nodeId ∉ (c.2.procs i).node.votesReceived := by
    rw [h.votes, hw.nodeId]
    intro hmem
    obtain ⟨l, hl, heq⟩ := List.mem_map.mp hmem
    rw [C.nodeId_injective (Json.str.inj heq)] at hl
    exact hj hl
  obtain ⟨c', hrun, hanswered⟩ := exists_answered hw hij (h.remaining j hj) hnew
  refine ⟨c', hrun, ?_⟩
  have hnode := hanswered.candidate
  generalize hcounted : ({ (c.2.procs i).node with
      votesReceived := (c.2.procs i).node.votesReceived ++ [.str (c.2.procs j).node.nodeId] } :
        RaftNode) = counted at hnode
  obtain ⟨hvotes, hterm, _, _, _⟩ := checkElectionWinner_frame counted
  have hterm' : (c'.2.procs i).node.currentTerm = (c.2.procs i).node.currentTerm := by
    rw [hnode, hterm, ← hcounted]
  have hlog : (c'.2.procs i).node.log = (c.2.procs i).node.log := log_of_undisturbed hrun i
  have hlatest : ∀ l, (c'.2.procs l).node.currentTerm ≤ (c'.2.procs i).node.currentTerm := by
    intro l
    rw [hterm']
    rcases eq_or_ne l i with rfl | hli
    · exact hterm'.le
    · rcases eq_or_ne l j with rfl | hlj
      · exact hanswered.voter.le
      · rw [hanswered.others l hli hlj]
        exact h.latest l
  by_cases hleader : (c'.2.procs i).node.state = .leader
  · exact Or.inl ⟨hleader, hlatest⟩
  · right
    have hstate : (c'.2.procs i).node.state = .candidate := by
      rw [hnode] at hleader ⊢
      rcases checkElectionWinner_state counted with hsame | ⟨_, hwon, _⟩
      · rw [hsame, ← hcounted]
        exact h.candidate
      · exact absurd hwon hleader
    refine ⟨hstate, by rw [hnode]; exact undecided_checkElectionWinner counted, ?_, hlatest, ?_⟩
    · rw [hnode, hvotes, ← hcounted]
      simp [h.votes, hw.nodeId]
    · intro l hl
      simp only [List.mem_cons, List.mem_append, not_or] at hl
      obtain ⟨hli, hlasked, hlj, _⟩ := hl
      have hopen := h.remaining l (by simp [hli, hlasked])
      have hsame := hanswered.others l hli hlj
      refine ⟨?_, ?_, ?_⟩
      · rw [hsame, hterm']
        exact hopen.earlier
      · rw [hsame, lastPair_congr hlog]
        exact hopen.behind
      · obtain ⟨t, ht, peer, htask, hpeer⟩ := hopen.request
        refine ⟨t, hanswered.pending t ht _ _ _ htask ?_, peer, ?_, hpeer⟩
        · rw [hpeer, hw.port]
          intro heq
          exact hlj (C.port_injective (Option.some.inj heq))
        · simpa only [RaftNode.lastIdx, RaftNode.lastTerm, hlog] using htask

/-- With the votes of all nodes a candidate would have won. -/
theorem Campaign.not_all {C : ClusterConfig N} {s : Cluster N} {i : Fin N} {asked : List (Fin N)}
    (hN : 2 ≤ N) (hw : WellFormed C s) (h : Campaign C i asked s) : ∃ j, j ∉ i :: asked := by
  by_contra hall
  simp only [not_exists, not_not] at hall
  have hlen : N ≤ (i :: asked).length := by
    have hsub := (List.subperm_of_subset (List.nodup_finRange N) (fun j _ => hall j)).length_le
    simpa using hsub
  have hpeers : (s.procs i).node.peers.length + 1 = N := by
    rw [hw.peers]
    exact peers_length i
  refine h.undecided ⟨h.candidate, ?_⟩
  rw [h.votes, List.length_map, RaftNode.majority, hpeers]
  omega

/-- Nodes are asked until the candidate has won. -/
theorem Campaign.exists_leader {C : ClusterConfig N} {c₀ c : ClusterRun N} {i : Fin N}
    {asked : List (Fin N)} (hN : 2 ≤ N)
    (hreach : (Cluster.machine N).Leads Machine.always ([], Cluster.init C) c₀)
    (hrun : (Cluster.machine N).Leads Undisturbed c₀ c)
    (hdistinct : (i :: asked).Nodup) (h : Campaign C i asked c.2) :
    ∃ c', (Cluster.machine N).Leads Undisturbed c₀ c' ∧ LeadsAll c'.2 i := by
  -- the number of nodes that have not been asked
  generalize hleft : N - (i :: asked).length = left
  induction left using Nat.strongRecOn generalizing c asked with
  | ind left ih =>
    have hw : WellFormed C c.2 := wellFormed_of_leads (hreach.trans hrun.always)
    obtain ⟨j, hj⟩ := h.not_all hN hw
    obtain ⟨c', hstep, hdone | hmore⟩ := h.ask hw hj
    · exact ⟨c', hrun.trans hstep, hdone⟩
    · have hnext : (i :: (asked ++ [j])).Nodup := by
        rw [← List.cons_append]
        refine List.nodup_append.mpr ⟨hdistinct, List.nodup_singleton j, ?_⟩
        intro a ha b hb heq
        rw [List.mem_singleton.mp hb] at heq
        exact hj (heq ▸ ha)
      have hbound := hnext.length_le_card
      simp only [List.length_cons, List.length_append, List.length_nil,
        Fintype.card_fin] at hbound hleft
      refine ih (N - (i :: (asked ++ [j])).length) ?_ (hrun.trans hstep) hnext hmore rfl
      simp only [List.length_cons, List.length_append, List.length_nil]
      omega

/-! ## Standing above all others -/

/-- The process after an election of its own. -/
def RaftProcess.standing (p : RaftProcess) : RaftProcess :=
  { p with node := p.node.startElection.1 }.spawn p.node.startElection.1.currentTerm
    p.node.startElection.2

/-- After some elections of its own: the term is so much later, and the
requests of the last election are pending. -/
theorem exists_standing (c : ClusterRun N) (i : Fin N)
    (hnot : (c.2.procs i).node.state ≠ .leader) (n : Nat) :
    ∃ (c' : ClusterRun N) (p : RaftProcess), (Cluster.machine N).Leads Undisturbed c c' ∧
      c'.2.procs = Function.update c.2.procs i p.standing ∧
      p.node.currentTerm = (c.2.procs i).node.currentTerm + n := by
  induction n with
  | zero =>
    refine ⟨c.push (.act i .electionTimeout) _ (), c.2.procs i,
      .single ⟨.act i .electionTimeout, _, (), hnot, rfl, rfl⟩, rfl, by simp⟩
  | succ n ih =>
    obtain ⟨c', p, hrun, hprocs, hterm⟩ := ih
    have hcandidate : (c'.2.procs i).node.state ≠ .leader := by
      rw [hprocs, Function.update_self]
      exact fun h => by cases h
    refine ⟨c'.push (.act i .electionTimeout) _ (), c'.2.procs i,
      hrun.tail ⟨.act i .electionTimeout, _, (), hcandidate, rfl, rfl⟩, ?_, ?_⟩
    · have hagain : ∀ q, Function.update c'.2.procs i q = Function.update c.2.procs i q := by
        intro q
        rw [hprocs, Function.update_idem]
      exact hagain (c'.2.procs i).standing
    · rw [hprocs, Function.update_self]
      show p.node.currentTerm + 1 = _
      rw [hterm]
      push_cast
      ring

theorem exists_peer {C : ClusterConfig N} {i j : Fin N} (hij : j ≠ i) :
    ∃ peer ∈ C.peers i, peerPort peer = some (C.port j) := by
  have hmem : some (C.port j) ∈ (C.peers i).map peerPort := by
    rw [(C.peers_others i).mem_iff]
    exact List.mem_map_of_mem (List.mem_filter.mpr ⟨List.mem_finRange j, by simpa using hij⟩)
  obtain ⟨peer, hpeer, hport⟩ := List.mem_map.mp hmem
  exact ⟨peer, hpeer, hport⟩

/-- A node that does not lead and has the furthest log starts a campaign. -/
theorem exists_campaign {C : ClusterConfig N} {c : ClusterRun N} {i : Fin N} (hN : 2 ≤ N)
    (hreach : (Cluster.machine N).Leads Machine.always ([], Cluster.init C) c)
    (hnot : (c.2.procs i).node.state ≠ .leader)
    (hfurthest : ∀ j, (c.2.procs j).node.lastPair ≤ (c.2.procs i).node.lastPair) :
    ∃ c', (Cluster.machine N).Leads Undisturbed c c' ∧ Campaign C i [] c'.2 := by
  obtain ⟨bound, hbound⟩ := Finite.exists_le (fun j => (c.2.procs j).node.currentTerm)
  obtain ⟨n, hn⟩ := exists_nat_gt (bound - (c.2.procs i).node.currentTerm)
  obtain ⟨c', p, hrun, hprocs, hterm⟩ := exists_standing c i hnot n
  have hw : WellFormed C c'.2 := wellFormed_of_leads (hreach.trans hrun.always)
  have hself : c'.2.procs i = p.standing := by rw [hprocs, Function.update_self]
  have hothers : ∀ j, j ≠ i → c'.2.procs j = c.2.procs j := by
    intro j hj
    rw [hprocs, Function.update_of_ne hj]
  have hlater : ∀ j, j ≠ i →
      (c'.2.procs j).node.currentTerm < (c'.2.procs i).node.currentTerm := by
    intro j hj
    rw [hothers j hj, hself]
    show _ < p.node.currentTerm + 1
    have hle := hbound j
    rw [hterm]
    linarith
  have hpeers : p.node.peers = C.peers i := by
    have hsame := hw.peers i
    rw [hself] at hsame
    exact hsame
  have hid : p.node.nodeId = C.nodeId i := by
    have hsame := hw.nodeId i
    rw [hself] at hsame
    exact hsame
  refine ⟨c', hrun, ?_, ?_, ?_, ?_, ?_⟩
  · rw [hself]
    rfl
  · rw [hself]
    refine undecided_startElection.mpr ?_
    rw [hpeers, ← List.length_pos_iff]
    have hlen := peers_length (C := C) i
    omega
  · rw [hself]
    show [Json.str p.node.nodeId] = _
    rw [hid]
    rfl
  · intro j
    rcases eq_or_ne j i with rfl | hj
    · exact le_rfl
    · exact (hlater j hj).le
  · intro j hj
    have hji : j ≠ i := fun heq => hj (heq ▸ List.mem_cons_self)
    refine ⟨hlater j hji, ?_, ?_⟩
    · rw [lastPair_congr (log_of_undisturbed hrun j), lastPair_congr (log_of_undisturbed hrun i)]
      exact hfurthest j
    · obtain ⟨peer, hmem, hport⟩ := exists_peer (C := C) hji
      rw [← hpeers] at hmem
      rw [hself]
      refine ⟨⟨.requestVote peer p.node.lastIdx p.node.lastTerm, _⟩,
        List.mem_append_right _ (List.mem_map_of_mem (List.mem_map_of_mem hmem)), peer, rfl, hport⟩

/-! ## A leader in the way -/

/-- A leader hears of a later term, from a leader or from a candidate. -/
theorem exists_deposed {C : ClusterConfig N} {c : ClusterRun N} {i j : Fin N}
    (hreach : (Cluster.machine N).Leads Machine.always ([], Cluster.init C) c)
    (hlater : (c.2.procs i).node.currentTerm < (c.2.procs j).node.currentTerm) :
    ∃ c', (Cluster.machine N).Leads Undisturbed c c' ∧
      (c'.2.procs i).node.state = .follower := by
  have hw : WellFormed C c.2 := wellFormed_of_leads hreach
  have hij : i ≠ j := by
    rintro rfl
    exact lt_irrefl _ hlater
  obtain ⟨peer, hmem, hport⟩ := exists_peer (C := C) hij
  rw [← hw.port i] at hport
  rw [← hw.peers j] at hmem
  -- what is sent when the task is resumed is of the sender's term
  have hheard : ∀ (d : ClusterRun N) (t : Pending) (msg : Obj),
      (Cluster.machine N).Leads Undisturbed c d → d.2.procs i = c.2.procs i →
      t ∈ (d.2.procs j).pending →
      t.task.resume (d.2.procs j).node = ([⟨(d.2.procs i).node.port, msg⟩], []) →
      msgTerm msg = .ok (d.2.procs j).node.currentTerm →
      (c.2.procs j).node.currentTerm ≤ (d.2.procs j).node.currentTerm →
      ∃ c', (Cluster.machine N).Leads Undisturbed c c' ∧
        (c'.2.procs i).node.state = .follower := by
    intro d t msg hrun hsame ht hresume hterm hle
    obtain ⟨k, hk⟩ := List.mem_iff_getElem?.mp ht
    obtain ⟨c', hrun', hprocs⟩ := exchange hij hk hresume
    refine ⟨c', hrun.trans hrun', ?_⟩
    rw [hprocs, Function.update_self]
    exact follower_of_higher hterm (by rw [hsame]; exact lt_of_lt_of_le hlater hle)
  by_cases hleader : (c.2.procs j).node.state = .leader
  · have htick : (Cluster.machine N).step c.2 (.act j .heartbeatTick) =
        some (⟨Function.update c.2.procs j ((c.2.procs j).spawn (c.2.procs j).node.currentTerm
          ((c.2.procs j).node.peers.map .heartbeat)), c.2.net ++ []⟩, ()) := by
      simp [Cluster.machine, Cluster.step, Cluster.perform, RaftProcess.step, hleader]
    refine hheard _ ⟨.heartbeat peer, (c.2.procs j).node.currentTerm⟩
      (c.2.procs j).node.heartbeatMsg (.single ⟨.act j .heartbeatTick, _, (), trivial, htick, rfl⟩)
      ?_ ?_ ?_ ?_ ?_
    · simp [hij]
    · simp [RaftProcess.spawn, hmem]
    · simp [SendTask.resume, hport, hij]
    · simp [msgTerm]
    · simp
  · refine hheard _ ⟨.requestVote peer (c.2.procs j).node.lastIdx (c.2.procs j).node.lastTerm,
        (c.2.procs j).node.currentTerm + 1⟩
      ((c.2.procs j).node.startElection.1.requestVoteMsg (c.2.procs j).node.lastIdx
        (c.2.procs j).node.lastTerm)
      (.single ⟨.act j .electionTimeout, _, (), hleader, rfl, rfl⟩) ?_ ?_ ?_ ?_ ?_
    · simp [hij]
    · simp only [Config.push_state, Function.update_self]
      exact List.mem_append_right _ (List.mem_map_of_mem (List.mem_map_of_mem hmem))
    · simp [SendTask.resume, hport, hij]
      rfl
    · simp [msgTerm]
      rfl
    · simp

/-- **The cluster can always elect a leader.** From every reachable state
of two nodes or more, some run without new commands or lost connections
makes a node leader whose term is no earlier than any other. -/
theorem leader_can_be_elected {C : ClusterConfig N} {c : ClusterRun N} (hN : 2 ≤ N)
    (h : (Cluster.machine N).Leads Machine.always ([], Cluster.init C) c) :
    ∃ c' i, (Cluster.machine N).Leads Undisturbed c c' ∧ LeadsAll c'.2 i ∧
      ∀ j, (c'.2.procs j).node.log = (c.2.procs j).node.log := by
  have : Nonempty (Fin N) := ⟨⟨0, by omega⟩⟩
  obtain ⟨i, hfurthest⟩ := Finite.exists_max (fun j => (c.2.procs j).node.lastPair)
  have helect : ∀ d, (Cluster.machine N).Leads Undisturbed c d →
      (d.2.procs i).node.state ≠ .leader →
      ∃ c', (Cluster.machine N).Leads Undisturbed c c' ∧ LeadsAll c'.2 i := by
    intro d hrun hnot
    have hreach : (Cluster.machine N).Leads Machine.always ([], Cluster.init C) d :=
      h.trans hrun.always
    obtain ⟨d', hrun', hcampaign⟩ := exists_campaign hN hreach hnot (by
      intro j
      rw [lastPair_congr (log_of_undisturbed hrun j), lastPair_congr (log_of_undisturbed hrun i)]
      exact hfurthest j)
    exact hcampaign.exists_leader hN h (hrun.trans hrun') (List.nodup_singleton i)
  have hsome : ∃ c', (Cluster.machine N).Leads Undisturbed c c' ∧ LeadsAll c'.2 i := by
    by_cases hleader : (c.2.procs i).node.state = .leader
    · by_cases hlatest : ∀ j, (c.2.procs j).node.currentTerm ≤ (c.2.procs i).node.currentTerm
      · exact ⟨c, .refl, hleader, hlatest⟩
      · simp only [not_forall, not_le] at hlatest
        obtain ⟨j, hlater⟩ := hlatest
        obtain ⟨d, hrun, hfollower⟩ := exists_deposed h hlater
        exact helect d hrun (by rw [hfollower]; decide)
    · exact helect c .refl hleader
  obtain ⟨c', hrun, hleads⟩ := hsome
  exact ⟨c', i, hrun, hleads, fun j => log_of_undisturbed hrun j⟩

/-- Three nodes that have all stood in term 1, one of them once more. -/
def deadlockedRun (i j k : Fin 3) : List (ClusterAction 3) :=
  [.act i .electionTimeout, .act j .electionTimeout, .act k .electionTimeout,
   .act k .electionTimeout]

theorem leader_can_be_elected_deadlockedRun :
    ∃ c, (Cluster.machine 3).Leads Machine.always ([], Cluster.init threeNodes) c ∧
      (∀ i, (c.2.procs i).node.state = .candidate) ∧
      ∃ c' i, (Cluster.machine 3).Leads Undisturbed c c' ∧ LeadsAll c'.2 i ∧
        ∀ j, (c'.2.procs j).node.log = (c.2.procs j).node.log := by
  obtain ⟨c, hc, hp⟩ := Machine.exists_leads_of_exec (Cluster.machine 3) Machine.always
    ([], Cluster.init threeNodes) (deadlockedRun 0 1 2)
    (fun c => decide (∀ i, (c.2.procs i).node.state = .candidate)) (by decide +kernel)
  exact ⟨c, hc, of_decide_eq_true hp, leader_can_be_elected (by decide) hc⟩

end SyncSystem.Raft
