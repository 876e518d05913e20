/-
SyncSystem.Raft.NodeTheorems — what one call can do to a node.

`MessageEffect` lists the outcomes of `handleMessage` once, with the
guards that lead to them; every later result about messages is a case
analysis of it. The facts of the other calls are read off their
definitions. §2 derives what the handlers do to the pair (term, vote),
§3 what they do to the role and the votes received; §4 says what no call
changes, §5 and §6 are about the messages a node builds and their ports.
-/
import SyncSystem.Raft.Node
import SyncSystem.Consensus.Ballot
import Mathlib.Tactic.Linarith
import Mathlib.Data.List.TakeWhile

namespace SyncSystem.Raft

open SyncSystem.Python
open SyncSystem.Consensus

/-! ## §1 The outcomes of `handleMessage` -/

/-- The value `handle_vote_request` reads as the candidate's id. -/
def candidateId (msg : Obj) : Except PyError Json :=
  (Obj.get msg "data" (.obj [])).get "candidate_id" (.str "")

/-- The number in the message's `term` field. -/
def msgTerm (msg : Obj) : Except PyError Rat := (Obj.get msg "term" (.int 0)).num

/-- The outcomes of handling `msg` in the state `n`. -/
inductive MessageEffect (n : RaftNode) (msg : Obj) : Handled → Prop where
  | badTerm (e : PyError) : msgTerm msg = .error e → MessageEffect n msg ⟨n, [], some e⟩
  | badField (t : Rat) (e : PyError) : msgTerm msg = .ok t →
      MessageEffect n msg ⟨n.adoptTerm t, [], some e⟩
  | ignored (t : Rat) : msgTerm msg = .ok t → MessageEffect n msg ⟨n.adoptTerm t, [], none⟩
  | refused (t : Rat) (sender : Json) : msgTerm msg = .ok t →
      MessageEffect n msg ⟨n.adoptTerm t, [.voteResponse sender false], none⟩
  | granted (t : Rat) (c sender : Json) : msgTerm msg = .ok t → candidateId msg = .ok c →
      (n.adoptTerm t).currentTerm = t →
      ((n.adoptTerm t).votedFor = .null ∨ (n.adoptTerm t).votedFor.pyEq c = true) →
      MessageEffect n msg
        ⟨{ n.adoptTerm t with votedFor := c }, [.voteResponse sender true], none⟩
  | response (t : Rat) : msgTerm msg = .ok t →
      (Obj.get msg "type" (.str "")) = .str "vote_response" →
      MessageEffect n msg ⟨((n.adoptTerm t).handleVoteResponse msg).1,
        ((n.adoptTerm t).handleVoteResponse msg).2, none⟩
  | heartbeat (t : Rat) : msgTerm msg = .ok t →
      MessageEffect n msg ⟨(n.adoptTerm t).handleHeartbeat msg, [], none⟩

theorem le_adoptTerm (n : RaftNode) (t : Rat) : t ≤ (n.adoptTerm t).currentTerm := by
  unfold RaftNode.adoptTerm
  split
  · exact le_rfl
  · next h => exact not_lt.mp h

theorem bind_eq_ok {ε α β : Type} {x : Except ε α} {f : α → Except ε β} {b : β}
    (h : (x >>= f) = .ok b) : ∃ a, x = .ok a ∧ f a = .ok b := by
  cases x with
  | error e => cases h
  | ok a => exact ⟨a, rfl, h⟩

/-- The two answers of `_handle_vote_request`, when it does not raise. -/
theorem handleVoteRequest_cases {n n' : RaftNode} {msg : Obj} {tasks : List SendTask}
    (h : n.handleVoteRequest msg = .ok (n', tasks)) :
    (n' = n ∧ ∃ sender, tasks = [.voteResponse sender false]) ∨
    ∃ c t sender, candidateId msg = .ok c ∧ msgTerm msg = .ok t ∧ n.termOk t c = true ∧
      n' = { n with votedFor := c, currentTerm := t } ∧
      tasks = [.voteResponse sender true] := by
  unfold RaftNode.handleVoteRequest at h
  obtain ⟨c, hc, h⟩ := bind_eq_ok h
  obtain ⟨t, ht, h⟩ := bind_eq_ok h
  obtain ⟨i, _, h⟩ := bind_eq_ok h
  obtain ⟨lt, _, h⟩ := bind_eq_ok h
  obtain ⟨ok, _, h⟩ := bind_eq_ok h
  split at h
  · next hok =>
    cases h
    exact Or.inr ⟨c, t, _, hc, ht, (Bool.and_eq_true _ _ ▸ hok).1, rfl, rfl⟩
  · cases h
    exact Or.inl ⟨rfl, _, rfl⟩

/-- `termOk` without a higher term: the terms agree and the vote is free
or already the candidate's. -/
theorem termOk_of_le {n : RaftNode} {t : Rat} {c : Json} (hle : t ≤ n.currentTerm)
    (h : n.termOk t c = true) :
    n.currentTerm = t ∧ (n.votedFor = .null ∨ n.votedFor.pyEq c = true) := by
  have hgt : decide (t > n.currentTerm) = false := decide_eq_false (not_lt.mpr hle)
  simp only [RaftNode.termOk, hgt, Bool.false_or, Bool.and_eq_true, beq_iff_eq,
    Bool.or_eq_true] at h
  refine ⟨h.1.symm, h.2.imp_left ?_⟩
  intro hn
  cases hv : n.votedFor <;> simp_all

theorem handleMessage_effect (n : RaftNode) (msg : Obj) :
    MessageEffect n msg (n.handleMessage msg) := by
  unfold RaftNode.handleMessage
  cases ht : (Obj.get msg "term" (.int 0)).num with
  | error e => exact .badTerm e ht
  | ok t =>
    simp only
    cases hd : (n.adoptTerm t).dispatch msg with
    | error e => exact .badField t e ht
    | ok r =>
      obtain ⟨n', tasks⟩ := r
      simp only [RaftNode.dispatch] at hd
      split at hd
      · -- request_vote
        rcases handleVoteRequest_cases hd with ⟨rfl, s, rfl⟩ | ⟨c, t', s, hc, ht', hok, rfl, rfl⟩
        · exact .refused t s ht
        · have htt : t' = t := by
            unfold msgTerm at ht'
            rw [ht] at ht'
            exact (Except.ok.inj ht').symm
          subst htt
          obtain ⟨heq, hv⟩ := termOk_of_le (le_adoptTerm n t') hok
          have hn : ∀ m : RaftNode, m.currentTerm = t' →
              ({ m with votedFor := c, currentTerm := t' } : RaftNode) =
                { m with votedFor := c } := by
            rintro m rfl
            rfl
          simp only [hn _ heq]
          exact .granted t' c s ht hc heq hv
      · split at hd
        · next hty =>
          have hn : n' = _ := (congrArg Prod.fst (Except.ok.inj hd)).symm
          have hts : tasks = _ := (congrArg Prod.snd (Except.ok.inj hd)).symm
          rw [hn, hts]
          exact .response t ht (pyEq_str_right.mp hty)
        · split at hd
          · cases hd; exact .heartbeat t ht
          · cases hd; exact .ignored t ht

theorem log_adoptTerm (n : RaftNode) (t : Rat) : (n.adoptTerm t).log = n.log := by
  unfold RaftNode.adoptTerm
  split <;> rfl

theorem logOk_adoptTerm (n : RaftNode) (t : Rat) (lt li : Json) :
    (n.adoptTerm t).logOk lt li = n.logOk lt li := by
  unfold RaftNode.adoptTerm
  split <;> rfl

theorem checkElectionWinner_tasks {n : RaftNode} {k : SendTask}
    (h : k ∈ n.checkElectionWinner.2) :
    k = .heartbeats ∧ n.checkElectionWinner.1.state = .leader := by
  unfold RaftNode.checkElectionWinner at h ⊢
  split at h
  · cases h
  · next hs =>
    split at h
    · next hm =>
      rw [if_neg hs, if_pos hm]
      exact ⟨List.mem_singleton.mp h, rfl⟩
    · cases h

/-- Handling `msg` grants a vote that is answered to `receiver`, and
leaves `n'`. -/
structure Grants (n : RaftNode) (msg : Obj) (receiver : Json) (n' : RaftNode) : Prop where
  type : Obj.get msg "type" (.str "") = .str "request_vote"
  sender : receiver = Obj.get msg "sender" (.str "")
  candidate : candidateId msg = .ok n'.votedFor
  term : msgTerm msg = .ok n'.currentTerm
  upToDate : ∃ lt li, (Obj.get msg "data" (.obj [])).get "last_log_term" (.int 0) = .ok lt ∧
    (Obj.get msg "data" (.obj [])).get "last_log_index" (.int 0) = .ok li ∧
    n.logOk lt li = .ok true

theorem handleVoteRequest_grants {n n' : RaftNode} {msg : Obj} {receiver : Json}
    {tasks : List SendTask} (h : n.handleVoteRequest msg = .ok (n', tasks))
    (hty : Obj.get msg "type" (.str "") = .str "request_vote")
    (hg : .voteResponse receiver true ∈ tasks) : Grants n msg receiver n' := by
  unfold RaftNode.handleVoteRequest at h
  obtain ⟨c, hc, h⟩ := bind_eq_ok h
  obtain ⟨t, ht, h⟩ := bind_eq_ok h
  obtain ⟨li, hli, h⟩ := bind_eq_ok h
  obtain ⟨lt, hlt, h⟩ := bind_eq_ok h
  obtain ⟨ok, hok, h⟩ := bind_eq_ok h
  split at h
  · next hgrant =>
    cases h
    obtain ⟨_, rfl⟩ := Bool.and_eq_true_iff.mp hgrant
    cases List.mem_singleton.mp hg
    exact ⟨hty, rfl, hc, ht, lt, li, hlt, hli, hok⟩
  · cases h
    cases List.mem_singleton.mp hg

/-- A granted vote is answered only by `_handle_vote_request`. -/
theorem grants_of_spawned {n : RaftNode} {msg : Obj} {receiver : Json}
    (h : .voteResponse receiver true ∈ (n.handleMessage msg).spawned) :
    Grants n msg receiver (n.handleMessage msg).node := by
  unfold RaftNode.handleMessage at h ⊢
  cases ht : (Obj.get msg "term" (.int 0)).num with
  | error e => simp [ht] at h
  | ok t =>
    simp only [ht] at h ⊢
    cases hd : (n.adoptTerm t).dispatch msg with
    | error e => simp [hd] at h
    | ok r =>
      obtain ⟨n', tasks⟩ := r
      simp only [hd] at h ⊢
      simp only [RaftNode.dispatch] at hd
      split at hd
      · next hty =>
        have hg := handleVoteRequest_grants hd (pyEq_str_right.mp hty) h
        obtain ⟨lt, li, hlt, hli, hok⟩ := hg.upToDate
        exact ⟨hg.type, hg.sender, hg.candidate, hg.term, lt, li, hlt, hli,
          logOk_adoptTerm n t lt li ▸ hok⟩
      · split at hd
        · have htasks : tasks = _ := (congrArg Prod.snd (Except.ok.inj hd)).symm
          rw [htasks] at h
          cases (checkElectionWinner_tasks h).1
        · split at hd <;> (cases hd; cases h)

/-! ## §2 Term and vote -/

/-- The node's record of its vote: the term and the vote in it. -/
def RaftNode.ballot (n : RaftNode) : Ballot Rat Json :=
  ⟨n.currentTerm, match n.votedFor with
    | .null => none
    | v => some v⟩

theorem ballot_vote_of_null {n : RaftNode} (h : n.votedFor = .null) : n.ballot.vote = none := by
  simp [RaftNode.ballot, h]

theorem ballot_vote_of_ne_null {n : RaftNode} (h : n.votedFor ≠ .null) :
    n.ballot.vote = some n.votedFor := by
  unfold RaftNode.ballot
  cases hv : n.votedFor <;> simp_all

theorem votedFor_of_ballot_vote {n : RaftNode} {v : Json} (h : n.ballot.vote = some v) :
    n.votedFor = v := by
  unfold RaftNode.ballot at h
  cases hv : n.votedFor <;> simp_all

theorem ballot_vote_str {n : RaftNode} {s : String} (h : n.votedFor = .str s) :
    n.ballot.vote = some (.str s) := by
  simp [RaftNode.ballot, h]

/-- Of two records of one voter, those of one term have the same vote. -/
theorem vote_unique_of_ordered {n m : RaftNode} (h : n.ballot ≤ m.ballot ∨ m.ballot ≤ n.ballot)
    (ht : n.currentTerm = m.currentTerm) {s s' : String} (hs : n.votedFor = .str s)
    (hs' : m.votedFor = .str s') : s = s' :=
  Json.str.inj (Ballot.vote_unique h ht (ballot_vote_str hs) (ballot_vote_str hs'))

theorem ballot_adoptTerm (n : RaftNode) (t : Rat) : n.ballot ≤ (n.adoptTerm t).ballot := by
  unfold RaftNode.adoptTerm
  split
  · next h => exact Ballot.le_of_term_lt h
  · exact le_rfl

theorem ballot_checkElectionWinner (n : RaftNode) :
    n.checkElectionWinner.1.ballot = n.ballot := by
  unfold RaftNode.checkElectionWinner
  split
  · rfl
  · split <;> rfl

theorem ballot_handleVoteResponse (n : RaftNode) (msg : Obj) :
    (n.handleVoteResponse msg).1.ballot = n.ballot := by
  unfold RaftNode.handleVoteResponse
  split
  · rw [ballot_checkElectionWinner]; rfl
  · rw [ballot_checkElectionWinner]

theorem ballot_startElection (n : RaftNode) : n.ballot ≤ n.startElection.1.ballot :=
  Ballot.le_of_term_lt (show n.currentTerm < n.currentTerm + 1 by linarith)

/-- A message names its candidate, if any, by a string. -/
def stringCandidate (msg : Obj) : Bool :=
  match candidateId msg with
  | .ok c => (c matches .str _)
  | .error _ => true

theorem exists_str_of_stringCandidate {msg : Obj} {c : Json} (h : stringCandidate msg = true)
    (hc : candidateId msg = .ok c) : ∃ s, c = .str s := by
  simp only [stringCandidate, hc] at h
  cases c with
  | str s => exact ⟨s, rfl⟩
  | _ => cases h

/-- A granted vote fills in a missing vote or repeats the one given. -/
theorem ballot_granted {m : RaftNode} {c : Json} (hc : ∃ s, c = .str s)
    (hv : m.votedFor = .null ∨ m.votedFor.pyEq c = true) :
    m.ballot ≤ ({ m with votedFor := c } : RaftNode).ballot := by
  obtain ⟨s, rfl⟩ := hc
  refine Or.inr ⟨rfl, ?_⟩
  rcases hv with hv | hv
  · exact Or.inl (ballot_vote_of_null hv)
  · right
    have hv' := pyEq_str_right.mp hv
    rw [ballot_vote_str hv', ballot_vote_str rfl]

/-- No message lowers the ballot. -/
theorem MessageEffect.ballot_le {n : RaftNode} {msg : Obj} {r : Handled}
    (h : MessageEffect n msg r) (hc : stringCandidate msg = true) : n.ballot ≤ r.node.ballot := by
  cases h with
  | badTerm e _ => exact le_rfl
  | badField t e _ => exact ballot_adoptTerm n t
  | ignored t _ => exact ballot_adoptTerm n t
  | refused t s _ => exact ballot_adoptTerm n t
  | granted t c s _ hcand _ hv =>
    exact (ballot_adoptTerm n t).trans (ballot_granted (exists_str_of_stringCandidate hc hcand) hv)
  | response t _ _ =>
    rw [ballot_handleVoteResponse]
    exact ballot_adoptTerm n t
  | heartbeat t _ => exact ballot_adoptTerm n t

theorem le_currentTerm_adoptTerm (n : RaftNode) (t : Rat) :
    n.currentTerm ≤ (n.adoptTerm t).currentTerm := Ballot.term_le (ballot_adoptTerm n t)

/-- No message lowers the term, whatever it names as candidate. -/
theorem MessageEffect.term_le {n : RaftNode} {msg : Obj} {r : Handled}
    (h : MessageEffect n msg r) : n.currentTerm ≤ r.node.currentTerm := by
  cases h with
  | badTerm e _ => exact le_rfl
  | response t _ _ =>
    have hterm := congrArg Ballot.term (ballot_handleVoteResponse (n.adoptTerm t) msg)
    exact (le_currentTerm_adoptTerm n t).trans_eq hterm.symm
  | badField t e _ => exact le_currentTerm_adoptTerm n t
  | ignored t _ => exact le_currentTerm_adoptTerm n t
  | refused t s _ => exact le_currentTerm_adoptTerm n t
  | granted t c s _ _ _ _ => exact le_currentTerm_adoptTerm n t
  | heartbeat t _ => exact le_currentTerm_adoptTerm n t

theorem ballot_submitCommand (n : RaftNode) (command : String) (data : Obj) :
    (n.submitCommand command data).1.ballot = n.ballot := by
  unfold RaftNode.submitCommand
  split <;> rfl

/-! ## §3 Role and votes received -/

theorem adoptTerm_of_not_follower {n : RaftNode} {t : Rat}
    (h : (n.adoptTerm t).state ≠ .follower) : n.adoptTerm t = n ∧ t ≤ n.currentTerm := by
  unfold RaftNode.adoptTerm at h ⊢
  split at h
  · exact absurd rfl h
  · next hle => exact ⟨if_neg hle, not_lt.mp hle⟩

/-- The message makes a candidate count a vote it has not counted. -/
def RaftNode.countsVote (n : RaftNode) (msg : Obj) : Bool :=
  n.state == .candidate && (Obj.get msg "type" (.str "")).pyEq (.str "vote_response") &&
    (Obj.get msg "term" (.int 0)).num?.any (fun t => decide (t ≤ n.currentTerm)) && n.newVote msg

/-- The votes received are unchanged, or one more is counted. -/
def Tally (n : RaftNode) (msg : Obj) (n' : RaftNode) : Prop :=
  n'.votesReceived = n.votesReceived ∨
    (n.countsVote msg = true ∧
      n'.votesReceived = n.votesReceived ++ [Obj.get msg "sender_id" (.str "")])

theorem checkElectionWinner_frame (n : RaftNode) :
    n.checkElectionWinner.1.votesReceived = n.votesReceived ∧
    n.checkElectionWinner.1.currentTerm = n.currentTerm ∧
    n.checkElectionWinner.1.nodeId = n.nodeId ∧
    n.checkElectionWinner.1.peers = n.peers ∧ n.checkElectionWinner.1.port = n.port := by
  unfold RaftNode.checkElectionWinner
  split
  · exact ⟨rfl, rfl, rfl, rfl, rfl⟩
  · split <;> exact ⟨rfl, rfl, rfl, rfl, rfl⟩

/-- The winner check leaves a role alone or makes a candidate with a
majority of the votes leader. -/
theorem checkElectionWinner_state (n : RaftNode) :
    n.checkElectionWinner.1.state = n.state ∨
      (n.state = .candidate ∧ n.checkElectionWinner.1.state = .leader ∧
        n.majority ≤ n.votesReceived.length) := by
  unfold RaftNode.checkElectionWinner
  split
  · exact Or.inl rfl
  · next hs =>
    split
    · next hm => exact Or.inr ⟨not_not.mp hs, rfl, hm⟩
    · exact Or.inl rfl

/-- How a node that handles a message comes out in a role other than
follower: its term is the same, and it was leader, or it was candidate
and has counted what it counted. -/
def RoleKept (n : RaftNode) (msg : Obj) (n' : RaftNode) : Prop :=
  n'.currentTerm = n.currentTerm ∧
    ((n.state = .leader ∧ n'.state = .leader) ∨
      (n.state = .candidate ∧ Tally n msg n' ∧
        (n'.state = .leader → n'.majority ≤ n'.votesReceived.length)))

theorem roleKept_of_same {n m : RaftNode} {msg : Obj} (hst : m.state = n.state)
    (hvotes : m.votesReceived = n.votesReceived) (hterm : m.currentTerm = n.currentTerm)
    (hm : m.state ≠ .follower) : RoleKept n msg m := by
  refine ⟨hterm, ?_⟩
  cases hn : n.state with
  | follower => exact absurd (hst.trans hn) hm
  | leader => exact Or.inl ⟨rfl, hst.trans hn⟩
  | candidate =>
    refine Or.inr ⟨rfl, Or.inl hvotes, ?_⟩
    intro hl
    rw [hst, hn] at hl
    cases hl

/-- The votes after `_handle_vote_response`, before the winner check. -/
def RaftNode.withVote (n : RaftNode) (msg : Obj) : RaftNode :=
  if n.newVote msg then
    { n with votesReceived := n.votesReceived ++ [Obj.get msg "sender_id" (.str "")] }
  else n

theorem handleVoteResponse_eq (n : RaftNode) (msg : Obj) :
    n.handleVoteResponse msg = (n.withVote msg).checkElectionWinner := rfl

theorem withVote_frame (n : RaftNode) (msg : Obj) :
    (n.withVote msg).state = n.state ∧ (n.withVote msg).currentTerm = n.currentTerm ∧
    (n.withVote msg).nodeId = n.nodeId ∧ (n.withVote msg).peers = n.peers ∧
    (n.withVote msg).port = n.port := by
  unfold RaftNode.withVote
  split <;> exact ⟨rfl, rfl, rfl, rfl, rfl⟩

/-- A string that is not counted yet keeps the votes different. -/
theorem nodup_withSender {n : RaftNode} {msg : Obj} {s : String} (h : n.votesReceived.Nodup)
    (hnew : n.newVote msg = true) (hs : Obj.get msg "sender_id" (.str "") = .str s) :
    (n.votesReceived ++ [Obj.get msg "sender_id" (.str "")]).Nodup := by
  simp only [RaftNode.newVote, hs, Bool.and_eq_true, Bool.not_eq_true'] at hnew
  rw [hs]
  refine List.nodup_append.mpr ⟨h, List.nodup_singleton _, ?_⟩
  rintro v hv w hw rfl
  rw [List.mem_singleton.mp hw] at hv
  exact not_mem_of_isIn_str hnew.2 hv

theorem log_withVote (n : RaftNode) (msg : Obj) : (n.withVote msg).log = n.log := by
  unfold RaftNode.withVote
  split <;> rfl

theorem log_checkElectionWinner (n : RaftNode) : n.checkElectionWinner.1.log = n.log := by
  unfold RaftNode.checkElectionWinner
  split
  · rfl
  · split <;> rfl

theorem handleVoteResponse_not_follower {n : RaftNode} {msg : Obj}
    (hs : (n.handleVoteResponse msg).1.state ≠ .follower) : n.state ≠ .follower := by
  intro hn
  rw [handleVoteResponse_eq] at hs
  rcases checkElectionWinner_state (n.withVote msg) with h | ⟨h, _, _⟩
  · exact hs (h.trans ((withVote_frame n msg).1.trans hn))
  · rw [(withVote_frame n msg).1, hn] at h
    cases h

theorem withVote_tally {n : RaftNode} {msg : Obj} {t : Rat} (hn : n.state = .candidate)
    (ht : msgTerm msg = .ok t) (hle : t ≤ n.currentTerm)
    (hty : Obj.get msg "type" (.str "") = .str "vote_response") :
    (n.withVote msg).votesReceived = n.votesReceived ∨
      (n.countsVote msg = true ∧ (n.withVote msg).votesReceived =
        n.votesReceived ++ [Obj.get msg "sender_id" (.str "")]) := by
  unfold RaftNode.withVote
  split
  · next hv =>
    refine Or.inr ⟨?_, rfl⟩
    simp [RaftNode.countsVote, hn, hty, num_eq_ok ht, hle, hv]
  · exact Or.inl rfl

theorem handleVoteResponse_role {n : RaftNode} {msg : Obj} {t : Rat} (ht : msgTerm msg = .ok t)
    (hle : t ≤ n.currentTerm) (hty : Obj.get msg "type" (.str "") = .str "vote_response")
    (hs : (n.handleVoteResponse msg).1.state ≠ .follower) :
    RoleKept n msg (n.handleVoteResponse msg).1 := by
  have hn := handleVoteResponse_not_follower hs
  obtain ⟨hst, hterm, _, _, _⟩ := withVote_frame n msg
  obtain ⟨hvotes, hcterm, _, hpeers, _⟩ := checkElectionWinner_frame (n.withVote msg)
  rw [handleVoteResponse_eq] at hs ⊢
  refine ⟨hcterm.trans hterm, ?_⟩
  rcases checkElectionWinner_state (n.withVote msg) with h | ⟨hc, hl, hmaj⟩
  · cases hrole : n.state with
    | follower => exact absurd hrole hn
    | leader => exact Or.inl ⟨rfl, h.trans (hst.trans hrole)⟩
    | candidate =>
      refine Or.inr ⟨rfl, ?_, ?_⟩
      · rw [Tally, hvotes]
        exact withVote_tally hrole ht hle hty
      · intro hlead
        rw [h, hst, hrole] at hlead
        cases hlead
  · have hrole : n.state = .candidate := hst ▸ hc
    refine Or.inr ⟨hrole, ?_, ?_⟩
    · rw [Tally, hvotes]
      exact withVote_tally hrole ht hle hty
    · intro _
      rw [hvotes]
      simpa [RaftNode.majority, hpeers] using hmaj

/-- How a node can hold a role other than follower after a message. -/
theorem MessageEffect.role {n : RaftNode} {msg : Obj} {r : Handled} (h : MessageEffect n msg r)
    (hs : r.node.state ≠ .follower) : RoleKept n msg r.node := by
  have hkeep : ∀ (m : RaftNode) (t : Rat), m.state = (n.adoptTerm t).state →
      m.votesReceived = (n.adoptTerm t).votesReceived →
      m.currentTerm = (n.adoptTerm t).currentTerm → m.state ≠ .follower → RoleKept n msg m := by
    intro m t hst hvotes hterm hm
    have had := (adoptTerm_of_not_follower (n := n) (t := t) (hst ▸ hm)).1
    rw [had] at hst hvotes hterm
    exact roleKept_of_same hst hvotes hterm hm
  cases h with
  | badTerm e _ => exact roleKept_of_same rfl rfl rfl hs
  | badField t e _ => exact hkeep _ t rfl rfl rfl hs
  | ignored t _ => exact hkeep _ t rfl rfl rfl hs
  | refused t s _ => exact hkeep _ t rfl rfl rfl hs
  | granted t c s _ _ _ _ => exact hkeep _ t rfl rfl rfl hs
  | heartbeat t _ => exact absurd rfl hs
  | response t ht hty =>
    obtain ⟨had, hle⟩ := adoptTerm_of_not_follower (handleVoteResponse_not_follower hs)
    simp only [had] at hs ⊢
    exact handleVoteResponse_role ht hle hty hs

/-- The role a task's message announces. -/
def SendTask.role : SendTask → Option RaftState
  | .requestVote _ _ _ => some .candidate
  | .heartbeats => some .leader
  | .heartbeat _ => some .leader
  | .voteResponse _ _ => none

/-- A message makes the node announce a role only by winning an election. -/
theorem MessageEffect.role_task {n : RaftNode} {msg : Obj} {r : Handled}
    (h : MessageEffect n msg r) {k : SendTask} (hk : k ∈ r.spawned) {role : RaftState}
    (hr : k.role = some role) : role = .leader ∧ r.node.state = .leader := by
  cases h with
  | badTerm e _ => cases hk
  | badField t e _ => cases hk
  | ignored t _ => cases hk
  | refused t s _ => rw [List.mem_singleton.mp hk] at hr; cases hr
  | granted t c s _ _ _ _ => rw [List.mem_singleton.mp hk] at hr; cases hr
  | response t _ _ =>
    obtain ⟨rfl, hl⟩ := checkElectionWinner_tasks hk
    exact ⟨(Option.some.inj hr).symm, hl⟩
  | heartbeat t _ => cases hk

/-! ## §4 What no call changes -/

/-- The identity of a node: id, port and peers. -/
def SameIdentity (n n' : RaftNode) : Prop :=
  n'.nodeId = n.nodeId ∧ n'.port = n.port ∧ n'.peers = n.peers

theorem sameIdentity_adoptTerm (n : RaftNode) (t : Rat) : SameIdentity n (n.adoptTerm t) := by
  unfold RaftNode.adoptTerm
  split <;> exact ⟨rfl, rfl, rfl⟩

theorem MessageEffect.sameIdentity {n : RaftNode} {msg : Obj} {r : Handled}
    (h : MessageEffect n msg r) : SameIdentity n r.node := by
  cases h with
  | badTerm e _ => exact ⟨rfl, rfl, rfl⟩
  | response t _ _ =>
    obtain ⟨hid, hport, hpeers⟩ := sameIdentity_adoptTerm n t
    obtain ⟨_, _, hid₁, hpeers₁, hport₁⟩ := withVote_frame (n.adoptTerm t) msg
    obtain ⟨_, _, hid₂, hpeers₂, hport₂⟩ :=
      checkElectionWinner_frame ((n.adoptTerm t).withVote msg)
    exact ⟨hid₂.trans (hid₁.trans hid), hport₂.trans (hport₁.trans hport),
      hpeers₂.trans (hpeers₁.trans hpeers)⟩
  | badField t e _ => exact sameIdentity_adoptTerm n t
  | ignored t _ => exact sameIdentity_adoptTerm n t
  | refused t s _ => exact sameIdentity_adoptTerm n t
  | granted t c s _ _ _ _ => exact sameIdentity_adoptTerm n t
  | heartbeat t _ => exact sameIdentity_adoptTerm n t

theorem sameIdentity_submitCommand (n : RaftNode) (command : String) (data : Obj) :
    SameIdentity n (n.submitCommand command data).1 := by
  unfold RaftNode.submitCommand
  split <;> exact ⟨rfl, rfl, rfl⟩

theorem MessageEffect.log {n : RaftNode} {msg : Obj} {r : Handled} (h : MessageEffect n msg r) :
    r.node.log = n.log := by
  cases h with
  | badTerm e _ => rfl
  | response t _ _ =>
    rw [handleVoteResponse_eq, (log_checkElectionWinner _).trans (log_withVote _ msg)]
    exact log_adoptTerm n t
  | badField t e _ => exact log_adoptTerm n t
  | ignored t _ => exact log_adoptTerm n t
  | refused t s _ => exact log_adoptTerm n t
  | granted t c s _ _ _ _ => exact log_adoptTerm n t
  | heartbeat t _ => exact log_adoptTerm n t

/-! ## §5 The fields of the messages a node builds -/

section Fields

variable (n : RaftNode) (i : Nat) (t : Rat) (granted : Bool) (d : Json)

@[simp] theorem type_requestVoteMsg :
    Obj.get (n.requestVoteMsg i t) "type" d = .str "request_vote" := rfl
@[simp] theorem type_heartbeatMsg : Obj.get n.heartbeatMsg "type" d = .str "heartbeat" := rfl
@[simp] theorem type_voteResponseMsg :
    Obj.get (n.voteResponseMsg granted) "type" d = .str "vote_response" := rfl

@[simp] theorem term_requestVoteMsg :
    Obj.get (n.requestVoteMsg i t) "term" d = .ofRat n.currentTerm := rfl
@[simp] theorem term_heartbeatMsg :
    Obj.get n.heartbeatMsg "term" d = .ofRat n.currentTerm := rfl
@[simp] theorem term_voteResponseMsg :
    Obj.get (n.voteResponseMsg granted) "term" d = .ofRat n.currentTerm := rfl

@[simp] theorem granted_voteResponseMsg :
    Obj.get (n.voteResponseMsg granted) "granted" d = .bool granted := rfl

/-- Every message of a node names a string as candidate, if any. -/
theorem stringCandidate_requestVoteMsg : stringCandidate (n.requestVoteMsg i t) = true := rfl
theorem stringCandidate_heartbeatMsg : stringCandidate n.heartbeatMsg = true := rfl
theorem stringCandidate_voteResponseMsg :
    stringCandidate (n.voteResponseMsg granted) = true := rfl

end Fields

/-- A message has been built by one of the nodes `P` holds of. -/
inductive BuiltBy (P : RaftNode → Prop) : Obj → Prop where
  | requestVote (n : RaftNode) (i : Nat) (t : Rat) : P n → BuiltBy P (n.requestVoteMsg i t)
  | heartbeat (n : RaftNode) : P n → BuiltBy P n.heartbeatMsg
  | voteResponse (n : RaftNode) (granted : Bool) : P n → BuiltBy P (n.voteResponseMsg granted)

/-- The packets a task writes when it is resumed at the node `n`. -/
inductive SendTask.Writes (n : RaftNode) : SendTask → Packet → Prop where
  | requestVote (peer : String) (i : Nat) (t : Rat) (port : Nat) :
      Writes n (.requestVote peer i t) ⟨port, n.requestVoteMsg i t⟩
  | heartbeat (peer : String) (port : Nat) : Writes n (.heartbeat peer) ⟨port, n.heartbeatMsg⟩
  | voteResponse (receiver : Json) (granted : Bool) (port : Nat) :
      receiverPort receiver = some port →
      Writes n (.voteResponse receiver granted) ⟨port, n.voteResponseMsg granted⟩

theorem SendTask.writes {n : RaftNode} {k : SendTask} {pkt : Packet}
    (h : pkt ∈ (k.resume n).1) : k.Writes n pkt := by
  cases k with
  | heartbeats => cases h
  | requestVote peer i t =>
    simp only [SendTask.resume, Option.mem_toList, Option.map_eq_some_iff] at h
    obtain ⟨port, _, rfl⟩ := h
    exact .requestVote peer i t port
  | heartbeat peer =>
    simp only [SendTask.resume, Option.mem_toList, Option.map_eq_some_iff] at h
    obtain ⟨port, _, rfl⟩ := h
    exact .heartbeat peer port
  | voteResponse receiver granted =>
    simp only [SendTask.resume, Option.mem_toList, Option.map_eq_some_iff] at h
    obtain ⟨port, hport, rfl⟩ := h
    exact .voteResponse receiver granted port hport

theorem SendTask.builtBy {n : RaftNode} {k : SendTask} {pkt : Packet}
    (h : pkt ∈ (k.resume n).1) : BuiltBy (· = n) pkt.msg := by
  cases SendTask.writes h with
  | requestVote peer i t port => exact .requestVote n i t rfl
  | heartbeat peer port => exact .heartbeat n rfl
  | voteResponse receiver granted port _ => exact .voteResponse n granted rfl

theorem BuiltBy.stringCandidate {P : RaftNode → Prop} {msg : Obj} (h : BuiltBy P msg) :
    stringCandidate msg = true := by
  cases h with
  | requestVote n i t _ => exact stringCandidate_requestVoteMsg n i t
  | heartbeat n _ => exact stringCandidate_heartbeatMsg n
  | voteResponse n granted _ => exact stringCandidate_voteResponseMsg n granted

/-! ## §6 Addresses -/

theorem splitColon1_address (port : Nat) : splitColon1 (address port) = Nat.toDigits 10 port := by
  have hdigits : ∀ c ∈ Nat.toDigits 10 port, decide (c ≠ ':') = true := by
    intro c hc
    have hd := Nat.isDigit_of_mem_toDigits (by decide) (by decide) hc
    rw [decide_eq_true_eq]
    rintro rfl
    exact absurd hd (by decide)
  have hlist : (address port).toList = "127.0.0.1:".toList ++ Nat.toDigits 10 port := by
    simp [address, Nat.toList_repr]
  unfold splitColon1
  rw [hlist]
  exact List.takeWhile_eq_self_iff.mpr hdigits

/-- A node's own address leads back to its port. -/
theorem peerPort_address (port : Nat) : peerPort (address port) = some port := by
  have hcolon : ':' ∈ (address port).toList := by simp [address]
  unfold peerPort
  rw [if_pos hcolon, splitColon1_address, intOf?_toDigits]
  rfl

end SyncSystem.Raft
