/-
SyncSystem.Raft.StaleMessages — what a message of an old term does.

Only the first lines of `handle_message` compare terms for all types,
and only for a higher one. `_handle_vote_request` looks again and is
inert on an old request; the other two handlers are not: an old granted
vote is counted, and an old heartbeat makes any node a follower
(`stale_heartbeat_demotes`). `stale_inert_iff` says when an old message
changes nothing.
-/
import SyncSystem.Raft.TermTheorems

namespace SyncSystem.Raft

open SyncSystem.Python

/-- The fields that a message of an old term must leave alone. -/
structure Unchanged (n n' : RaftNode) : Prop where
  state : n'.state = n.state
  currentTerm : n'.currentTerm = n.currentTerm
  votedFor : n'.votedFor = n.votedFor
  votesReceived : n'.votesReceived = n.votesReceived
  leaderId : n'.leaderId = n.leaderId
  log : n'.log = n.log

theorem unchanged_self (n : RaftNode) : Unchanged n n := ⟨rfl, rfl, rfl, rfl, rfl, rfl⟩

/-- A `vote_response` that gives no new vote, to a node that has not won
already. -/
def NoVote (n : RaftNode) (msg : Obj) : Prop :=
  n.newVote msg = false ∧ ¬ (n.state = .candidate ∧ n.majority ≤ n.votesReceived.length)

/-- A heartbeat of the leader that the node follows already. -/
def FromLeader (n : RaftNode) (msg : Obj) : Prop :=
  n.state = .follower ∧ Obj.get msg "sender_id" (Obj.get msg "sender" (.str "")) = n.leaderId

/-- Nothing is made of the message: it gives no vote, and it is from no
other leader. -/
structure Harmless (n : RaftNode) (msg : Obj) : Prop where
  voteResponse : Obj.get msg "type" (.str "") = .str "vote_response" → NoVote n msg
  heartbeat : Obj.get msg "type" (.str "") = .str "heartbeat" → FromLeader n msg
  appendEntries : Obj.get msg "type" (.str "") = .str "append_entries" → FromLeader n msg

/-! ## The handlers -/

theorem adoptTerm_of_le {n : RaftNode} {t : Rat} (h : t ≤ n.currentTerm) : n.adoptTerm t = n :=
  if_neg (not_lt.mpr h)

/-- The term first, then the handler of the message type, from which
nothing remains if it raises. -/
theorem handleMessage_node {n : RaftNode} {msg : Obj} {t : Rat} (ht : msgTerm msg = .ok t) :
    (n.handleMessage msg).node =
      ((n.adoptTerm t).dispatch msg).toOption.elim (n.adoptTerm t) Prod.fst := by
  rw [msgTerm] at ht
  simp only [RaftNode.handleMessage, ht]
  cases (n.adoptTerm t).dispatch msg <;> rfl

/-- A message without a higher term goes straight to its handler. -/
theorem handleMessage_of_le {n : RaftNode} {msg : Obj} {t : Rat} (ht : msgTerm msg = .ok t)
    (hle : t ≤ n.currentTerm) :
    (n.handleMessage msg).node = (n.dispatch msg).toOption.elim n Prod.fst := by
  rw [handleMessage_node ht, adoptTerm_of_le hle]

/-- The message types and their handlers. -/
theorem dispatch_cases (n : RaftNode) (msg : Obj) :
    (Obj.get msg "type" (.str "") = .str "request_vote" ∧
      n.dispatch msg = n.handleVoteRequest msg) ∨
    (Obj.get msg "type" (.str "") = .str "vote_response" ∧
      n.dispatch msg = .ok (n.handleVoteResponse msg)) ∨
    ((Obj.get msg "type" (.str "") = .str "heartbeat" ∨
        Obj.get msg "type" (.str "") = .str "append_entries") ∧
      n.dispatch msg = .ok (n.handleHeartbeat msg, [])) ∨
    ((∀ ty ∈ ["vote_response", "heartbeat", "append_entries"],
        Obj.get msg "type" (.str "") ≠ .str ty) ∧ n.dispatch msg = .ok (n, [])) := by
  simp only [RaftNode.dispatch]
  split
  · next hty => exact Or.inl ⟨pyEq_str_right.mp hty, rfl⟩
  · split
    · next hty => exact Or.inr (Or.inl ⟨pyEq_str_right.mp hty, rfl⟩)
    · next hresp =>
      split
      · next hty =>
        rw [Bool.or_eq_true, pyEq_str_right, pyEq_str_right] at hty
        exact Or.inr (Or.inr (Or.inl ⟨hty, rfl⟩))
      · next hbeat =>
        rw [Bool.or_eq_true, pyEq_str_right, pyEq_str_right, not_or] at hbeat
        rw [pyEq_str_right] at hresp
        exact Or.inr (Or.inr (Or.inr ⟨by simp [hresp, hbeat], rfl⟩))

/-- `_handle_vote_request` rejects an old term by itself. -/
theorem handleVoteRequest_of_lt {n : RaftNode} {msg : Obj} {t : Rat} (ht : msgTerm msg = .ok t)
    (hlt : t < n.currentTerm) : (n.handleVoteRequest msg).toOption.elim n Prod.fst = n := by
  cases h : n.handleVoteRequest msg with
  | error e => rfl
  | ok r =>
    rcases handleVoteRequest_cases h with ⟨hn, _⟩ | ⟨c, t', _, _, ht', hok, _, _⟩
    · exact hn
    · obtain rfl : t = t' := Except.ok.inj (ht.symm.trans ht')
      exact absurd (termOk_of_le hlt.le hok).1 hlt.ne'

theorem unchanged_handleVoteResponse {n : RaftNode} {msg : Obj} :
    Unchanged n (n.handleVoteResponse msg).1 ↔ NoVote n msg := by
  rw [handleVoteResponse_eq]
  constructor
  · intro h
    have hvotes := (checkElectionWinner_frame (n.withVote msg)).1.symm.trans h.votesReceived
    have hnew : n.newVote msg = false := by
      by_contra hv
      rw [RaftNode.withVote, if_pos (by simpa using hv)] at hvotes
      simp at hvotes
    have hsame : n.withVote msg = n := by simp [RaftNode.withVote, hnew]
    refine ⟨hnew, ?_⟩
    rintro ⟨hc, hm⟩
    have hstate := h.state
    rw [hsame] at hstate
    simp [RaftNode.checkElectionWinner, hc, hm] at hstate
  · rintro ⟨hnew, hwon⟩
    have hsame : n.withVote msg = n := by simp [RaftNode.withVote, hnew]
    have hcheck : n.checkElectionWinner.1 = n := by
      unfold RaftNode.checkElectionWinner
      split
      · rfl
      · next hc => rw [if_neg (fun hm => hwon ⟨not_not.mp hc, hm⟩)]
    rw [hsame, hcheck]
    exact unchanged_self n

theorem unchanged_handleHeartbeat {n : RaftNode} {msg : Obj} :
    Unchanged n (n.handleHeartbeat msg) ↔ FromLeader n msg :=
  ⟨fun h => ⟨h.state.symm, h.leaderId⟩, fun h => ⟨h.1.symm, rfl, rfl, rfl, h.2, rfl⟩⟩

/-! ## Messages of an old term -/

/-- **A message of an old term changes nothing** exactly if it gives no
vote, when it is a `vote_response`, and names the leader that the node
follows already, when it is a heartbeat or `append_entries`. -/
theorem stale_inert_iff {n : RaftNode} {msg : Obj} {t : Rat} (ht : msgTerm msg = .ok t)
    (hstale : t < n.currentTerm) : Unchanged n (n.handleMessage msg).node ↔ Harmless n msg := by
  rw [handleMessage_of_le ht hstale.le]
  rcases dispatch_cases n msg with ⟨hty, hd⟩ | ⟨hty, hd⟩ | ⟨hty, hd⟩ | ⟨hty, hd⟩ <;> rw [hd]
  · rw [handleVoteRequest_of_lt ht hstale]
    exact iff_of_true (unchanged_self n) ⟨by simp [hty], by simp [hty], by simp [hty]⟩
  · refine unchanged_handleVoteResponse.trans ⟨fun h => ?_, fun h => h.voteResponse hty⟩
    exact ⟨fun _ => h, by simp [hty], by simp [hty]⟩
  · refine unchanged_handleHeartbeat.trans ⟨fun h => ?_, fun h => ?_⟩
    · refine ⟨?_, fun _ => h, fun _ => h⟩
      rcases hty with hty | hty <;> simp [hty]
    · exact hty.elim h.heartbeat h.appendEntries
  · refine iff_of_true (unchanged_self n) ⟨?_, ?_, ?_⟩ <;>
      exact fun h => absurd h (hty _ (by simp))

/-- A refused request of term 1, at a node that has voted in term 3. -/
theorem stale_inert_iff_grantRun :
    ∃ c, RaftProcess.machine.Leads WellTyped ([], RaftProcess.init "n1" [] 8001) c ∧
      c.2.node.currentTerm = 3 ∧
      Unchanged c.2.node (c.2.node.handleMessage
        [("type", .str "request_vote"), ("term", .int 1), ("sender_id", .str "n3")]).node := by
  obtain ⟨c, hc, hp⟩ := Machine.exists_leads_of_exec RaftProcess.machine WellTyped
    ([], RaftProcess.init "n1" [] 8001) grantRun (fun c => decide (c.2.node.currentTerm = 3))
    (by decide +kernel)
  have hterm := of_decide_eq_true hp
  have hstale : (1 : Rat) < c.2.node.currentTerm := by rw [hterm]; norm_num
  refine ⟨c, hc, hterm, (stale_inert_iff rfl hstale).mpr ⟨?_, ?_, ?_⟩⟩ <;>
    exact fun hty => absurd (Json.str.inj hty) (by decide)

/-- `n1` is leader of term 1. -/
def leaderRun : List NodeAction :=
  [.electionTimeout,
   .receive [("type", .str "vote_response"), ("term", .int 1), ("sender_id", .str "n2"),
     ("granted", .bool true)]]

/-- A heartbeat of term 0. -/
def staleHeartbeat : Obj :=
  [("type", .str "heartbeat"), ("term", .int 0), ("sender_id", .str "n3")]

/-- It demotes the leader of term 1. -/
theorem stale_heartbeat_demotes :
    ∃ c, RaftProcess.machine.Leads WellTyped
        ([], RaftProcess.init "n1" ["127.0.0.1:8002"] 8001) c ∧
      ∃ msg t, Obj.get msg "type" (.str "") = .str "heartbeat" ∧ msgTerm msg = .ok t ∧
        t < c.2.node.currentTerm ∧ ¬ Unchanged c.2.node (c.2.node.handleMessage msg).node := by
  obtain ⟨c, hc, hp⟩ := Machine.exists_leads_of_exec RaftProcess.machine WellTyped
    ([], RaftProcess.init "n1" ["127.0.0.1:8002"] 8001) leaderRun
    (fun c => decide (c.2.node.state = .leader ∧ 0 < c.2.node.currentTerm ∧
      (c.2.node.handleMessage staleHeartbeat).node.state = .follower)) (by decide +kernel)
  obtain ⟨hleader, hterm, hdemoted⟩ := of_decide_eq_true hp
  refine ⟨c, hc, staleHeartbeat, 0, rfl, rfl, hterm, fun hsame => ?_⟩
  have hstate := hsame.state
  rw [hdemoted, hleader] at hstate
  cases hstate

end SyncSystem.Raft
