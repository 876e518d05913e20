/-
SyncSystem.Raft.RejectedMessages — what a message leaves behind when
`handle_message` raises.

The comparison of the terms may raise first, and then nothing has been
assigned. A higher term is then adopted before any handler is called, by
§5.1. The handlers raise before they assign anything:
`_handle_vote_request` on what it cannot evaluate
(`handleVoteRequest_raises`), and it and `_handle_vote_response` on what
they cannot print. So a rejected message changes nothing, or has only
moved the node to its term (`rejected_unchanged_unless_stepped_up`).

`print` raises a `ValueError` on a `str` with a lone surrogate that the
output's encoding does not take (in a container it is escaped) and on an
`int` of more than 4300 digits, and a `RecursionError` on what is nested
too deeply. Which values these are is a parameter here (`unprintable`).
No Lean `String` has a lone surrogate; of a message's strings the handlers
ask only which are equal and which are empty, so such a `str` is written
as any string that nothing else is called.
-/
import SyncSystem.Raft.StaleMessages

namespace SyncSystem.Raft

open SyncSystem.Python

/-! ## Which requests raise -/

/-- `data` is no dict, or what it has as last term is no number, or that
is the term of the voter's last entry and the last index is no number. -/
def RaftNode.cannotEvaluate (n : RaftNode) (msg : Obj) : Bool :=
  match Obj.get msg "data" (.obj []) with
  | .obj data =>
      match (Obj.get data "last_log_term" (.int 0)).num? with
      | none => true
      | some t => t == n.lastTerm && !(Obj.get data "last_log_index" (.int 0)).isNumber
  | _ => true

/-- What the handlers print of a message, before they assign anything. -/
def announced (msg : Obj) : List Json :=
  let msgType := Obj.get msg "type" (.str "")
  if msgType.pyEq (.str "request_vote") then
    match Obj.get msg "data" (.obj []) with
    | .obj data => [Obj.get data "candidate_id" (.str ""), Obj.get msg "term" (.int 0)]
    -- `.get` has raised already
    | _ => []
  else if msgType.pyEq (.str "vote_response") then
    [Obj.get msg "sender_id" (.str ""), Obj.get msg "granted" (.bool false)]
  else []

/-- `dispatch`, where `print` raises on an `unprintable` value. -/
def RaftNode.dispatchPrinting (unprintable : Json → Bool) (n : RaftNode) (msg : Obj) :
    Except PyError (RaftNode × List SendTask) :=
  if (announced msg).any unprintable then .error .valueError else n.dispatch msg

/-- `handle_message`, where `print` raises on an `unprintable` value. -/
def RaftNode.handleMessagePrinting (unprintable : Json → Bool) (n : RaftNode) (msg : Obj) :
    Handled :=
  match (Obj.get msg "term" (.int 0)).num with
  | .error e => ⟨n, [], some e⟩
  | .ok term =>
      match (n.adoptTerm term).dispatchPrinting unprintable msg with
      | .ok (n', tasks) => ⟨n', tasks, none⟩
      | .error e => ⟨n.adoptTerm term, [], some e⟩

/-- If everything can be printed, it is `handleMessage`. -/
theorem handleMessagePrinting_of_printable {unprintable : Json → Bool} (n : RaftNode) {msg : Obj}
    (h : (announced msg).any unprintable = false) :
    n.handleMessagePrinting unprintable msg = n.handleMessage msg := by
  have hdispatch (n : RaftNode) : n.dispatchPrinting unprintable msg = n.dispatch msg := by
    simp [RaftNode.dispatchPrinting, h]
  unfold RaftNode.handleMessagePrinting RaftNode.handleMessage
  cases (Obj.get msg "term" (.int 0)).num with
  | error e => rfl
  | ok t => cases hd : (n.adoptTerm t).dispatch msg <;> simp [hdispatch, hd]

/-- A message of a higher term that its handler cannot print, or a request
that cannot be evaluated. -/
def RaftNode.adoptsAndRaises (unprintable : Json → Bool) (n : RaftNode) (msg : Obj) : Bool :=
  (Obj.get msg "term" (.int 0)).num?.any (fun t => decide (n.currentTerm < t)) &&
    ((announced msg).any unprintable ||
      (Obj.get msg "type" (.str "")).pyEq (.str "request_vote") && n.cannotEvaluate msg)

/-- The up-to-dateness test raises on a last term that is no number, and
looks at the index only if the terms are equal. -/
theorem logOk_raises (n : RaftNode) (lt li : Json) :
    (∃ e, n.logOk lt li = .error e) ↔
      (match lt.num? with
        | none => true
        | some t => t == n.lastTerm && !li.isNumber) = true := by
  unfold RaftNode.logOk
  cases hlt : lt.num? with
  | none => simp [num_eq_error hlt, bind, Except.bind]
  | some t =>
    simp only [num_of_num? hlt, bind, Except.bind]
    split
    · next hgt => simp [pure, Except.pure, hgt.ne']
    · split
      · next heq =>
        cases hli : li.num? with
        | none => simp [num_eq_error hli, Json.isNumber, hli, heq]
        | some i => simp [num_of_num? hli, Json.isNumber, hli, pure, Except.pure]
      · next hne => simp [pure, Except.pure, hne]

/-- `_handle_vote_request`, for a message whose term is a number, raises
exactly on what it cannot evaluate. -/
theorem handleVoteRequest_raises {n : RaftNode} {msg : Obj} {t : Rat} (ht : msgTerm msg = .ok t) :
    (∃ e, n.handleVoteRequest msg = .error e) ↔ n.cannotEvaluate msg = true := by
  rw [msgTerm] at ht
  unfold RaftNode.handleVoteRequest RaftNode.cannotEvaluate
  cases hdata : Obj.get msg "data" (.obj []) with
  | obj data =>
    rw [← logOk_raises]
    simp only [Json.get, ht, bind, Except.bind]
    cases hok : n.logOk (Obj.get data "last_log_term" (.int 0))
        (Obj.get data "last_log_index" (.int 0)) with
    | error e => simp
    | ok b =>
      simp only [reduceCtorEq, exists_false, iff_false]
      split <;> simp [pure, Except.pure]
  | _ => simp [Json.get, bind, Except.bind]

theorem cannotEvaluate_adoptTerm (n : RaftNode) (t : Rat) (msg : Obj) :
    (n.adoptTerm t).cannotEvaluate msg = n.cannotEvaluate msg := by
  have hlast : (n.adoptTerm t).lastTerm = n.lastTerm := by
    simp only [RaftNode.lastTerm, log_adoptTerm]
  simp only [RaftNode.cannotEvaluate, hlast]

/-- The other handlers raise nothing. -/
theorem dispatch_raises {n : RaftNode} {msg : Obj} {t : Rat} (ht : msgTerm msg = .ok t) :
    (∃ e, n.dispatch msg = .error e) ↔
      Obj.get msg "type" (.str "") = .str "request_vote" ∧ n.cannotEvaluate msg = true := by
  rcases dispatch_cases n msg with ⟨hty, hd⟩ | ⟨hty, hd⟩ | ⟨hty, hd⟩ | ⟨_, hd⟩
  · rw [hd, handleVoteRequest_raises ht]
    simp [hty]
  · simp [hd, hty]
  · rcases hty with hty | hty <;> simp [hd, hty]
  · -- an unknown type, or a request that goes to its own handler
    have hok : ¬ ∃ e, n.dispatch msg = .error e := by simp [hd]
    refine iff_of_false hok ?_
    rintro ⟨hty, hbad⟩
    obtain ⟨e, he⟩ := (handleVoteRequest_raises (n := n) ht).mpr hbad
    refine hok ⟨e, ?_⟩
    simp only [RaftNode.dispatch, hty, pyEq_str_str, beq_self_eq_true, if_true]
    exact he

/-! ## What has been assigned by then -/

/-- What the first lines of `handle_message` do on a higher term, and no
more. -/
structure StepsUp (n n' : RaftNode) (term : Rat) : Prop where
  higher : n.currentTerm < term
  currentTerm : n'.currentTerm = term
  state : n'.state = .follower
  votedFor : n'.votedFor = .null
  votesReceived : n'.votesReceived = n.votesReceived
  leaderId : n'.leaderId = n.leaderId
  log : n'.log = n.log

theorem stepsUp_adoptTerm {n : RaftNode} {t : Rat} (h : n.currentTerm < t) :
    StepsUp n (n.adoptTerm t) t := by
  have hadopt : n.adoptTerm t = { n with currentTerm := t, state := .follower, votedFor := .null } :=
    if_pos h
  rw [hadopt]
  exact ⟨h, rfl, rfl, rfl, rfl, rfl, rfl⟩

/-- A message whose term is no number is looked at no further. -/
theorem handleMessage_of_bad_term (unprintable : Json → Bool) {n : RaftNode} {msg : Obj}
    {e : PyError} (h : msgTerm msg = .error e) :
    (n.handleMessagePrinting unprintable msg).node = n ∧
      n.adoptsAndRaises unprintable msg = false := by
  have hnum : (Obj.get msg "term" (.int 0)).num? = none := by
    rw [msgTerm, Json.num] at h
    split at h
    · cases h
    · next hnone => exact hnone
  rw [msgTerm] at h
  exact ⟨by simp only [RaftNode.handleMessagePrinting, h], by simp [RaftNode.adoptsAndRaises, hnum]⟩

/-- With the prints, a handler raises on what it cannot print too. -/
theorem dispatchPrinting_raises (unprintable : Json → Bool) {n : RaftNode} {msg : Obj} {t : Rat}
    (ht : msgTerm msg = .ok t) :
    (∃ e, n.dispatchPrinting unprintable msg = .error e) ↔
      (announced msg).any unprintable = true ∨
        Obj.get msg "type" (.str "") = .str "request_vote" ∧ n.cannotEvaluate msg = true := by
  unfold RaftNode.dispatchPrinting
  split
  · next hout => simp [hout]
  · next hout =>
    rw [dispatch_raises ht]
    simp [hout]

/-- A message whose term is a number: when it raises, and what then. -/
theorem handleMessage_raises (unprintable : Json → Bool) {n : RaftNode} {msg : Obj} {t : Rat}
    (ht : msgTerm msg = .ok t) :
    ((n.handleMessagePrinting unprintable msg).raised.isSome = true ↔
      (announced msg).any unprintable = true ∨
        Obj.get msg "type" (.str "") = .str "request_vote" ∧ n.cannotEvaluate msg = true) ∧
    ((n.handleMessagePrinting unprintable msg).raised.isSome = true →
      (n.handleMessagePrinting unprintable msg).node = n.adoptTerm t) := by
  have hraises := dispatchPrinting_raises unprintable (n := n.adoptTerm t) ht
  rw [cannotEvaluate_adoptTerm] at hraises
  rw [← hraises]
  rw [msgTerm] at ht
  simp only [RaftNode.handleMessagePrinting, ht]
  cases (n.adoptTerm t).dispatchPrinting unprintable msg with
  | error e => simp
  | ok r => simp

/-- **What a rejected message leaves behind.** A message of a higher term
that cannot be evaluated or printed has made the node a follower of that
term; any other message that raises has changed nothing. -/
theorem rejected_unchanged_unless_stepped_up (unprintable : Json → Bool) (n : RaftNode) (msg : Obj)
    (h : (n.handleMessagePrinting unprintable msg).raised.isSome = true) :
    if n.adoptsAndRaises unprintable msg then
      ∃ t, msgTerm msg = .ok t ∧ StepsUp n (n.handleMessagePrinting unprintable msg).node t
    else Unchanged n (n.handleMessagePrinting unprintable msg).node := by
  cases ht : msgTerm msg with
  | error e =>
    obtain ⟨hnode, hnot⟩ := handleMessage_of_bad_term unprintable (n := n) ht
    rw [hnot, hnode]
    exact unchanged_self n
  | ok t =>
    obtain ⟨hraises, hnode⟩ := handleMessage_raises unprintable (n := n) ht
    have hup : n.adoptsAndRaises unprintable msg = true ↔ n.currentTerm < t := by
      have hbad := hraises.mp h
      simp only [RaftNode.adoptsAndRaises, num_eq_ok ht, Option.any_some, Bool.and_eq_true,
        decide_eq_true_eq, Bool.or_eq_true, pyEq_str_right, and_iff_left hbad]
    rw [hnode h]
    split
    · next hadopts => exact ⟨t, rfl, stepsUp_adoptTerm (hup.mp hadopts)⟩
    · next hnot =>
      rw [adoptTerm_of_le (not_lt.mp (mt hup.mpr hnot))]
      exact unchanged_self n

/-- A granted vote of term 1 from a node whose name cannot be printed. -/
def garbledVote : Obj :=
  [("type", .str "vote_response"), ("sender_id", .str "?"), ("term", .int 1),
   ("granted", .bool true)]

/-- The node after it, from the start. -/
def steppedUp : RaftNode :=
  ((RaftNode.init "n1" [] 8001).handleMessagePrinting (·.pyEq (.str "?")) garbledVote).node

/-- The first time it makes the node a follower of term 1; the second
time it changes nothing. -/
theorem rejected_unchanged_unless_stepped_up_twice :
    (∃ t, msgTerm garbledVote = .ok t ∧ StepsUp (.init "n1" [] 8001) steppedUp t) ∧
      Unchanged steppedUp
        (steppedUp.handleMessagePrinting (·.pyEq (.str "?")) garbledVote).node := by
  have hfirst := rejected_unchanged_unless_stepped_up (·.pyEq (.str "?")) (.init "n1" [] 8001)
    garbledVote (by decide +kernel)
  have hsecond := rejected_unchanged_unless_stepped_up (·.pyEq (.str "?")) steppedUp garbledVote
    (by decide +kernel)
  rw [if_pos (by decide +kernel)] at hfirst
  rw [if_neg (by decide +kernel)] at hsecond
  exact ⟨hfirst, hsecond⟩

/-- A request of term 1 that has `null` for its `data`. -/
def emptyRequest : Obj := [("type", .str "request_vote"), ("term", .int 1), ("data", .null)]

/-- At a node that has just been started it raises, though everything can
be printed, and the term has changed. -/
theorem rejected_adopts_term :
    ∃ c, RaftProcess.machine.Leads Machine.always ([], RaftProcess.init "n1" [] 8001) c ∧
      ∃ msg, (c.2.node.handleMessagePrinting (fun _ => false) msg).raised.isSome = true ∧
        ¬ Unchanged c.2.node (c.2.node.handleMessagePrinting (fun _ => false) msg).node := by
  refine ⟨_, .refl, emptyRequest, by decide +kernel, fun h => ?_⟩
  have hterm : (1 : Rat) = 0 := h.currentTerm
  norm_num at hterm

end SyncSystem.Raft
