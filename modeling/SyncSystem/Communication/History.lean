/-
SyncSystem.Communication.History — what `get_history` shows of messages
whose handling overlaps.

A message is put into the history when its handler has ended, so the
history is the order in which the calls of `handle_message` returned. No
message is there twice, none is there whose handler raised or is still
suspended, and a message whose handling began after another's had
returned comes after it (`history_linearizes`). Its row has the type the
dict came with, and the rest as the handler has left it.
-/
import SyncSystem.Communication.Dispatch

namespace SyncSystem.Communication

open SyncSystem.Python

namespace MessageNode

def handling? : MessageEvent → Option HandlingEvent
  | .handling e => some e
  | _ => none

/-- What has happened to the calls of `handle_message`. -/
def handlings (c : MessageRun) : List HandlingEvent :=
  (c.1.flatMap Event.output).filterMap handling?

/-- `m` is made of the dict of this call: its type as it came, and the
rest as it was left. -/
def MadeOf (events : List HandlingEvent) (k : Nat) (m : Received) : Prop :=
  ∃ msg left uuid now, .begins k msg ∈ events ∧ .returns k left ∈ events ∧
    m = Received.of (typeOf msg) left uuid now

/-- The row is that of a message made of the dict of this call. -/
def Shows (c : MessageRun) (k : Nat) (row : Obj) : Prop :=
  ∃ m, MadeOf (handlings c) k m ∧ row = m.row

/-- `order` is an order of the calls that have returned that real time
does not contradict, and `get_history` shows its latest calls. -/
structure Linearizes (c : MessageRun) (order : List Nat) : Prop where
  once : order.Nodup
  complete : ∀ k, k ∈ order ↔ ∃ left, .returns k left ∈ handlings c
  realTime : ∀ j left k msg, [.returns j left, .begins k msg].Sublist (handlings c) → k ∈ order →
    [j, k].Sublist order
  others : ∀ k msg, .begins k msg ∈ handlings c → k ∉ order →
    ((k, msg) ∈ c.2.running ∧ .raises k ∉ handlings c) ∨
      (k ∉ c.2.running.map Prod.fst ∧ .raises k ∈ handlings c)
  untouched : ∀ k msg left, .begins k msg ∈ handlings c → .returns k left ∈ handlings c →
    c.2.Unhandled (typeOf msg) → left = msg
  latest : ∀ limit : Nat, 0 < limit →
    List.Forall₂ (Shows c) (order.drop (order.length - limit)) (c.2.getHistory limit)
  skipped : ∀ count : Nat, List.Forall₂ (Shows c) (order.drop count) (c.2.getHistory (-count))

/-! ## What a step does to the history -/

theorem MadeOf.append {events : List HandlingEvent} {k : Nat} {m : Received}
    (h : MadeOf events k m) (events' : List HandlingEvent) : MadeOf (events ++ events') k m := by
  obtain ⟨msg, left, uuid, now, hbegan, hleft, heq⟩ := h
  exact ⟨msg, left, uuid, now, List.mem_append_left events' hbegan,
    List.mem_append_left events' hleft, heq⟩

/-- The part of the state that `handle_message` has to do with. -/
structure Handled (s : MessageNode) (events : List HandlingEvent) : Prop where
  paired : Paired s.running events
  issued : ∀ e ∈ events, e.call < s.nextCall
  recorded : List.Forall₂ (MadeOf events) (returned events) s.history

namespace Handled

variable {s : MessageNode} {events : List HandlingEvent}

theorem fresh (h : Handled s events) : concerning CallEvent.call? s.nextCall events = [] := by
  refine concerning_other ?_
  intro e he heq
  exact Nat.ne_of_lt (h.issued e he) (Option.some.inj heq)

/-- A call begins. -/
theorem begin (h : Handled s events) (msg : Obj) :
    Handled { s with running := s.running ++ [(s.nextCall, msg)], nextCall := s.nextCall + 1 }
      (events ++ [.begins s.nextCall msg]) := by
  refine ⟨h.paired.push h.fresh msg, ?_, ?_⟩
  · intro e he
    rcases List.mem_append.mp he with he | he
    · exact Nat.lt_succ_of_lt (h.issued e he)
    · rw [List.mem_singleton.mp he]
      exact Nat.lt_succ_self _
  · rw [returned_append, returned_begins, List.append_nil]
    exact h.recorded.imp fun k m hm => hm.append _

/-- A running call ends. -/
theorem finish (h : Handled s events) {i k : Nat} {msg : Obj} (hi : s.running[i]? = some (k, msg))
    (left : Obj) (succeeds : Bool) (uuid : String) (now : Rat) {s' : MessageNode} {e : HandlingEvent}
    (hs : ({ s with running := s.running.eraseIdx i } : MessageNode).handled k msg left succeeds
      uuid now = (s', e)) : Handled s' (events ++ [e]) := by
  have hbegan : .begins k msg ∈ events :=
    (mem_own rfl).mp (h.paired.going k msg (List.mem_of_getElem? hi) ▸ List.mem_singleton_self _)
  have hissued : ∀ {e' : HandlingEvent}, e'.call = k → ∀ e ∈ events ++ [e'],
      e.call < s.nextCall := by
    intro e' hcall e he
    rcases List.mem_append.mp he with he | he
    · exact h.issued e he
    · rw [List.mem_singleton.mp he, hcall]
      exact h.issued _ hbegan
  have hrecorded := h.recorded.imp fun j m (hm : MadeOf events j m) => hm.append [e]
  cases succeeds with
  | true =>
    cases hs
    refine ⟨h.paired.pop hi (.inl ⟨left, rfl⟩), hissued rfl, ?_⟩
    rw [returned_append, returned_returns]
    refine List.rel_append hrecorded (.cons ⟨msg, left, uuid, now, ?_, ?_, rfl⟩ .nil)
    · exact List.mem_append_left _ hbegan
    · exact List.mem_append_right _ (List.mem_singleton_self _)
  | false =>
    cases hs
    refine ⟨h.paired.pop hi (.inr rfl), hissued rfl, ?_⟩
    rw [returned_append, returned_raises, List.append_nil]
    exact hrecorded

/-- A call that does not suspend begins and ends. -/
theorem at_once (h : Handled s events) (msg left : Obj) (succeeds : Bool) (uuid : String)
    (now : Rat) {s' : MessageNode} {e : HandlingEvent}
    (hs : ({ s with nextCall := s.nextCall + 1 } : MessageNode).handled s.nextCall msg left succeeds
      uuid now = (s', e)) : Handled s' (events ++ [.begins s.nextCall msg, e]) := by
  have hbegun := h.begin msg
  have hlast : (s.running ++ [(s.nextCall, msg)])[s.running.length]? = some (s.nextCall, msg) := by
    simp
  have hback : (s.running ++ [(s.nextCall, msg)]).eraseIdx s.running.length = s.running := by
    simp [List.eraseIdx_append_of_length_le]
  rw [List.append_cons]
  refine hbegun.finish hlast left succeeds uuid now ?_
  simp only [hback]
  exact hs

theorem effect {s' : MessageNode} {a : MessageAction} {out : List MessageEvent}
    (h : Handled s events) (hs : Effect s a s' out) :
    Handled s' (events ++ out.filterMap handling?) := by
  cases hs with
  | begun msg => exact h.begin msg
  | handledAtOnce msg _ left' _ ends uuid now _ _ _ hs => exact h.at_once msg left' ends uuid now hs
  | resumed i k msg left succeeds uuid now _ _ hi hs => exact h.finish hi left succeeds uuid now hs
  | _ =>
    simp only [List.filterMap_cons, List.filterMap_nil, handling?, List.append_nil]
    exact ⟨h.paired, h.issued, h.recorded⟩

/-- A running call has begun with its message and no other. -/
theorem begun_unique (h : Handled s events) {k : Nat} {msg msg' : Obj}
    (hrunning : (k, msg) ∈ s.running) (hbegan : .begins k msg' ∈ events) : msg' = msg := by
  have hown : .begins k msg' ∈ concerning CallEvent.call? k events := (mem_own rfl).mpr hbegan
  rw [h.paired.going k msg hrunning] at hown
  cases List.mem_singleton.mp hown
  rfl

end Handled

/-- A call whose type has no handler has returned with its dict as it
came. -/
def ReturnsUntouched (s : MessageNode) (events : List HandlingEvent) : Prop :=
  ∀ k msg left, .begins k msg ∈ events → .returns k left ∈ events → s.Unhandled (typeOf msg) →
    left = msg

theorem unhandled_of_set {s : MessageNode} {msgType : Json} {t : String} {handler : Callable}
    (h : ({ s with handlers := s.handlers.set t handler } : MessageNode).Unhandled msgType) :
    s.Unhandled msgType := by
  intro t' ht'
  have hnot := h t' ht'
  simp only [Dict.contains_set, Bool.or_eq_false_iff] at hnot
  exact hnot.2

theorem handlers_handled {s s' : MessageNode} {k : Nat} {msg left : Obj} {succeeds : Bool}
    {uuid : String} {now : Rat} {e : HandlingEvent}
    (hs : s.handled k msg left succeeds uuid now = (s', e)) :
    s'.handlers = s.handlers ∧ s'.running = s.running := by
  cases succeeds <;> cases hs <;> exact ⟨rfl, rfl⟩

theorem unhandled_of_handled {s s' : MessageNode} {k : Nat} {msg left : Obj} {succeeds : Bool}
    {uuid : String} {now : Rat} {e : HandlingEvent}
    (hs : s.handled k msg left succeeds uuid now = (s', e)) {msgType : Json}
    (h : s'.Unhandled msgType) : s.Unhandled msgType := by
  intro t ht
  rw [← h t ht, (handlers_handled hs).1]

namespace ReturnsUntouched

variable {s s' : MessageNode} {events : List HandlingEvent}

theorem mono (h : ReturnsUntouched s events)
    (hhandlers : ∀ msgType, s'.Unhandled msgType → s.Unhandled msgType) :
    ReturnsUntouched s' events :=
  fun k msg left hbegan hleft hnone => h k msg left hbegan hleft (hhandlers _ hnone)

/-- A call that begins has not returned. -/
theorem begin (h : ReturnsUntouched s events) (hh : Handled s events) (msg : Obj) :
    ReturnsUntouched s (events ++ [.begins s.nextCall msg]) := by
  intro k msg' left hbegan hleft hnone
  simp only [List.mem_append, List.mem_singleton, reduceCtorEq, or_false] at hbegan hleft
  rcases hbegan with hbegan | hbegan
  · exact h k msg' left hbegan hleft hnone
  · cases hbegan
    exact absurd (hh.issued _ hleft) (Nat.lt_irrefl _)

/-- A running call ends. -/
theorem finish (h : ReturnsUntouched s events) (hh : Handled s events) {k : Nat} {msg left : Obj}
    (hrunning : (k, msg) ∈ s.running) {succeeds : Bool} {uuid : String} {now : Rat}
    {s₀ : MessageNode} {e : HandlingEvent} (hs : s₀.handled k msg left succeeds uuid now = (s', e))
    (hsame : s₀.handlers = s.handlers)
    (hleft : s.Unhandled (typeOf msg) → succeeds = true → left = msg) :
    ReturnsUntouched s' (events ++ [e]) := by
  have hhandlers : ∀ msgType, s'.Unhandled msgType → s.Unhandled msgType := by
    intro msgType hnone t ht
    rw [← hsame]
    exact unhandled_of_handled hs hnone t ht
  intro k' msg' left' hbegan hreturns hnone
  rw [List.mem_append, List.mem_singleton] at hbegan hreturns
  have hold : .begins k' msg' ∈ events := by
    rcases hbegan with hbegan | hbegan
    · exact hbegan
    · cases succeeds <;> cases hs <;> cases hbegan
  rcases hreturns with hreturns | hreturns
  · exact h k' msg' left' hold hreturns (hhandlers _ hnone)
  · cases succeeds with
    | false => cases hs; cases hreturns
    | true =>
      cases hs
      cases hreturns
      rw [hh.begun_unique hrunning hold] at hnone ⊢
      exact hleft (hhandlers _ hnone) rfl

end ReturnsUntouched

/-- Every call that is suspended has a handler, and it is left to it to
change the dict. -/
structure Untouched (s : MessageNode) (events : List HandlingEvent) : Prop where
  suspended : ∀ k msg, (k, msg) ∈ s.running → ¬ s.Unhandled (typeOf msg)
  returned : ReturnsUntouched s events

theorem Untouched.effect {s s' : MessageNode} {events : List HandlingEvent} {a : MessageAction}
    {out : List MessageEvent} (h : Untouched s events) (hh : Handled s events)
    (hs : Effect s a s' out) : Untouched s' (events ++ out.filterMap handling?) := by
  cases hs with
  | registered t handler =>
    rw [List.filterMap_nil, List.append_nil]
    refine ⟨?_, h.returned.mono fun _ => unhandled_of_set⟩
    intro k msg hk hnone
    exact h.suspended k msg hk (unhandled_of_set hnone)
  | begun msg left succeeds uuid now hcoroutine =>
    refine ⟨?_, h.returned.begin hh msg⟩
    intro k msg' hk
    rcases List.mem_append.mp hk with hk | hk
    · exact h.suspended k msg' hk
    · cases List.mem_singleton.mp hk
      exact not_unhandled hcoroutine
  | handledAtOnce msg left left' succeeds ends uuid now _ e hsame hs =>
    refine ⟨?_, ?_⟩
    · intro k msg' hk hnone
      rw [(handlers_handled hs).2] at hk
      exact h.suspended k msg' hk (unhandled_of_handled hs hnone)
    · show ReturnsUntouched s' (events ++ [.begins s.nextCall msg, e])
      rw [List.append_cons]
      have hbegun : ReturnsUntouched
          { s with running := s.running ++ [(s.nextCall, msg)], nextCall := s.nextCall + 1 }
          (events ++ [.begins s.nextCall msg]) := (h.returned.begin hh msg).mono fun _ h => h
      exact hbegun.finish (hh.begin msg) (List.mem_append_right _ (List.mem_singleton_self _)) hs
        rfl hsame
  | resumed i k msg left succeeds uuid now _ e hi hs =>
    have hmem := List.mem_of_getElem? hi
    refine ⟨?_, ?_⟩
    · intro k' msg' hk hnone
      rw [(handlers_handled hs).2] at hk
      exact h.suspended k' msg' (List.mem_of_mem_eraseIdx hk) (unhandled_of_handled hs hnone)
    · -- its handler is still registered
      exact h.returned.finish hh hmem hs rfl
        (fun hnone => absurd hnone (h.suspended k msg hmem))
  | _ =>
    simp only [List.filterMap_cons, List.filterMap_nil, handling?, List.append_nil]
    exact ⟨h.suspended, h.returned⟩

theorem handlings_push (c : MessageRun) (a : MessageAction) (s' : MessageNode)
    (out : List MessageEvent) :
    handlings (c.push a s' out) = handlings c ++ out.filterMap handling? := by
  simp [handlings, List.filterMap_append]

theorem handled_of_leads {nodeId : String} {peers : List String} {c : MessageRun}
    (h : machine.Leads Machine.always ([], .init nodeId peers) c) : Handled c.2 (handlings c) := by
  refine h.invariant (I := fun c => Handled c.2 (handlings c)) ?_ ?_
  · refine ⟨.empty, ?_, .nil⟩
    intro e he
    cases he
  · intro c a s' out _ ih _ hs
    rw [handlings_push]
    exact ih.effect (step_effect hs)

theorem untouched_of_leads {nodeId : String} {peers : List String} {c : MessageRun}
    (h : machine.Leads Machine.always ([], .init nodeId peers) c) :
    Untouched c.2 (handlings c) := by
  refine h.invariant (I := fun c => Untouched c.2 (handlings c)) ?_ ?_
  · refine ⟨?_, ?_⟩
    · intro k msg hk
      cases hk
    · intro k msg left hbegan
      cases hbegan
  · intro c a s' out hreach ih _ hs
    rw [handlings_push]
    exact ih.effect (handled_of_leads hreach) (step_effect hs)

/-! ## The answer of `get_history` -/

theorem sliceFrom_natCast {α : Type} (xs : List α) (count : Nat) :
    sliceFrom xs count = xs.drop count := by
  simp [sliceFrom]

theorem sliceFrom_neg {α : Type} (xs : List α) {limit : Nat} (h : 0 < limit) :
    sliceFrom xs (-limit) = xs.drop (xs.length - limit) := by
  have hneg : -(limit : Int) < 0 := by omega
  rw [sliceFrom, if_pos hneg, Int.natAbs_neg, Int.natAbs_natCast]

/-- **The history is a linearization.** In every run, however the calls
of `handle_message` overlap, `get_history` shows for a limit the latest
of the calls that have returned, in the order in which they did: each
once, one that began after another had returned after it, and none that
is still running or has raised. A row has the fields of the dict as it
was left, which is as it came where there is no handler for its type. A
limit of 0 shows all, and a negative one skips the first. -/
theorem history_linearizes {nodeId : String} {peers : List String} {c : MessageRun}
    (h : machine.Leads Machine.always ([], .init nodeId peers) c) :
    Linearizes c (returned (handlings c)) := by
  have hh := handled_of_leads h
  have hlength := hh.recorded.length_eq
  have hrows : ∀ {n : Nat}, List.Forall₂ (Shows c) ((returned (handlings c)).drop n)
      ((c.2.history.drop n).map Received.row) := by
    intro n
    rw [List.forall₂_map_right_iff]
    exact (List.forall₂_drop n hh.recorded).imp fun k m hm => ⟨m, hm, rfl⟩
  refine ⟨hh.paired.nodup_returned, fun k => mem_returned, ?_, ?_,
    (untouched_of_leads h).returned, ?_, ?_⟩
  · intro j left k msg hbefore hk
    exact hh.paired.sublist_returned hbefore hk
  · intro k msg hbegan hnot
    exact hh.paired.running_or_raised hbegan hnot
  · intro limit hpos
    rw [getHistory, sliceFrom_neg _ hpos, hlength]
    exact hrows
  · intro count
    rw [getHistory, neg_neg, sliceFrom_natCast]
    exact hrows

/-- Two jobs are begun, a note is handled meanwhile, the handler of the
first job signs it and ends well, that of the second ends badly. -/
def overlappingRun : List MessageAction :=
  [.register "job" .coroutine, .handle [("type", .str "job")] [] true "a" 0,
   .handle [("type", .str "note")] [] true "b" 1, .handle [("type", .str "job")] [] true "c" 2,
   .resume 0 [("type", .str "job"), ("sender", .str "n")] true "d" 3, .resume 0 [] false "e" 4]

theorem history_linearizes_overlappingRun :
    ∃ c, machine.Leads Machine.always ([], .init "n" []) c ∧ returned (handlings c) = [1, 0] ∧
      .raises 2 ∈ handlings c ∧ List.Forall₂ (Shows c) [0] (c.2.getHistory 1) ∧
      List.Forall₂ (Shows c) [1, 0] (c.2.getHistory 0) := by
  obtain ⟨c, hc, hp⟩ := Machine.exists_leads_of_exec machine Machine.always ([], .init "n" [])
    overlappingRun (fun (c : MessageRun) => decide (returned (handlings c) = [1, 0]) &&
      (handlings c).any fun e => match e with | .raises k => k == 2 | _ => false)
    (by decide +kernel)
  obtain ⟨horder, hraised⟩ := Bool.and_eq_true_iff.mp hp
  have horder := of_decide_eq_true horder
  have hlin := history_linearizes hc
  refine ⟨c, hc, horder, ?_, ?_, ?_⟩
  · obtain ⟨e, he, hk⟩ := List.any_eq_true.mp hraised
    cases e with
    | raises k => exact eq_of_beq hk ▸ he
    | begins | returns => cases hk
  · simpa [horder] using hlin.latest 1 (by omega)
  · simpa [horder] using hlin.skipped 0

end MessageNode

end SyncSystem.Communication
