/-
SyncSystem.Communication.Dispatch — messages that a `MessagePassing`
handles, and calls that wait for a reply.

Translated from `register_handler`, `handle_message`, `send_and_wait`,
`get_history` and `get_stats` in `src/communication/message_passing.py`.
Several calls of each are under way at a time: a coroutine handler
suspends its `handle_message`, and a `send_and_wait` is suspended in its
`send_message` and then in `wait_for`.

How a handler ends, in what state it leaves the dict it is given, and
what a `send_message` returns and when, is up to the step; what else a
handler does with this object are steps of their own. A `send_message`
that is refused often enough ends in a `RecursionError`, as every retry is
a call inside the last, and so does its `send_and_wait`. The futures are
a heap, so that two calls could share one.
-/
import SyncSystem.Communication.MessagePassing
import SyncSystem.Machine.Calls
import SyncSystem.Machine.Runs

namespace SyncSystem.Communication

open SyncSystem.Python

/-- A handler, by what `asyncio.iscoroutinefunction` says of it. -/
inductive Callable where
  | function
  | coroutine

/-- The `Message` that is made of a handled dict: its fields are any
values. -/
structure Received where
  msgId : Json
  sender : Json
  receiver : Json
  msgType : Json
  payload : Json
  timestamp : Rat

/-- The type was read before the handler was called, the other fields are
read from what it has left. `uuid` is what `uuid4` gives; it is called in
any case. -/
def Received.of (msgType : Json) (left : Obj) (uuid : String) (now : Rat) : Received where
  msgId := Obj.get left "msg_id" (.str uuid)
  sender := Obj.get left "sender" (.str "")
  receiver := Obj.get left "receiver" (.str "")
  msgType := msgType
  payload := Obj.get left "payload" (.obj [])
  timestamp := now

/-- `msg.get("type")`. -/
def typeOf (msg : Obj) : Json := Obj.get msg "type" .null

/-- One element of the answer of `get_history`. -/
def Received.row (m : Received) : Obj :=
  [("msg_id", m.msgId), ("sender", m.sender), ("receiver", m.receiver), ("type", m.msgType),
   ("timestamp", .float m.timestamp)]

/-- `xs[start:]`. -/
def sliceFrom {α : Type} (xs : List α) (start : Int) : List α :=
  if start < 0 then xs.drop (xs.length - start.natAbs) else xs.drop start.natAbs

inductive FutureState where
  | pending
  | done (result : Json)
  | cancelled

structure MessageNode where
  node : MessagePassing
  handlers : Dict String Callable
  history : List Received
  /-- `pending_messages`. -/
  pending : Dict String Nat
  futures : List FutureState
  /-- The calls of `handle_message` whose handler is suspended. -/
  running : List (Nat × Obj)
  /-- The calls of `send_and_wait` in progress: the place of the future,
  and what `send_message` has returned, once it has. -/
  waiting : List (Nat × Option Json)
  nextCall : Nat

inductive MessageAction where
  | register (msgType : String) (handler : Callable)
  /-- `handle_message`; a plain handler leaves the dict as `left`, and
  returns or raises. -/
  | handle (msg left : Obj) (succeeds : Bool) (uuid : String) (now : Rat)
  /-- A coroutine handler ends. -/
  | resume (i : Nat) (left : Obj) (succeeds : Bool) (uuid : String) (now : Rat)
  | sendAndWait (msgType : String)
  /-- A `send_message` returns; `null` is `None`. -/
  | reply (i : Nat) (result : Json)
  /-- A `send_message` raises. -/
  | sendFails (i : Nat)
  /-- `wait_for` finds its future done. -/
  | wake (i : Nat)
  /-- `wait_for` times out. -/
  | timeOut (i : Nat)

/-- A call of `handle_message`; its result is the dict as it is left. -/
abbrev HandlingEvent := CallEvent Nat Obj Obj

/-- A `send_and_wait` goes by the place of its future. -/
inductive MessageEvent where
  | handling (e : HandlingEvent)
  | asked (k : Nat) (msgType : String)
  | replied (k : Nat) (result : Json)
  | answered (k : Nat) (result : Json)
  /-- `send_and_wait` raises what its `send_message` has raised. -/
  | failed (k : Nat)
  /-- `set_result` raises `InvalidStateError`. -/
  | invalid (k : Nat)

namespace MessageNode

def init (nodeId : String) (peers : List String) : MessageNode :=
  ⟨⟨nodeId, peers⟩, .empty, [], .empty, [], [], [], 0⟩

/-- The handler for a type. A list or a dict is no key, and only strings
are registered. -/
def handlerFor (s : MessageNode) (msgType : Json) : Except PyError (Option Callable) :=
  match msgType with
  | .str t => .ok (s.handlers.get? t)
  | .arr _ => .error .typeError
  | .obj _ => .error .typeError
  | _ => .ok none

/-- No handler is registered for the type. -/
def Unhandled (s : MessageNode) (msgType : Json) : Prop :=
  ∀ t, msgType = .str t → s.handlers.contains t = false

/-- The end of `handle_message`. -/
def record (s : MessageNode) (msgType : Json) (left : Obj) (uuid : String) (now : Rat) :
    MessageNode :=
  { s with history := s.history ++ [.of msgType left uuid now] }

/-- `get_history`. -/
def getHistory (s : MessageNode) (limit : Int) : List Obj :=
  (sliceFrom s.history (-limit)).map Received.row

/-- `get_stats`. -/
def getStats (s : MessageNode) : Obj :=
  [("node_id", .str s.node.nodeId), ("peers", .int s.node.peers.length),
   ("pending", .int s.pending.size), ("history_size", .int s.history.length),
   ("handlers", .arr (s.handlers.keys.map .str))]

/-- A handler has ended. -/
def handled (s : MessageNode) (k : Nat) (msg left : Obj) (succeeds : Bool) (uuid : String)
    (now : Rat) : MessageNode × HandlingEvent :=
  if succeeds then (s.record (typeOf msg) left uuid now, .returns k left) else (s, .raises k)

/-- `send_and_wait` returns. -/
def answer (s : MessageNode) (i k : Nat) (result : Json) : MessageNode × List MessageEvent :=
  ({ s with waiting := s.waiting.eraseIdx i }, [.answered k result])

def step (s : MessageNode) : MessageAction → Option (MessageNode × List MessageEvent)
  | .register msgType handler =>
      some ({ s with handlers := s.handlers.set msgType handler }, [])
  | .handle msg left succeeds uuid now =>
      let k := s.nextCall
      let s := { s with nextCall := k + 1 }
      match s.handlerFor (typeOf msg) with
      | .error _ => some (s, [.handling (.begins k msg), .handling (.raises k)])
      | .ok none =>
          some (s.record (typeOf msg) msg uuid now,
            [.handling (.begins k msg), .handling (.returns k msg)])
      | .ok (some .function) =>
          let (s', e) := s.handled k msg left succeeds uuid now
          some (s', [.handling (.begins k msg), .handling e])
      | .ok (some .coroutine) =>
          some ({ s with running := s.running ++ [(k, msg)] }, [.handling (.begins k msg)])
  | .resume i left succeeds uuid now =>
      match s.running[i]? with
      | some (k, msg) =>
          let (s', e) :=
            { s with running := s.running.eraseIdx i }.handled k msg left succeeds uuid now
          some (s', [.handling e])
      | none => none
  | .sendAndWait msgType =>
      let k := s.futures.length
      some ({ s with
          futures := s.futures ++ [.pending]
          pending := s.pending.set msgType k
          waiting := s.waiting ++ [(k, none)] }, [.asked k msgType])
  | .reply i result =>
      match s.waiting[i]? with
      | some (k, none) =>
          let s' := { s with waiting := s.waiting.set i (k, some result) }
          if result.truthy then
            match s.futures[k]? with
            | some .pending =>
                some ({ s' with futures := s.futures.set k (.done result) }, [.replied k result])
            | _ =>
                some ({ s with waiting := s.waiting.eraseIdx i },
                  [.replied k result, .invalid k])
          else some (s', [.replied k result])
      | _ => none
  | .sendFails i =>
      match s.waiting[i]? with
      | some (k, none) => some ({ s with waiting := s.waiting.eraseIdx i }, [.failed k])
      | _ => none
  | .wake i =>
      match s.waiting[i]? with
      | some (k, some result) =>
          match s.futures[k]? with
          | some (.done value) => some (s.answer i k value)
          -- the `except` clause
          | some .cancelled => some (s.answer i k result)
          | _ => none
      | _ => none
  | .timeOut i =>
      match s.waiting[i]? with
      | some (k, some result) =>
          match s.futures[k]? with
          | some .pending =>
              some ({ s with futures := s.futures.set k .cancelled }.answer i k result)
          | _ => none
      | _ => none

def machine : Machine MessageNode MessageAction (List MessageEvent) := ⟨step⟩

end MessageNode

abbrev MessageRun := Config MessageNode MessageAction (List MessageEvent)

/-! ## What a step does -/

namespace MessageNode

inductive Effect (s : MessageNode) :
    MessageAction → MessageNode → List MessageEvent → Prop where
  | registered (msgType : String) (handler : Callable) :
      Effect s (.register msgType handler)
        { s with handlers := s.handlers.set msgType handler } []
  /-- The handler is a coroutine. -/
  | begun (msg left : Obj) (succeeds : Bool) (uuid : String) (now : Rat) :
      s.handlerFor (typeOf msg) = .ok (some .coroutine) →
      Effect s (.handle msg left succeeds uuid now)
        { s with running := s.running ++ [(s.nextCall, msg)], nextCall := s.nextCall + 1 }
        [.handling (.begins s.nextCall msg)]
  /-- `handle_message` ends without a suspension. -/
  | handledAtOnce (msg left left' : Obj) (succeeds ends : Bool) (uuid : String) (now : Rat)
      (s' : MessageNode) (e : HandlingEvent) :
      (s.Unhandled (typeOf msg) → ends = true → left' = msg) →
      ({ s with nextCall := s.nextCall + 1 } : MessageNode).handled s.nextCall msg left' ends uuid
        now = (s', e) →
      Effect s (.handle msg left succeeds uuid now) s'
        [.handling (.begins s.nextCall msg), .handling e]
  | resumed (i k : Nat) (msg left : Obj) (succeeds : Bool) (uuid : String) (now : Rat)
      (s' : MessageNode) (e : HandlingEvent) :
      s.running[i]? = some (k, msg) →
      ({ s with running := s.running.eraseIdx i } : MessageNode).handled k msg left succeeds uuid
        now = (s', e) →
      Effect s (.resume i left succeeds uuid now) s' [.handling e]
  | asked (msgType : String) :
      Effect s (.sendAndWait msgType)
        { s with
          futures := s.futures ++ [.pending]
          pending := s.pending.set msgType s.futures.length
          waiting := s.waiting ++ [(s.futures.length, none)] }
        [.asked s.futures.length msgType]
  | resolved (i k : Nat) (v : Json) :
      s.waiting[i]? = some (k, none) → v.truthy = true → s.futures[k]? = some .pending →
      Effect s (.reply i v)
        { s with
          waiting := s.waiting.set i (k, some v)
          futures := s.futures.set k (.done v) }
        [.replied k v]
  | unresolved (i k : Nat) (v : Json) :
      s.waiting[i]? = some (k, none) → v.truthy = false →
      Effect s (.reply i v) { s with waiting := s.waiting.set i (k, some v) } [.replied k v]
  | invalid (i k : Nat) (v : Json) :
      s.waiting[i]? = some (k, none) → s.futures[k]? ≠ some .pending →
      Effect s (.reply i v) { s with waiting := s.waiting.eraseIdx i }
        [.replied k v, .invalid k]
  | sendFailed (i k : Nat) :
      s.waiting[i]? = some (k, none) →
      Effect s (.sendFails i) { s with waiting := s.waiting.eraseIdx i } [.failed k]
  | woken (i k : Nat) (v value : Json) :
      s.waiting[i]? = some (k, some v) → s.futures[k]? = some (.done value) →
      Effect s (.wake i) { s with waiting := s.waiting.eraseIdx i } [.answered k value]
  | cancelled (i k : Nat) (v : Json) :
      s.waiting[i]? = some (k, some v) → s.futures[k]? = some .cancelled →
      Effect s (.wake i) { s with waiting := s.waiting.eraseIdx i } [.answered k v]
  | timedOut (i k : Nat) (v : Json) :
      s.waiting[i]? = some (k, some v) → s.futures[k]? = some .pending →
      Effect s (.timeOut i)
        { s with futures := s.futures.set k .cancelled, waiting := s.waiting.eraseIdx i }
        [.answered k v]

theorem not_unhandled {s : MessageNode} {msgType : Json} {handler : Callable}
    (h : s.handlerFor msgType = .ok (some handler)) : ¬ s.Unhandled msgType := by
  intro hnone
  cases msgType with
  | str t =>
    have hget : s.handlers.get? t = some handler := Except.ok.inj h
    exact absurd (hnone t rfl) (by simp [Dict.contains, hget])
  | _ => cases h

theorem step_effect {s s' : MessageNode} {a : MessageAction} {out : List MessageEvent}
    (h : s.step a = some (s', out)) : Effect s a s' out := by
  cases a with
  | register msgType handler =>
    cases h
    exact .registered msgType handler
  | handle msg left succeeds uuid now =>
    have hsame : ({ s with nextCall := s.nextCall + 1 } : MessageNode).handlerFor (typeOf msg) =
        s.handlerFor (typeOf msg) := rfl
    simp only [step, hsame] at h
    split at h
    · cases h
      exact .handledAtOnce msg left left succeeds false uuid now _ _ (fun _ hf => nomatch hf) rfl
    · cases h
      exact .handledAtOnce msg left msg succeeds true uuid now _ _ (fun _ _ => rfl) rfl
    · next hfunction =>
      cases h
      exact .handledAtOnce msg left left succeeds succeeds uuid now _ _
        (fun hnone => absurd hnone (not_unhandled hfunction)) rfl
    · next hcoroutine =>
      cases h
      exact .begun msg left succeeds uuid now hcoroutine
  | resume i left succeeds uuid now =>
    simp only [step] at h
    split at h
    · next k msg hi =>
      cases h
      exact .resumed i k msg left succeeds uuid now _ _ hi rfl
    · cases h
  | sendAndWait msgType =>
    cases h
    exact .asked msgType
  | reply i v =>
    simp only [step] at h
    split at h
    · next k hi =>
      split at h
      · next htrue =>
        split at h
        · next hpending =>
          cases h
          exact .resolved i k v hi htrue hpending
        · next hnot =>
          cases h
          exact .invalid i k v hi hnot
      · next hfalse =>
        cases h
        exact .unresolved i k v hi (Bool.eq_false_iff.mpr hfalse)
    · cases h
  | sendFails i =>
    simp only [step] at h
    split at h
    · next k hi =>
      cases h
      exact .sendFailed i k hi
    · cases h
  | wake i =>
    simp only [step] at h
    split at h
    · next k v hi =>
      split at h
      · next value hdone =>
        cases h
        exact .woken i k v value hi hdone
      · next hcancelled =>
        cases h
        exact .cancelled i k v hi hcancelled
      · cases h
    · cases h
  | timeOut i =>
    simp only [step] at h
    split at h
    · next k v hi =>
      split at h
      · next hpending =>
        cases h
        exact .timedOut i k v hi hpending
      · cases h
    · cases h

end MessageNode

end SyncSystem.Communication
