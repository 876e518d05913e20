/-
SyncSystem.Queue.System — a started queue with its mutex, the calls that
wait for it and the tasks that wait for an acknowledgement.

A call does nothing before it has the mutex, and everything but a
`dequeue` on an empty partition is done with it at once. That `dequeue`
sleeps with the mutex in its hands (`polling`), so nothing else enters
until it gives up. A `_wait_for_ack` task sees its event or its timer
first; when the timer has fired it needs the mutex too, to put the
message back. `asyncio` lets those who wait in as they came; here it is
left open who enters next, so what holds of every run holds of those.
-/
import SyncSystem.Queue.Node
import SyncSystem.Machine.Runs

namespace SyncSystem.Queue

open SyncSystem.Python

inductive Op where
  | enqueue (topic payload producer : String)
  | dequeue (topic consumer : String) (timeout : Json)
  | acknowledge (msgId consumer : String)
  /-- A pass of `_message_recovery`. -/
  | recovery

/-- A `_wait_for_ack` task. -/
structure WaitTask where
  event : Nat
  partition : String
  message : Message
  /-- Its 30 seconds are over. -/
  fired : Bool

/-- A `dequeue` asleep with the mutex. `remaining` counts the rounds of
its loop, `none` before the loop. -/
structure Polling where
  topic : String
  consumer : String
  timeout : Json
  partition : String
  remaining : Option Nat

structure QueueSystem where
  queue : DistributedQueue
  tasks : List WaitTask
  setEvents : List Nat
  nextEvent : Nat
  nextMessage : Nat
  waiting : List Op
  polling : Option Polling

inductive QueueEvent where
  /-- `enqueue` returns success. -/
  | enqueued (topic : String) (msg : Message)
  /-- `dequeue` returns a message. -/
  | delivered (topic consumer : String) (msg : Message)
  /-- `dequeue` returns `None`. -/
  | nothing (topic consumer : String)
  /-- `acknowledge` returns. -/
  | ackAnswered (msgId consumer : String) (success : Bool)
  | raised (op : Op) (e : PyError)

/-- An answer that carries no message and acknowledges none. -/
def QueueEvent.silent : QueueEvent → Bool
  | .nothing _ _ => true
  | .raised _ _ => true
  | .ackAnswered _ _ success => !success
  | _ => false

inductive QueueAction where
  | call (op : Op)
  /-- The `k`-th waiting call gets the mutex. -/
  | enter (k : Nat) (now : Rat)
  /-- The sleeping `dequeue` wakes. -/
  | wake
  /-- The timer of the `k`-th task fires. -/
  | fire (k : Nat)
  /-- The `k`-th task, timed out, gets the mutex. -/
  | reinsert (k : Nat)
  /-- The `k`-th task sees its event set. -/
  | finish (k : Nat)

/-- A condition on an action is decidable if it is for each kind of them. -/
@[reducible] def QueueAction.decidable {P : QueueAction → Prop} [∀ op, Decidable (P (.call op))]
    [∀ k now, Decidable (P (.enter k now))] [Decidable (P .wake)] [∀ k, Decidable (P (.fire k))]
    [∀ k, Decidable (P (.reinsert k))] [∀ k, Decidable (P (.finish k))] : ∀ a, Decidable (P a)
  | .call _ => inferInstance
  | .enter .. => inferInstance
  | .wake => inferInstance
  | .fire _ => inferInstance
  | .reinsert _ => inferInstance
  | .finish _ => inferInstance

namespace QueueSystem

/-- A queue just after `start`. -/
def init (partitions : Nat) : QueueSystem where
  queue := (DistributedQueue.init partitions).start
  tasks := []
  setEvents := []
  nextEvent := 0
  nextMessage := 0
  waiting := []
  polling := none

/-- `dequeue` from `queue.pop(0)` on. -/
def deliver (s : QueueSystem) (topic consumer partition : String) :
    Option (QueueSystem × List QueueEvent) :=
  (s.queue.pop partition s.nextEvent).map fun (msg, queue) =>
    ({ s with
        queue := queue
        tasks := s.tasks ++ [⟨s.nextEvent, partition, msg, false⟩]
        nextEvent := s.nextEvent + 1
        polling := none },
      [.delivered topic consumer msg])

/-- A call that has the mutex, up to its next suspension. -/
def perform (E : QueueEnv) (s : QueueSystem) (now : Rat) :
    Op → QueueSystem × List QueueEvent
  | .enqueue topic payload producer =>
      match s.queue.enqueue E.hash topic payload (E.uuid s.nextMessage) now with
      | .error e => (s, [.raised (.enqueue topic payload producer) e])
      | .ok (queue, msg, _) =>
          ({ s with queue := queue, nextMessage := s.nextMessage + 1 }, [.enqueued topic msg])
  | .dequeue topic consumer timeout =>
      match s.queue.partitionOf E.hash topic with
      | .error e => (s, [.raised (.dequeue topic consumer timeout) e])
      | .ok partition =>
          if s.queue.localQueues.contains partition then
            match s.deliver topic consumer partition with
            | some r => r
            | none => ({ s with polling := some ⟨topic, consumer, timeout, partition, none⟩ }, [])
          else (s, [.nothing topic consumer])
  | .acknowledge msgId consumer =>
      match s.queue.acknowledge msgId with
      | (queue, some event) =>
          ({ s with queue := queue, setEvents := event :: s.setEvents },
            [.ackAnswered msgId consumer true])
      | (_, none) => (s, [.ackAnswered msgId consumer false])
  | .recovery => ({ s with queue := s.queue.recover now }, [])

/-- The sleeping `dequeue` goes on: `range` is evaluated after the first
sleep, the queue looked at after every sleep. -/
def resume (s : QueueSystem) (p : Polling) : QueueSystem × List QueueEvent :=
  match p.remaining.elim (pollCount p.timeout) .ok with
  | .error e => ({ s with polling := none }, [.raised (.dequeue p.topic p.consumer p.timeout) e])
  | .ok rounds =>
      match s.deliver p.topic p.consumer p.partition with
      | some r => r
      | none =>
          match rounds with
          | 0 => ({ s with polling := none }, [.nothing p.topic p.consumer])
          | n + 1 => ({ s with polling := some { p with remaining := some n } }, [])

def step (E : QueueEnv) (s : QueueSystem) : QueueAction → Option (QueueSystem × List QueueEvent)
  | .call op => some ({ s with waiting := s.waiting ++ [op] }, [])
  | .enter k now =>
      match s.polling, s.waiting[k]? with
      | none, some op => some (perform E { s with waiting := s.waiting.eraseIdx k } now op)
      | _, _ => none
  | .wake => s.polling.map s.resume
  | .fire k =>
      match s.tasks[k]? with
      | some ⟨event, partition, message, false⟩ =>
          some ({ s with tasks := s.tasks.set k ⟨event, partition, message, true⟩ }, [])
      | _ => none
  | .reinsert k =>
      match s.polling, s.tasks[k]? with
      | none, some ⟨_, partition, message, true⟩ =>
          some ({ s with
            queue := s.queue.reinsert partition message
            tasks := s.tasks.eraseIdx k }, [])
      | _, _ => none
  | .finish k =>
      match s.tasks[k]? with
      | some ⟨event, _, _, false⟩ =>
          if event ∈ s.setEvents then some ({ s with tasks := s.tasks.eraseIdx k }, []) else none
      | _ => none

/-- A started queue under any schedule. -/
def machine (E : QueueEnv) : Machine QueueSystem QueueAction (List QueueEvent) := ⟨step E⟩

@[simp] theorem machine_step (E : QueueEnv) (s : QueueSystem) (a : QueueAction) :
    (machine E).step s a = s.step E a := rfl

/-! ## What a step does -/

/-- `msg` at the end of a partition that held `ms`. -/
def append (s : QueueSystem) (ws : List Op) (name : String) (ms : List Message)
    (msg : Message) : QueueSystem :=
  { s with
    waiting := ws
    queue := { s.queue with localQueues := s.queue.localQueues.set name (ms ++ [msg]) }
    nextMessage := s.nextMessage + 1 }

/-- `msg` gone from a partition that keeps `rest`, with its task started. -/
def handOut (s : QueueSystem) (ws : List Op) (partition : String) (msg : Message)
    (rest : List Message) : QueueSystem :=
  { s with
    waiting := ws
    queue := { s.queue with
      localQueues := s.queue.localQueues.set partition rest
      pendingAck := s.queue.pendingAck.set msg.msgId s.nextEvent }
    tasks := s.tasks ++ [⟨s.nextEvent, partition, msg, false⟩]
    nextEvent := s.nextEvent + 1
    polling := none }

@[simp] theorem handOut_tasks (s : QueueSystem) (ws : List Op) (partition : String)
    (msg : Message) (rest : List Message) :
    (s.handOut ws partition msg rest).tasks =
      s.tasks ++ [⟨s.nextEvent, partition, msg, false⟩] := rfl

@[simp] theorem handOut_pendingAck (s : QueueSystem) (ws : List Op) (partition : String)
    (msg : Message) (rest : List Message) :
    (s.handOut ws partition msg rest).queue.pendingAck =
      s.queue.pendingAck.set msg.msgId s.nextEvent := rfl

@[simp] theorem handOut_polling (s : QueueSystem) (ws : List Op) (partition : String)
    (msg : Message) (rest : List Message) :
    (s.handOut ws partition msg rest).polling = none := rfl

/-- The pending acknowledgement of `msgId` gone, its event set. -/
def settle (s : QueueSystem) (ws : List Op) (msgId : String) (event : Nat) : QueueSystem :=
  { s with
    waiting := ws
    queue := { s.queue with pendingAck := s.queue.pendingAck.del msgId }
    setEvents := event :: s.setEvents }

/-- A `dequeue` of this topic looks at this partition: it starts, or it
has been polling. -/
def Serves (E : QueueEnv) (s : QueueSystem) (topic partition : String) : Prop :=
  s.queue.partitionOf E.hash topic = .ok partition ∨
    ∃ p, s.polling = some p ∧ p.topic = topic ∧ p.partition = partition

/-- The effects a step can have. `waiting` is left open: no effect
depends on which other calls wait. -/
inductive Effect (E : QueueEnv) (s : QueueSystem) :
    QueueAction → QueueSystem → List QueueEvent → Prop where
  | quiet (a : QueueAction) (ws : List Op) (p : Option Polling) (out : List QueueEvent) :
      (∀ p' ∈ p, Serves E s p'.topic p'.partition) → (∀ e ∈ out, e.silent = true) →
      Effect E s a { s with waiting := ws, polling := p } out
  | enqueued (k : Nat) (now : Rat) (ws : List Op) (topic payload name : String)
      (ms : List Message) (msg : Message) :
      msg = ⟨E.uuid s.nextMessage, payload, now, 0, false⟩ →
      s.queue.partitionOf E.hash topic = .ok name →
      s.queue.localQueues.get? name = some ms →
      Effect E s (.enter k now) (s.append ws name ms msg) [.enqueued topic msg]
  | delivered (a : QueueAction) (ws : List Op) (topic consumer partition : String)
      (msg : Message) (rest : List Message) :
      Serves E s topic partition → s.queue.localQueues.get? partition = some (msg :: rest) →
      Effect E s a (s.handOut ws partition msg rest) [.delivered topic consumer msg]
  | acknowledged (k : Nat) (now : Rat) (ws : List Op) (msgId consumer : String) (event : Nat) :
      s.waiting[k]? = some (.acknowledge msgId consumer) →
      s.queue.pendingAck.get? msgId = some event →
      Effect E s (.enter k now) (s.settle ws msgId event) [.ackAnswered msgId consumer true]
  | recovered (k : Nat) (now : Rat) (ws : List Op) :
      Effect E s (.enter k now) { s with waiting := ws, queue := s.queue.recover now } []
  | fired (k : Nat) (t : WaitTask) : s.tasks[k]? = some t → t.fired = false →
      Effect E s (.fire k) { s with tasks := s.tasks.set k { t with fired := true } } []
  | reinserted (k : Nat) (t : WaitTask) : s.tasks[k]? = some t → t.fired = true →
      Effect E s (.reinsert k)
        { s with queue := s.queue.reinsert t.partition t.message, tasks := s.tasks.eraseIdx k } []
  | finished (k : Nat) (t : WaitTask) : s.tasks[k]? = some t → t.fired = false →
      t.event ∈ s.setEvents →
      Effect E s (.finish k) { s with tasks := s.tasks.eraseIdx k } []

theorem deliver_eq {s : QueueSystem} {topic consumer partition : String}
    {r : QueueSystem × List QueueEvent} (h : s.deliver topic consumer partition = some r) :
    ∃ msg rest, s.queue.localQueues.get? partition = some (msg :: rest) ∧
      r = (s.handOut s.waiting partition msg rest, [.delivered topic consumer msg]) := by
  unfold deliver DistributedQueue.pop at h
  split at h
  · next msg rest hget =>
    exact ⟨msg, rest, hget, (Option.some.inj h).symm⟩
  · cases h

theorem enqueue_eq {q q' : DistributedQueue} {hash : String → Nat}
    {topic payload msgId name : String} {now : Rat} {msg : Message}
    (h : q.enqueue hash topic payload msgId now = .ok (q', msg, name)) :
    msg = ⟨msgId, payload, now, 0, false⟩ ∧ q.partitionOf hash topic = .ok name ∧
      ∃ ms, q.localQueues.get? name = some ms ∧
        q' = { q with localQueues := q.localQueues.set name (ms ++ [msg]) } := by
  unfold DistributedQueue.enqueue at h
  cases hp : q.partitionOf hash topic with
  | error e => simp [hp, bind, Except.bind] at h
  | ok name' =>
    simp only [hp, bind, Except.bind] at h
    split at h
    · cases h
    · next ms hget =>
      cases h
      exact ⟨rfl, rfl, ms, hget, rfl⟩

theorem perform_effect {E : QueueEnv} {s : QueueSystem} {k : Nat} (now : Rat) {op : Op}
    (hop : s.waiting[k]? = some op) (hidle : s.polling = none) (ws : List Op) :
    Effect E s (.enter k now) (perform E { s with waiting := ws } now op).1
      (perform E { s with waiting := ws } now op).2 := by
  have hquiet : ∀ out : List QueueEvent, (∀ e ∈ out, e.silent = true) →
      Effect E s (.enter k now) { s with waiting := ws } out := fun out hout =>
    .quiet _ ws s.polling out (by rw [hidle]; simp) hout
  cases op with
  | enqueue topic payload producer =>
    simp only [perform]
    split
    · exact hquiet _ (by simp [QueueEvent.silent])
    · next queue msg name heq =>
      obtain ⟨hmsg, hname, ms, hget, rfl⟩ := enqueue_eq heq
      exact .enqueued k now ws topic payload name ms msg hmsg hname hget
  | dequeue topic consumer timeout =>
    simp only [perform]
    split
    · exact hquiet _ (by simp [QueueEvent.silent])
    · next partition hpart =>
      split
      · split
        · next r hr =>
          obtain ⟨msg, rest, hget, rfl⟩ := deliver_eq hr
          exact .delivered _ ws topic consumer partition msg rest (Or.inl hpart) hget
        · exact .quiet _ ws _ [] (by rintro p' ⟨rfl⟩; exact Or.inl hpart) (by simp)
      · exact hquiet _ (by simp [QueueEvent.silent])
  | acknowledge msgId consumer =>
    simp only [perform, DistributedQueue.acknowledge]
    split
    · next queue event heq =>
      split at heq
      · next hget =>
        cases heq
        exact .acknowledged k now ws msgId consumer event hop hget
      · cases heq
    · exact hquiet _ (by simp [QueueEvent.silent])
  | recovery => exact .recovered k now ws

theorem resume_effect {E : QueueEnv} {s : QueueSystem} {p : Polling} (hp : s.polling = some p) :
    Effect E s .wake (s.resume p).1 (s.resume p).2 := by
  have hserves : Serves E s p.topic p.partition := Or.inr ⟨p, hp, rfl, rfl⟩
  unfold resume
  split
  · exact .quiet _ s.waiting none _ (by simp) (by simp [QueueEvent.silent])
  · split
    · next r hr =>
      obtain ⟨msg, rest, hget, rfl⟩ := deliver_eq hr
      exact .delivered _ s.waiting p.topic p.consumer p.partition msg rest hserves hget
    · split
      · exact .quiet _ s.waiting none _ (by simp) (by simp [QueueEvent.silent])
      · next n => exact .quiet _ s.waiting _ [] (by rintro p' ⟨rfl⟩; exact hserves) (by simp)

theorem step_effect {E : QueueEnv} {s s' : QueueSystem} {a : QueueAction}
    {out : List QueueEvent} (h : s.step E a = some (s', out)) : Effect E s a s' out := by
  cases a with
  | call op =>
    cases h
    refine .quiet _ _ s.polling [] ?_ (by simp)
    intro p' hp'
    exact Or.inr ⟨p', hp', rfl, rfl⟩
  | enter k now =>
    simp only [step] at h
    split at h
    · next op hidle hop =>
      have heff := perform_effect (E := E) now hop hidle (s.waiting.eraseIdx k)
      rw [Option.some.inj h] at heff
      exact heff
    · cases h
  | wake =>
    obtain ⟨p, hp, heq⟩ := Option.map_eq_some_iff.mp h
    have heff := resume_effect (E := E) hp
    rw [heq] at heff
    exact heff
  | fire k =>
    simp only [step] at h
    split at h
    · next hk => cases h; exact .fired k _ hk rfl
    · cases h
  | reinsert k =>
    simp only [step] at h
    split at h
    · next hk => cases h; exact .reinserted k _ hk rfl
    · cases h
  | finish k =>
    simp only [step] at h
    split at h
    · next hk =>
      split at h
      · next hset => cases h; exact .finished k _ hk rfl hset
      · cases h
    · cases h

theorem step_reinsert {E : QueueEnv} {s s' : QueueSystem} {k : Nat} {out : List QueueEvent}
    (h : s.step E (.reinsert k) = some (s', out)) :
    ∃ t, s.tasks[k]? = some t ∧ out = [] ∧
      s' = { s with
        queue := s.queue.reinsert t.partition t.message
        tasks := s.tasks.eraseIdx k } := by
  simp only [step] at h
  split at h
  · next hk => cases h; exact ⟨_, hk, rfl, rfl⟩
  · cases h

end QueueSystem

end SyncSystem.Queue
