/-
SyncSystem.Queue.Clients — producers and consumers that name themselves by
any JSON value.

`enqueue` and `dequeue` keep the ids of their callers in two sets, and a
list or a dict has no hash. `enqueue` has appended the message by then:
the caller is told of an error, the message stays. `dequeue` has taken the
message out and not yet begun to wait for its acknowledgement: the message
is gone (`lost`). So messages are kept exactly up to those that such a
dequeue has found (`entered_kept_or_lost`).

A name in a `QueueSystem` stands for the JSON value `client` gives it.
-/
import SyncSystem.Python.Key
import SyncSystem.Queue.Conservation

namespace SyncSystem.Queue

open SyncSystem.Python
open SyncSystem.Delivery

/-- A queue with `self.producers` and `self.consumers`. -/
structure ClientQueue where
  system : QueueSystem
  producers : Dict Key Unit
  consumers : Dict Key Unit

inductive ClientEvent where
  /-- `enqueue` returns success. -/
  | enqueued (producer : Key) (topic : String) (msg : Message)
  /-- `enqueue` raises, with the message in its queue. -/
  | unreported (topic : String) (msg : Message)
  /-- `dequeue` returns a message. -/
  | delivered (consumer : Key) (topic : String) (msg : Message)
  /-- `dequeue` raises, with the message out of its queue. -/
  | lost (topic : String) (msg : Message)
  /-- Any other answer. -/
  | answered (e : QueueEvent)

namespace QueueSystem

/-- The producer whose call gets the mutex. -/
def producerOf (s : QueueSystem) : QueueAction → String
  | .enter k _ =>
      match s.waiting[k]? with
      | some (.enqueue _ _ producer) => producer
      | _ => ""
  | _ => ""

/-- `s'` up to where `dequeue` adds the consumer: the message has left its
queue, but no acknowledgement is waited for. -/
def withdrawn (s s' : QueueSystem) : QueueSystem :=
  { s' with
    queue := { s'.queue with pendingAck := s.queue.pendingAck }
    tasks := s.tasks
    nextEvent := s.nextEvent }

/-- `partition` without its head, for a call that started nothing. -/
def withdraw (s : QueueSystem) (ws : List Op) (partition : String) (rest : List Message) :
    QueueSystem :=
  { s with
    waiting := ws
    queue := { s.queue with localQueues := s.queue.localQueues.set partition rest }
    polling := none }

@[simp] theorem withdrawn_handOut (s : QueueSystem) (ws : List Op) (partition : String)
    (msg : Message) (rest : List Message) :
    s.withdrawn (s.handOut ws partition msg rest) = s.withdraw ws partition rest := rfl

end QueueSystem

namespace ClientQueue

variable (E : QueueEnv) (client : String → Json)

/-- A queue just after `start`. -/
def init (partitions : Nat) : ClientQueue := ⟨.init partitions, .empty, .empty⟩

def step (s : ClientQueue) (a : QueueAction) : Option (ClientQueue × List ClientEvent) :=
  match s.system.step E a with
  | none => none
  | some (s', [.enqueued topic msg]) =>
      match (client (s.system.producerOf a)).key with
      | .ok producer =>
          some ({ s with system := s', producers := s.producers.set producer () },
            [.enqueued producer topic msg])
      | .error _ => some ({ s with system := s' }, [.unreported topic msg])
  | some (s', [.delivered topic name msg]) =>
      match (client name).key with
      | .ok consumer =>
          some ({ s with system := s', consumers := s.consumers.set consumer () },
            [.delivered consumer topic msg])
      | .error _ => some ({ s with system := s.system.withdrawn s' }, [.lost topic msg])
  | some (s', out) => some ({ s with system := s' }, out.map .answered)

def machine : Machine ClientQueue QueueAction (List ClientEvent) := ⟨step E client⟩

end ClientQueue

abbrev ClientRun := Config ClientQueue QueueAction (List ClientEvent)

/-! ## What a step does -/

/-- An answer that says that a message has come in or gone out. -/
def QueueEvent.carries : QueueEvent → Bool
  | .enqueued _ _ => true
  | .delivered _ _ _ => true
  | _ => false

namespace ClientQueue

inductive Effect (E : QueueEnv) (client : String → Json) (s : ClientQueue) (a : QueueAction) :
    ClientQueue → List ClientEvent → Prop where
  | enqueued (s' : QueueSystem) (producer : Key) (topic : String) (msg : Message) :
      s.system.step E a = some (s', [.enqueued topic msg]) →
      Effect E client s a { s with system := s', producers := s.producers.set producer () }
        [.enqueued producer topic msg]
  | unreported (s' : QueueSystem) (topic : String) (msg : Message) :
      s.system.step E a = some (s', [.enqueued topic msg]) →
      Effect E client s a { s with system := s' } [.unreported topic msg]
  | delivered (s' : QueueSystem) (consumer : Key) (topic name : String) (msg : Message) :
      s.system.step E a = some (s', [.delivered topic name msg]) →
      Effect E client s a { s with system := s', consumers := s.consumers.set consumer () }
        [.delivered consumer topic msg]
  | lost (s' : QueueSystem) (ws : List Op) (partition topic name : String) (msg : Message)
      (rest : List Message) :
      s.system.step E a = some (s', [.delivered topic name msg]) →
      s.system.queue.localQueues.get? partition = some (msg :: rest) →
      Effect E client s a { s with system := s.system.withdraw ws partition rest }
        [.lost topic msg]
  | answered (s' : QueueSystem) (out : List QueueEvent) :
      s.system.step E a = some (s', out) → (∀ e ∈ out, e.carries = false) →
      Effect E client s a { s with system := s' } (out.map .answered)

theorem step_effect {E : QueueEnv} {client : String → Json} {s s' : ClientQueue} {a : QueueAction}
    {out : List ClientEvent} (h : s.step E client a = some (s', out)) :
    Effect E client s a s' out := by
  unfold step at h
  split at h
  · cases h
  · next q topic msg hq =>
    split at h
    · next producer _ =>
      cases h
      exact .enqueued q producer topic msg hq
    · cases h
      exact .unreported q topic msg hq
  · next q topic name msg hq =>
    split at h
    · next consumer _ =>
      cases h
      exact .delivered q consumer topic name msg hq
    · cases h
      cases QueueSystem.step_effect hq with
      | quiet _ ws p _ _ hsilent => simp [QueueEvent.silent] at hsilent
      | delivered _ ws _ _ partition _ rest _ hget =>
        exact .lost _ ws partition topic name msg rest hq hget
  · next q out' hnot hnot' hq =>
    cases h
    refine .answered q out' hq ?_
    cases QueueSystem.step_effect hq with
    | quiet _ ws p _ _ hsilent =>
      intro e he
      have hs := hsilent e he
      cases e <;> simp [QueueEvent.silent, QueueEvent.carries] at hs ⊢
    | enqueued k now ws topic payload name ms msg _ _ _ => exact absurd rfl (hnot topic msg)
    | delivered _ ws topic consumer partition msg rest _ _ =>
      exact absurd rfl (hnot' topic consumer msg)
    | acknowledged => simp [QueueEvent.carries]
    | recovered | fired | reinserted | finished => simp

end ClientQueue

/-! ## What has become of the messages -/

structure Fates where
  /-- With every message that has come in, reported or not. -/
  ledger : Ledger
  lost : List String

namespace Fates

def empty : Fates := ⟨.empty, []⟩

def record (F : Fates) : ClientEvent → Fates
  | .enqueued _ topic msg => { F with ledger := F.ledger.record (.enqueued topic msg) }
  | .unreported topic msg => { F with ledger := F.ledger.record (.enqueued topic msg) }
  | .delivered _ topic msg => { F with ledger := F.ledger.record (.delivered topic "" msg) }
  | .lost _ msg => { F with lost := msg.msgId :: F.lost }
  | .answered e => { F with ledger := F.ledger.record e }

/-- The ledger without the lost messages. -/
def remaining (F : Fates) : Ledger :=
  { F.ledger with accepted := F.ledger.accepted.filter fun e => decide (e.2.msgId ∉ F.lost) }

theorem mem_remaining {F : Fates} {m : Message} :
    m ∈ F.remaining.messages ↔ m ∈ F.ledger.messages ∧ m.msgId ∉ F.lost := by
  simp only [remaining, Ledger.messages, List.mem_map, List.mem_filter, decide_eq_true_eq]
  constructor
  · rintro ⟨e, ⟨he, hnot⟩, rfl⟩
    exact ⟨⟨e, he, rfl⟩, hnot⟩
  · rintro ⟨⟨e, he, rfl⟩, hnot⟩
    exact ⟨e, ⟨he, hnot⟩, rfl⟩

theorem remaining_enqueued (F : Fates) (topic : String) {msg : Message}
    (h : msg.msgId ∉ F.lost) :
    ({ F with ledger := F.ledger.record (.enqueued topic msg) } : Fates).remaining =
      F.remaining.record (.enqueued topic msg) := by
  simp [remaining, Ledger.record, h]

theorem remaining_lost (F : Fates) (topic : String) (msg : Message) :
    (F.record (.lost topic msg)).remaining =
      { F.remaining with
        accepted := F.remaining.accepted.filter fun e => decide (e.2.msgId ≠ msg.msgId) } := by
  simp [remaining, record, List.filter_filter]

/-- Answers leave the losses and carry over to what remains. -/
theorem record_answered {out : List QueueEvent} (h : ∀ e ∈ out, e.carries = false) (F : Fates) :
    ((out.map ClientEvent.answered).foldl record F).lost = F.lost ∧
      ((out.map ClientEvent.answered).foldl record F).remaining =
        out.foldl Ledger.record F.remaining := by
  induction out generalizing F with
  | nil => simp
  | cons e rest ih =>
    have hstep : (F.record (.answered e)).remaining = F.remaining.record e := by
      have he := h e List.mem_cons_self
      cases e with
      | ackAnswered msgId consumer success => cases success <;> rfl
      | nothing | raised => rfl
      | enqueued | delivered => simp [QueueEvent.carries] at he
    have hrest := ih (fun e' he' => h e' (List.mem_cons_of_mem e he')) (F.record (.answered e))
    rw [hstep] at hrest
    exact hrest

end Fates

namespace ClientQueue

def fates (c : ClientRun) : Fates := c.track Fates.record .empty

/-- The message has been appended to a queue. -/
def Entered (c : ClientRun) (m : Message) : Prop := m ∈ (fates c).ledger.messages

/-- The message has been taken out for a consumer that has no hash. -/
def Lost (c : ClientRun) (msgId : String) : Prop := msgId ∈ (fates c).lost

/-- An `acknowledge` of this message has returned success. -/
def Acked (c : ClientRun) (msgId : String) : Prop := msgId ∈ (fates c).ledger.acked

instance (c : ClientRun) (m : Message) : Decidable (Entered c m) :=
  inferInstanceAs (Decidable (m ∈ (fates c).ledger.messages))

instance (c : ClientRun) (msgId : String) : Decidable (Lost c msgId) :=
  inferInstanceAs (Decidable (msgId ∈ (fates c).lost))

instance (c : ClientRun) (msgId : String) : Decidable (Acked c msgId) :=
  inferInstanceAs (Decidable (msgId ∈ (fates c).ledger.acked))

/-- What is not lost is conserved, and what is lost came in before. -/
structure Kept (E : QueueEnv) (s : ClientQueue) (F : Fates) : Prop where
  conserved : Conserved E s.system F.remaining
  issued : ∀ msgId ∈ F.lost, ∃ i < s.system.nextMessage, msgId = E.uuid i

end ClientQueue

variable {E : QueueEnv}

theorem conserved_withdraw {s : QueueSystem} {L : Ledger} (h : Conserved E s L)
    {partition : String} {msg : Message} {rest : List Message}
    (hget : s.queue.localQueues.get? partition = some (msg :: rest)) (ws : List Op) :
    Conserved E (s.withdraw ws partition rest)
      { L with accepted := L.accepted.filter fun e => decide (e.2.msgId ≠ msg.msgId) } := by
  have hbooks : Bookkeeping E (s.withdraw ws partition rest) L := by
    refine h.books.keep ?_ (fun p hp => DistributedQueue.contains_set hp) rfl rfl rfl rfl
    intro t ht
    exact ⟨t, ht, rfl, rfl, rfl⟩
  have hmessages : Ledger.messages
      { L with accepted := L.accepted.filter fun e => decide (e.2.msgId ≠ msg.msgId) } =
        L.messages.filter fun m => decide (m.msgId ≠ msg.msgId) := by
    simp only [Ledger.messages, List.filter_map]
    rfl
  have hplaces := places_perm (DistributedQueue.contents_pop hget) (s.tasks.map WaitTask.message)
  refine ⟨{ hbooks with issued := ?_ }, ?_⟩
  · intro m hm
    rw [hmessages] at hm
    exact hbooks.issued m (List.mem_of_mem_filter hm)
  · rw [hmessages]
    exact (h.custody.perm hplaces).lose

/-- No step takes an id back. -/
theorem QueueSystem.Effect.nextMessage_le {s s' : QueueSystem} {a : QueueAction}
    {out : List QueueEvent} (h : s.Effect E a s' out) : s.nextMessage ≤ s'.nextMessage := by
  cases h with
  | enqueued => exact Nat.le_succ _
  | _ => exact Nat.le_refl _

theorem QueueSystem.Effect.enqueued_id {s s' : QueueSystem} {a : QueueAction} {topic : String}
    {msg : Message} (h : s.Effect E a s' [.enqueued topic msg]) :
    msg.msgId = E.uuid s.nextMessage := by
  cases h with
  | quiet _ ws p _ _ hsilent => simp [QueueEvent.silent] at hsilent
  | enqueued k now ws _ payload name ms _ hmsg _ _ => rw [hmsg]

namespace ClientQueue

theorem Kept.not_lost {s : ClientQueue} {F : Fates} (h : Kept E s F) {msgId : String}
    (hid : msgId = E.uuid s.system.nextMessage) : msgId ∉ F.lost := by
  intro hmem
  obtain ⟨i, hi, heq⟩ := h.issued msgId hmem
  have hsame : i = s.system.nextMessage := E.uuid_injective (heq.symm.trans hid)
  omega

/-- Every step keeps what is not lost. -/
theorem Kept.effect {client : String → Json} {s s' : ClientQueue} {F : Fates} {a : QueueAction}
    {out : List ClientEvent} (h : Kept E s F) (he : Effect E client s a s' out) :
    Kept E s' (out.foldl Fates.record F) := by
  have hlater : ∀ {q : QueueSystem} {events : List QueueEvent},
      s.system.step E a = some (q, events) →
        ∀ msgId ∈ F.lost, ∃ i < q.nextMessage, msgId = E.uuid i := by
    intro q events hq msgId hmem
    obtain ⟨i, hi, heq⟩ := h.issued msgId hmem
    exact ⟨i, Nat.lt_of_lt_of_le hi (QueueSystem.step_effect hq).nextMessage_le, heq⟩
  cases he with
  | enqueued q producer topic msg hq | unreported q topic msg hq =>
    have heff := QueueSystem.step_effect hq
    have hsame := F.remaining_enqueued topic (h.not_lost heff.enqueued_id)
    have hconserved := h.conserved.effect heff
    exact ⟨hsame ▸ hconserved, hlater hq⟩
  | delivered q consumer topic name msg hq =>
    exact ⟨h.conserved.effect (QueueSystem.step_effect hq), hlater hq⟩
  | lost q ws partition topic name msg rest _ hget =>
    have hconserved := conserved_withdraw h.conserved hget ws
    rw [← F.remaining_lost topic msg] at hconserved
    refine ⟨hconserved, ?_⟩
    intro msgId hmem
    rcases List.mem_cons.mp hmem with rfl | hmem
    · -- the message was in custody, so it has an id that was given out
      have hqueued : msg ∈ s.system.queue.contents :=
        List.mem_flatten.mpr ⟨_, Dict.mem_values_of_get? hget, List.mem_cons_self⟩
      have hplace : msg.asEnqueued ∈ s.system.places :=
        List.mem_map_of_mem (List.mem_append_left _ hqueued)
      exact h.conserved.books.issued msg.asEnqueued (h.conserved.custody.known _ hplace)
    · exact h.issued msgId hmem
  | answered q events hq hcarries =>
    obtain ⟨hlost, hremaining⟩ := Fates.record_answered hcarries F
    refine ⟨hremaining ▸ h.conserved.effect (QueueSystem.step_effect hq), ?_⟩
    rw [hlost]
    exact hlater hq

theorem kept_of_leads {client : String → Json} {n : Nat} {c : ClientRun}
    (h : (machine E client).Leads Machine.always ([], .init n) c) : Kept E c.2 (fates c) := by
  have hstart : (QueueSystem.machine E).Leads Machine.always ([], .init n) ([], .init n) := .refl
  refine h.track_invariant (I := Kept E) ⟨conserved_of_leads hstart, ?_⟩ ?_
  · intro msgId hmem
    cases hmem
  · intro c a s' out _ ih _ hs
    exact ih.effect (step_effect hs)

/-- The call that a step answers would have been handed `msg`, for a
consumer that has no hash. -/
def Wastes (E : QueueEnv) (client : String → Json) (s : ClientQueue) (a : QueueAction)
    (msg : Message) : Prop :=
  ∃ topic name s', s.system.step E a = some (s', [.delivered topic name msg]) ∧
    (client name).key.toBool = false

theorem lost_iff_wastes {client : String → Json} {s s' : ClientQueue} {a : QueueAction}
    {out : List ClientEvent} (h : s.step E client a = some (s', out)) (msg : Message) :
    (∃ topic, ClientEvent.lost topic msg ∈ out) ↔ Wastes E client s a msg := by
  unfold step at h
  split at h
  · cases h
  · next q topic m hq => split at h <;> cases h <;> simp [Wastes, hq]
  · next q topic name m hq =>
    split at h
    · next consumer hkey =>
      cases h
      simp [Wastes, hq, hkey, Except.toBool]
    · next e hkey =>
      cases h
      simp only [Wastes, hq, List.mem_singleton, ClientEvent.lost.injEq, Option.some.injEq,
        Prod.mk.injEq, List.cons.injEq, QueueEvent.delivered.injEq, and_true]
      constructor
      · rintro ⟨_, rfl, rfl⟩
        exact ⟨_, name, q, ⟨rfl, rfl, rfl, rfl⟩, by rw [hkey]; rfl⟩
      · rintro ⟨_, _, _, ⟨_, rfl, _, rfl⟩, _⟩
        exact ⟨_, rfl, rfl⟩
  · next q events hnot hnot' hq =>
    cases h
    simp only [Wastes, hq, List.mem_map, reduceCtorEq, and_false, exists_false, false_iff]
    rintro ⟨topic, name, q', heq, _⟩
    exact hnot' topic name msg (Prod.mk.inj (Option.some.inj heq)).2

/-- **Messages are kept up to those that are wasted.** With clients that
name themselves by any JSON values: a message that has come in, whether
`enqueue` said so or raised, is in exactly one place until it is
acknowledged or lost; a lost one is in no place ever after; and lost are
exactly the messages that a `dequeue` took out for a consumer that has no
hash. -/
theorem entered_kept_or_lost {client : String → Json} {n : Nat} {c : ClientRun}
    (h : (machine E client).Leads Machine.always ([], .init n) c) :
    (∀ m, Entered c m → ¬ Lost c m.msgId → ¬ Acked c m.msgId → c.2.system.places.count m = 1) ∧
      (∀ m ∈ c.2.system.places, Entered c m ∧ ¬ Lost c m.msgId) ∧
      EveryStep (fun d a out => ∀ msg,
        (∃ topic, ClientEvent.lost topic msg ∈ out) ↔ Wastes E client d.2 a msg) c.1 := by
  have hcustody := (kept_of_leads h).conserved.custody
  refine ⟨?_, ?_, ?_⟩
  · intro m hentered hlost hacked
    exact hcustody.count_eq_one (Fates.mem_remaining.mpr ⟨hentered, hlost⟩) hacked
  · intro m hm
    exact Fates.mem_remaining.mp (hcustody.known m hm)
  · exact h.everyStep fun d a s' out _ _ hs => lost_iff_wastes hs

/-- The clients of the example: `"list"` names itself `[]`. -/
def namedBy (name : String) : Json := if name = "list" then .arr [] else .str name

/-- A producer `[]` enqueues `one`, `p` enqueues `two`; a consumer `[]`
asks for a message. -/
def wastedRun : List QueueAction :=
  [.call (.enqueue "t" "one" "list"), .enter 0 0, .call (.enqueue "t" "two" "p"), .enter 0 1,
   .call (.dequeue "t" "list" (.int 1)), .enter 0 2]

theorem entered_kept_or_lost_wastedRun :
    ∃ c, (machine numbered namedBy).Leads Machine.always ([], .init 16) c ∧
      Entered c ⟨"0", "one", 0, 0, false⟩ ∧ Lost c "0" ∧
      (∀ m ∈ c.2.system.places, m.msgId ≠ "0") ∧
      c.2.system.places.count ⟨"1", "two", 1, 0, false⟩ = 1 := by
  obtain ⟨c, hc, hp⟩ := Machine.exists_leads_of_exec (machine numbered namedBy) Machine.always
    ([], .init 16) wastedRun
    (fun c => decide (Entered c ⟨"0", "one", 0, 0, false⟩ ∧ Lost c "0" ∧
      Entered c ⟨"1", "two", 1, 0, false⟩ ∧ ¬ Lost c "1" ∧ ¬ Acked c "1")) (by decide +kernel)
  obtain ⟨hone, hlost, htwo, hkept, hnot⟩ := of_decide_eq_true hp
  obtain ⟨hcount, hplaces, _⟩ := entered_kept_or_lost hc
  refine ⟨c, hc, hone, hlost, ?_, hcount _ htwo hkept hnot⟩
  intro m hm heq
  exact (hplaces m hm).2 (heq ▸ hlost)

end ClientQueue

end SyncSystem.Queue
