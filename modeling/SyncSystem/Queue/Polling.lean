/-
SyncSystem.Queue.Polling — the `dequeue` that waits for a message.

A `dequeue` that finds its partition empty sleeps and looks again, up to
`timeout * 10` times. It does so with the mutex in its hands, and whoever
would put a message into a queue needs the mutex first. So the partition
it looks at stays empty (`pollsEmpty_of_leads`) and it ends with `None`
whatever has been called meanwhile (`waiting_dequeue_misses`).
-/
import SyncSystem.Queue.Conservation

namespace SyncSystem.Queue

open SyncSystem.Python

variable {E : QueueEnv}

/-! ## The polled partition -/

/-- The partition that a sleeping `dequeue` looks at is empty. -/
def PollsEmpty (s : QueueSystem) : Prop :=
  ∀ p, s.polling = some p → s.queue.localQueues.get? p.partition = some []

namespace QueueSystem

theorem deliver_eq_none {s : QueueSystem} {topic consumer partition : String}
    (h : s.queue.localQueues.get? partition = some []) :
    s.deliver topic consumer partition = none := by
  simp [deliver, DistributedQueue.pop, h]

theorem empty_of_deliver_eq_none {s : QueueSystem} {topic consumer partition : String}
    (hin : s.queue.localQueues.contains partition = true)
    (h : s.deliver topic consumer partition = none) :
    s.queue.localQueues.get? partition = some [] := by
  obtain ⟨ms, hget⟩ := Dict.contains_eq_true.mp hin
  cases ms with
  | nil => exact hget
  | cons m rest => simp [deliver, DistributedQueue.pop, hget] at h

/-- The rounds a sleeping `dequeue` still has; `range` raises for a
`timeout` that is no integer. -/
def rounds (p : Polling) : Except PyError Nat := p.remaining.elim (pollCount p.timeout) .ok

/-- The last look finds the partition empty. -/
theorem resume_last {s : QueueSystem} {p : Polling}
    (hempty : s.queue.localQueues.get? p.partition = some []) (hr : rounds p = .ok 0) :
    s.resume p = ({ s with polling := none }, [.nothing p.topic p.consumer]) := by
  unfold rounds at hr
  simp only [resume, hr, deliver_eq_none hempty]

/-- Any look before it does, and the `dequeue` sleeps again. -/
theorem resume_again {s : QueueSystem} {p : Polling} {n : Nat}
    (hempty : s.queue.localQueues.get? p.partition = some []) (hr : rounds p = .ok (n + 1)) :
    s.resume p = ({ s with polling := some { p with remaining := some n } }, []) := by
  unfold rounds at hr
  simp only [resume, hr, deliver_eq_none hempty]

theorem pollsEmpty_of_none {s : QueueSystem} (h : s.polling = none) : PollsEmpty s := by
  intro p hp
  rw [h] at hp
  cases hp

/-- A `dequeue` goes to sleep only before an empty partition. -/
theorem pollsEmpty_perform {s : QueueSystem} (hidle : s.polling = none) (now : Rat) (op : Op) :
    PollsEmpty (perform E s now op).1 := by
  cases op with
  | enqueue topic payload producer =>
    simp only [perform]
    split <;> exact pollsEmpty_of_none hidle
  | dequeue topic consumer timeout =>
    simp only [perform]
    split
    · exact pollsEmpty_of_none hidle
    · next partition _ =>
      split
      · next hin =>
        split
        · next r hr =>
          obtain ⟨msg, rest, _, rfl⟩ := deliver_eq hr
          exact pollsEmpty_of_none rfl
        · next hnone =>
          rintro p ⟨rfl⟩
          exact empty_of_deliver_eq_none hin hnone
      · exact pollsEmpty_of_none hidle
  | acknowledge msgId consumer =>
    simp only [perform]
    split <;> exact pollsEmpty_of_none hidle
  | recovery => exact pollsEmpty_of_none hidle

theorem pollsEmpty_resume {s : QueueSystem} (h : PollsEmpty s) {p : Polling}
    (hp : s.polling = some p) : PollsEmpty (s.resume p).1 := by
  have hempty := h p hp
  cases hr : rounds p with
  | error e =>
    unfold rounds at hr
    simp only [resume, hr]
    exact pollsEmpty_of_none rfl
  | ok r =>
    cases r with
    | zero =>
      rw [resume_last hempty hr]
      exact pollsEmpty_of_none rfl
    | succ n =>
      rw [resume_again hempty hr]
      rintro p' ⟨rfl⟩
      exact hempty

/-- Nothing enters the queue while a `dequeue` sleeps. -/
theorem pollsEmpty_step {s s' : QueueSystem} {a : QueueAction} {out : List QueueEvent}
    (h : PollsEmpty s) (hs : s.step E a = some (s', out)) : PollsEmpty s' := by
  cases a with
  | call op => cases hs; exact h
  | enter k now =>
    simp only [step] at hs
    split at hs
    · next op hidle _ =>
      have hempty := pollsEmpty_perform (E := E) (s := { s with waiting := s.waiting.eraseIdx k })
        hidle now op
      rw [Option.some.inj hs] at hempty
      exact hempty
    · cases hs
  | wake =>
    obtain ⟨p, hp, heq⟩ := Option.map_eq_some_iff.mp hs
    have hempty := pollsEmpty_resume h hp
    rw [heq] at hempty
    exact hempty
  | fire k =>
    simp only [step] at hs
    split at hs
    · cases hs; exact h
    · cases hs
  | reinsert k =>
    simp only [step] at hs
    split at hs
    · next hidle _ => cases hs; exact pollsEmpty_of_none hidle
    · cases hs
  | finish k =>
    simp only [step] at hs
    split at hs
    · split at hs
      · cases hs; exact h
      · cases hs
    · cases hs

end QueueSystem

theorem pollsEmpty_of_leads {n : Nat} {c : QueueRun}
    (h : (QueueSystem.machine E).Leads Machine.always ([], .init n) c) : PollsEmpty c.2 :=
  h.invariant (I := fun c => PollsEmpty c.2) (QueueSystem.pollsEmpty_of_none rfl)
    (fun _ _ _ _ _ ih _ hs => QueueSystem.pollsEmpty_step ih hs)

/-! ## How a sleeping `dequeue` ends -/

/-- A `dequeue` is asleep before the step. -/
abbrev Asleep (c : QueueRun) (_ : QueueAction) : Prop := c.2.polling.isSome = true

/-- The `dequeue` that sleeps at `c` can return in this way: it is asleep
all along a run from `c`, and the next wake-up ends it. -/
def EndsWith (E : QueueEnv) (c : QueueRun) (out : List QueueEvent) : Prop :=
  ∃ d s', (QueueSystem.machine E).Leads Asleep c d ∧
    d.2.step E .wake = some (s', out) ∧ s'.polling = none

/-- However the run goes on, the sleeping `dequeue` returns a message. -/
def ReturnsMessage (E : QueueEnv) (c : QueueRun) (p : Polling) : Prop :=
  ∀ out, EndsWith E c out → ∃ msg, out = [.delivered p.topic p.consumer msg]

/-- It is still the same `dequeue`, before an empty partition, and it has
rounds to go or is at the last look. -/
structure SameDequeue (p : Polling) (s : QueueSystem) (p' : Polling) : Prop where
  polls : s.polling = some p'
  topic : p'.topic = p.topic
  consumer : p'.consumer = p.consumer
  empty : s.queue.localQueues.get? p'.partition = some []
  rounds : ∃ r, QueueSystem.rounds p' = .ok r

namespace SameDequeue

variable {p p' : Polling} {s s' : QueueSystem} {out : List QueueEvent}

/-- A wake-up ends it with `None`, or it sleeps on. -/
theorem wake (h : SameDequeue p s p') (hs : s.step E .wake = some (s', out)) :
    (s'.polling = none ∧ out = [.nothing p.topic p.consumer]) ∨ ∃ p'', SameDequeue p s' p'' := by
  obtain ⟨r, hr⟩ := h.rounds
  simp only [QueueSystem.step, h.polls, Option.map_some, Option.some.injEq] at hs
  cases r with
  | zero =>
    rw [QueueSystem.resume_last h.empty hr] at hs
    cases hs
    exact Or.inl ⟨rfl, by rw [h.topic, h.consumer]⟩
  | succ n =>
    rw [QueueSystem.resume_again h.empty hr] at hs
    cases hs
    exact Or.inr ⟨{ p' with remaining := some n }, rfl, h.topic, h.consumer, h.empty, n, rfl⟩

/-- Any other step leaves it asleep. -/
theorem step (h : SameDequeue p s p') {a : QueueAction} (hs : s.step E a = some (s', out)) :
    s'.polling = none ∨ ∃ p'', SameDequeue p s' p'' := by
  have hidle : s.polling ≠ none := by simp [h.polls]
  cases a with
  | call op => cases hs; exact Or.inr ⟨p', h.polls, h.topic, h.consumer, h.empty, h.rounds⟩
  | enter k now =>
    simp only [QueueSystem.step] at hs
    split at hs
    · next hnone _ => exact absurd hnone hidle
    · cases hs
  | wake => exact (h.wake hs).imp_left And.left
  | fire k =>
    simp only [QueueSystem.step] at hs
    split at hs
    · cases hs; exact Or.inr ⟨p', h.polls, h.topic, h.consumer, h.empty, h.rounds⟩
    · cases hs
  | reinsert k =>
    simp only [QueueSystem.step] at hs
    split at hs
    · next hnone _ => exact absurd hnone hidle
    · cases hs
  | finish k =>
    simp only [QueueSystem.step] at hs
    split at hs
    · split at hs
      · cases hs; exact Or.inr ⟨p', h.polls, h.topic, h.consumer, h.empty, h.rounds⟩
      · cases hs
    · cases hs

/-- However it ends, it ends with `None`. -/
theorem ends {c : QueueRun} (h : SameDequeue p c.2 p') (hend : EndsWith E c out) :
    out = [.nothing p.topic p.consumer] := by
  obtain ⟨d, s', hleads, hs, hnone⟩ := hend
  have hsame : d.2.polling = none ∨ ∃ p'', SameDequeue p d.2 p'' := by
    refine hleads.invariant (I := fun d => d.2.polling = none ∨ ∃ p'', SameDequeue p d.2 p'')
      (Or.inr ⟨p', h⟩) ?_
    intro e a s'' out' _ ih hasleep hs'
    rcases ih with ih | ⟨p'', ih⟩
    · rw [Asleep, ih] at hasleep
      cases hasleep
    · exact ih.step hs'
  rcases hsame with hover | ⟨p'', hsame⟩
  · simp [QueueSystem.step, hover] at hs
  · rcases hsame.wake hs with ⟨_, hout⟩ | ⟨q, hq⟩
    · exact hout
    · rw [hq.polls] at hnone
      cases hnone

/-- Woken often enough, it ends. -/
theorem exists_end {r : Nat} {c : QueueRun} (h : SameDequeue p c.2 p')
    (hr : QueueSystem.rounds p' = .ok r) : ∃ out, EndsWith E c out := by
  induction r generalizing c p' with
  | zero =>
    have hresume := QueueSystem.resume_last h.empty hr
    have hstep : c.2.step E .wake =
        some ({ c.2 with polling := none }, [.nothing p'.topic p'.consumer]) := by
      simp [QueueSystem.step, h.polls, hresume]
    exact ⟨_, c, _, .refl, hstep, rfl⟩
  | succ n ih =>
    have hresume := QueueSystem.resume_again h.empty hr
    have hstep : c.2.step E .wake =
        some ({ c.2 with polling := some { p' with remaining := some n } }, []) := by
      simp [QueueSystem.step, h.polls, hresume]
    have hnext : SameDequeue p { c.2 with polling := some { p' with remaining := some n } }
        { p' with remaining := some n } :=
      ⟨rfl, h.topic, h.consumer, h.empty, n, rfl⟩
    obtain ⟨out, d, s', hleads, hs, hnone⟩ :=
      ih (c := c.push .wake { c.2 with polling := some { p' with remaining := some n } } [])
        hnext rfl
    have hasleep : Asleep c .wake := by simp [Asleep, h.polls]
    exact ⟨out, d, s', .head ⟨.wake, _, _, hasleep, hstep, rfl⟩ hleads, hs, hnone⟩

end SameDequeue

/-- **A waiting `dequeue` misses every new message.** With looks to come
and an `enqueue` to its partition called, it ends, and it ends with
`None`. -/
theorem waiting_dequeue_misses {n : Nat} {c : QueueRun}
    (h : (QueueSystem.machine E).Leads Machine.always ([], .init n) c) {p : Polling}
    (hp : c.2.polling = some p) {r : Nat} (hr : QueueSystem.rounds p = .ok r)
    {topic payload producer : String}
    (_ : .enqueue topic payload producer ∈ c.2.waiting)
    (_ : c.2.queue.partitionOf E.hash topic = .ok p.partition) :
    ¬ ReturnsMessage E c p ∧ ∀ out, EndsWith E c out → out = [.nothing p.topic p.consumer] := by
  have hsame : SameDequeue p c.2 p := ⟨hp, rfl, rfl, pollsEmpty_of_leads h p hp, r, hr⟩
  refine ⟨?_, fun out hend => hsame.ends hend⟩
  intro hreturns
  obtain ⟨out, hend⟩ := hsame.exists_end (E := E) hr
  obtain ⟨msg, hout⟩ := hreturns out hend
  rw [hsame.ends hend] at hout
  cases hout

/-- A `dequeue` sleeps, and an `enqueue` to its topic is called. -/
def missedRun : List QueueAction :=
  [.call (.dequeue "t" "c" (.int 1)), .enter 0 0, .wake, .call (.enqueue "t" "one" "p")]

/-- The call is this `enqueue`. -/
def isEnqueue (topic payload producer : String) : Op → Bool
  | .enqueue t m p => t == topic && m == payload && p == producer
  | _ => false

theorem mem_of_any_isEnqueue {ops : List Op} {topic payload producer : String}
    (h : ops.any (isEnqueue topic payload producer) = true) :
    .enqueue topic payload producer ∈ ops := by
  obtain ⟨op, hop, heq⟩ := List.any_eq_true.mp h
  cases op with
  | enqueue t m p =>
    simp only [isEnqueue, Bool.and_eq_true, beq_iff_eq] at heq
    obtain ⟨⟨rfl, rfl⟩, rfl⟩ := heq
    exact hop
  | _ => cases heq

theorem waiting_dequeue_misses_missedRun :
    ∃ c p, (QueueSystem.machine numbered).Leads Machine.always ([], .init 16) c ∧
      c.2.polling = some p ∧ .enqueue "t" "one" "p" ∈ c.2.waiting ∧
      ¬ ReturnsMessage numbered c p := by
  obtain ⟨c, hc, hp⟩ := Machine.exists_leads_of_exec (QueueSystem.machine numbered)
    Machine.always ([], .init 16) missedRun
    (fun c : QueueRun => c.2.polling.any (fun p : Polling => decide (p.partition = "partition_1" ∧
        p.remaining = some 9)) &&
      decide (c.2.queue.partitions = 16) && c.2.waiting.any (isEnqueue "t" "one" "p"))
    (by decide +kernel)
  simp only [Bool.and_eq_true, Option.any_eq_true, decide_eq_true_eq] at hp
  obtain ⟨⟨⟨p, hpolls, hpartition, hremaining⟩, hcount⟩, hcalled⟩ := hp
  have hrounds : QueueSystem.rounds p = .ok 9 := by simp [QueueSystem.rounds, hremaining]
  have hpart : c.2.queue.partitionOf numbered.hash "t" = .ok p.partition := by
    rw [DistributedQueue.partitionOf, hcount, hpartition]
    rfl
  have henqueue := mem_of_any_isEnqueue hcalled
  exact ⟨c, p, hc, hpolls, henqueue, (waiting_dequeue_misses hc hpolls hrounds henqueue hpart).1⟩

/-- The next wake-up ends the `dequeue` without a message. -/
def endsSilent (d : QueueRun) : Bool :=
  (d.2.step numbered .wake).any (fun r => r.1.polling.isNone && r.2.all QueueEvent.silent)

/-- Eleven looks later the `dequeue` returns `None`; the message comes in
afterwards. -/
theorem message_missed :
    ∃ c p, (QueueSystem.machine numbered).Leads Machine.always ([], .init 16) c ∧
      c.2.polling = some p ∧ p.topic = "t" ∧ QueueSystem.rounds p = .ok 9 ∧
      .enqueue "t" "one" "p" ∈ c.2.waiting ∧ ¬ ReturnsMessage numbered c p := by
  obtain ⟨c, hc, hp⟩ := Machine.exists_leads_of_exec (QueueSystem.machine numbered)
    Machine.always ([], .init 16) missedRun
    (fun c : QueueRun =>
      c.2.polling.any (fun p : Polling => decide (p.topic = "t" ∧ p.remaining = some 9)) &&
      c.2.waiting.any (isEnqueue "t" "one" "p") &&
      ((QueueSystem.machine numbered).exec Asleep c (List.replicate 9 .wake)).any endsSilent)
    (by decide +kernel)
  rw [Bool.and_eq_true, Bool.and_eq_true] at hp
  obtain ⟨⟨hpolls, hcalled⟩, hexec⟩ := hp
  obtain ⟨p, hp, hdec⟩ := Option.any_eq_true _ _ |>.mp hpolls
  obtain ⟨htopic, hremaining⟩ := of_decide_eq_true hdec
  have hrounds : QueueSystem.rounds p = .ok 9 := by simp [QueueSystem.rounds, hremaining]
  refine ⟨c, p, hc, hp, htopic, hrounds, mem_of_any_isEnqueue hcalled, ?_⟩
  intro hreturns
  obtain ⟨d, hd, hend⟩ := Machine.exists_leads_of_exec (QueueSystem.machine numbered) Asleep c
    (List.replicate 9 .wake) endsSilent hexec
  obtain ⟨⟨s', out⟩, hstep, hsilent⟩ := Option.any_eq_true _ _ |>.mp hend
  simp only [Bool.and_eq_true, Option.isNone_iff_eq_none] at hsilent
  obtain ⟨msg, rfl⟩ := hreturns out ⟨d, s', hd, hstep, hsilent.1⟩
  simp [QueueEvent.silent] at hsilent

end SyncSystem.Queue
