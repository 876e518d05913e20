/-
SyncSystem.Locks.System — a lock manager with the `acquire_lock` calls
in progress.

A call that has to wait goes round a loop: it tests its deadline, sleeps
and polls, until it is answered or gives up. The steps of the system are
the stretches between two suspensions, in any order and with any clock
readings; what a step outputs is what it did, in order.

The expiry checker is one task. When a pass raises, the task is over and
no further pass runs (`expiryRunning`).
-/
import SyncSystem.Locks.Manager
import SyncSystem.Machine.Runs

namespace SyncSystem.Locks

open SyncSystem.Python

variable {ρ κ : Type} [BEq ρ] [BEq κ]

/-- Where a waiting call is. -/
inductive Phase where
  /-- Before `while time.time() < deadline`. -/
  | test
  /-- In `asyncio.sleep(0.05)`. -/
  | asleep
  /-- Out of the loop, before its entry is removed. -/
  | timedOut
  deriving DecidableEq, Repr

/-- An `acquire_lock` call that has been queued. -/
structure Call (ρ κ : Type) where
  request : Request ρ κ
  deadline : Rat
  phase : Phase

structure LockSystem (ρ κ : Type) [BEq ρ] [BEq κ] where
  manager : LockManager ρ κ
  calls : List (Call ρ κ)
  nextRequest : Nat
  expiryRunning : Bool

inductive LockAction (ρ κ : Type) where
  /-- `acquire_lock` is called and runs up to its first test. -/
  | acquire (r : ρ) (lockType : LockType) (c : κ) (timeout : Json) (now : Rat)
  /-- The `k`-th call in progress tests its deadline. -/
  | test (k : Nat) (now : Rat)
  /-- The `k`-th call in progress wakes and polls. -/
  | poll (k : Nat) (now : Rat)
  /-- The `k`-th call in progress removes its entry and returns. -/
  | giveUp (k : Nat)
  | release (r : ρ) (c : κ) (now : Rat)
  | sweep (now : Rat)
  | resolveDeadlock (victim : κ) (now : Rat)

/-- A condition on an action is decidable if it is for each kind of them. -/
@[reducible] def LockAction.decidable {P : LockAction ρ κ → Prop}
    [∀ r lockType c timeout now, Decidable (P (.acquire r lockType c timeout now))]
    [∀ k now, Decidable (P (.test k now))] [∀ k now, Decidable (P (.poll k now))]
    [∀ k, Decidable (P (.giveUp k))] [∀ r c now, Decidable (P (.release r c now))]
    [∀ now, Decidable (P (.sweep now))]
    [∀ victim now, Decidable (P (.resolveDeadlock victim now))] : ∀ a, Decidable (P a)
  | .acquire .. => inferInstance
  | .test .. => inferInstance
  | .poll .. => inferInstance
  | .giveUp _ => inferInstance
  | .release .. => inferInstance
  | .sweep _ => inferInstance
  | .resolveDeadlock .. => inferInstance

namespace LockSystem

def init : LockSystem ρ κ := ⟨.init, [], 0, true⟩

/-- The tables after a section, the calls in progress as given. -/
def after (s : LockSystem ρ κ) (m : LockManager ρ κ) (calls : List (Call ρ κ)) :
    LockSystem ρ κ :=
  { s with manager := m, calls := calls }

/-- `acquire_lock` up to its first suspension. A timeout that cannot be
added to a number raises after the request has been queued. -/
def acquire (s : LockSystem ρ κ) (q : Request ρ κ) (now : Rat) :
    LockSystem ρ κ × List (LockEvent ρ κ) :=
  let sec := s.manager.tryAcquire q now
  let s' := { s with manager := sec.manager, nextRequest := s.nextRequest + 1 }
  if sec.returned then (s', sec.events)
  else
    match q.timeout.addTo now with
    | .error e => (s', sec.events ++ [.raised q e])
    | .ok deadline =>
        ({ s' with calls := s.calls ++ [⟨q, deadline, .test⟩] }, sec.events)

def step (s : LockSystem ρ κ) : LockAction ρ κ → Option (LockSystem ρ κ × List (LockEvent ρ κ))
  | .acquire r lockType c timeout now =>
      some (s.acquire ⟨r, lockType, c, timeout, s.nextRequest⟩ now)
  | .test k now =>
      match s.calls[k]? with
      | some ⟨q, deadline, .test⟩ =>
          let phase := if now < deadline then Phase.asleep else Phase.timedOut
          some (s.after s.manager (s.calls.set k ⟨q, deadline, phase⟩), [])
      | _ => none
  | .poll k now =>
      match s.calls[k]? with
      | some ⟨q, deadline, .asleep⟩ =>
          let sec := s.manager.poll q now
          let calls := if sec.returned then s.calls.eraseIdx k
            else s.calls.set k ⟨q, deadline, .test⟩
          some (s.after sec.manager calls, sec.events)
      | _ => none
  | .giveUp k =>
      match s.calls[k]? with
      | some ⟨q, _, .timedOut⟩ =>
          some (s.after (s.manager.dropWaiter q) (s.calls.eraseIdx k), [.answered q false])
      | _ => none
  | .release r c now =>
      let (m, events) := s.manager.releaseLock r c now
      some (s.after m s.calls, events)
  | .sweep now =>
      if s.expiryRunning then
        match s.manager.sweep now with
        | .ok (m, events) => some (s.after m s.calls, events)
        | .error _ => some ({ s with expiryRunning := false }, [])
      else none
  | .resolveDeadlock victim now =>
      let (m, events) := s.manager.resolveDeadlock victim now
      some (s.after m s.calls, events)

/-- A lock manager under any schedule. -/
def machine : Machine (LockSystem ρ κ) (LockAction ρ κ) (List (LockEvent ρ κ)) := ⟨step⟩

@[simp] theorem machine_step (s : LockSystem ρ κ) (a : LockAction ρ κ) :
    machine.step s a = s.step a := rfl

/-- What a step does to the tables: one of the sections runs, or none. -/
inductive TableStep (s : LockSystem ρ κ) :
    LockAction ρ κ → LockManager ρ κ → List (LockEvent ρ κ) → Prop where
  | acquired (r : ρ) (ty : LockType) (c : κ) (timeout : Json) (now : Rat)
      (extra : List (LockEvent ρ κ)) (q : Request ρ κ) :
      q = ⟨r, ty, c, timeout, s.nextRequest⟩ → (∀ e ∈ extra, ∃ err, e = .raised q err) →
      TableStep s (.acquire r ty c timeout now) (s.manager.tryAcquire q now).manager
        ((s.manager.tryAcquire q now).events ++ extra)
  | tested (k : Nat) (now : Rat) : TableStep s (.test k now) s.manager []
  | polled (k : Nat) (now : Rat) (call : Call ρ κ) : s.calls[k]? = some call →
      TableStep s (.poll k now) (s.manager.poll call.request now).manager
        (s.manager.poll call.request now).events
  | gaveUp (k : Nat) (call : Call ρ κ) : s.calls[k]? = some call →
      TableStep s (.giveUp k) (s.manager.dropWaiter call.request)
        [.answered call.request false]
  | released (r : ρ) (c : κ) (now : Rat) :
      TableStep s (.release r c now) (s.manager.releaseLock r c now).1
        (s.manager.releaseLock r c now).2
  | swept (now : Rat) (expired : List ρ) :
      TableStep s (.sweep now) (s.manager.takeAway .expired now expired).1
        (s.manager.takeAway .expired now expired).2
  | notSwept (now : Rat) : TableStep s (.sweep now) s.manager []
  | resolved (victim : κ) (now : Rat) :
      TableStep s (.resolveDeadlock victim now) (s.manager.resolveDeadlock victim now).1
        (s.manager.resolveDeadlock victim now).2

omit [BEq ρ] [BEq κ] in
/-- A quantity that raising leaves alone. -/
theorem foldl_raised {γ : Type} {f : γ → LockEvent ρ κ → γ} {q : Request ρ κ}
    (hf : ∀ g e, f g (.raised q e) = g) {extra : List (LockEvent ρ κ)}
    (h : ∀ e ∈ extra, ∃ err, e = .raised q err) (g : γ) : extra.foldl f g = g := by
  induction extra generalizing g with
  | nil => rfl
  | cons e rest ih =>
    obtain ⟨err, rfl⟩ := h e (by simp)
    rw [List.foldl_cons, hf]
    exact ih (fun e' he' => h e' (by simp [he'])) g

theorem acquire_tables (s : LockSystem ρ κ) (q : Request ρ κ) (now : Rat) :
    (s.acquire q now).1.manager = (s.manager.tryAcquire q now).manager ∧
      ∃ extra, (s.acquire q now).2 = (s.manager.tryAcquire q now).events ++ extra ∧
        ∀ e ∈ extra, ∃ err, e = LockEvent.raised q err := by
  unfold acquire
  simp only
  split
  · exact ⟨rfl, [], by simp, by simp⟩
  · split
    · next err _ => exact ⟨rfl, [.raised q err], rfl, by simp⟩
    · exact ⟨rfl, [], by simp, by simp⟩

/-- Every step is one section on the tables. -/
theorem step_tables {s s' : LockSystem ρ κ} {a : LockAction ρ κ} {out : List (LockEvent ρ κ)}
    (h : s.step a = some (s', out)) : TableStep s a s'.manager out := by
  cases a with
  | acquire r ty c timeout now =>
    simp only [step, Option.some.injEq] at h
    obtain ⟨hm, extra, hev, hraised⟩ :=
      s.acquire_tables ⟨r, ty, c, timeout, s.nextRequest⟩ now
    rw [h] at hm hev
    simp only at hm hev
    rw [hm, hev]
    exact .acquired r ty c timeout now extra _ rfl hraised
  | test k now =>
    simp only [step] at h
    split at h
    · cases h; exact .tested k now
    · cases h
  | poll k now =>
    simp only [step] at h
    split at h
    · next q deadline hk => cases h; exact .polled k now _ hk
    · cases h
  | giveUp k =>
    simp only [step] at h
    split at h
    · next q deadline hk => cases h; exact .gaveUp k _ hk
    · cases h
  | release r c now => cases h; exact .released r c now
  | sweep now =>
    simp only [step] at h
    split at h
    · split at h
      · next m events hs =>
        cases h
        obtain ⟨expired, heq⟩ := LockManager.sweep_eq hs
        obtain ⟨rfl, rfl⟩ := Prod.mk.inj heq
        exact .swept now expired
      · cases h; exact .notSwept now
    · cases h
  | resolveDeadlock victim now => cases h; exact .resolved victim now

end LockSystem

end SyncSystem.Locks
