/-
SyncSystem.Locks.Manager — `DistributedLockManager`: its tables and the
atomic sections of its methods.

Translated from `src/nodes/lock_manager.py`. Every critical section runs
under `self._lock` and never suspends inside, so it is a function of the
tables; the clock is read once a section. What a section does that a
client or an observer can see (a `Lock` written or taken away, a call
that returns) it returns as a list of `LockEvent`s in the order of the
source, next to the new tables.

Resources and clients are any two types with an equality; request ids
are numbers given out in order, in place of `uuid4`. A `timeout` is any
JSON value. The two status queries are in `Locks.Status`.
-/
import SyncSystem.Python.Json
import SyncSystem.Python.Dict

namespace SyncSystem.Locks

open SyncSystem.Python

inductive LockType where
  | shared
  | exclusive
  deriving DecidableEq, Repr

structure Lock (ρ κ : Type) where
  resourceId : ρ
  lockType : LockType
  holderId : κ
  requestId : Nat
  createdAt : Rat
  ttl : Json

/-- An entry of `waiting_queue[resource_id]`. -/
structure Waiter (κ : Type) where
  clientId : κ
  lockType : LockType
  requestId : Nat

/-- The arguments of one `acquire_lock` call and its `request_id`. -/
structure Request (ρ κ : Type) where
  resourceId : ρ
  lockType : LockType
  clientId : κ
  timeout : Json
  requestId : Nat

inductive ReleaseResult where
  | success
  | lockNotFound
  | notHolder
  deriving DecidableEq, Repr

/-- What a section does, in the order it does it. -/
inductive LockEvent (ρ κ : Type) where
  /-- `self.locks[resource_id] = lock`. -/
  | recorded (lock : Lock ρ κ)
  /-- The request is appended to `waiting_queue`. -/
  | queued (q : Request ρ κ)
  /-- `acquire_lock` returns. -/
  | answered (q : Request ρ κ) (success : Bool)
  /-- `acquire_lock` raises. -/
  | raised (q : Request ρ κ) (e : PyError)
  /-- `release_lock` decides and, on success, deletes the lock. -/
  | releaseCalled (r : ρ) (c : κ) (result : ReleaseResult)
  /-- The expiry sweep deletes the lock. -/
  | expired (lock : Lock ρ κ)
  /-- Deadlock resolution deletes the lock. -/
  | resolved (lock : Lock ρ κ)

variable {ρ κ : Type}

/-- The `Lock` a request is granted with. -/
def Request.lock (q : Request ρ κ) (now : Rat) : Lock ρ κ where
  resourceId := q.resourceId
  lockType := q.lockType
  holderId := q.clientId
  requestId := q.requestId
  createdAt := now
  ttl := q.timeout

def Request.waiter (q : Request ρ κ) : Waiter κ where
  clientId := q.clientId
  lockType := q.lockType
  requestId := q.requestId

/-- The `Lock` a waiter is handed; its own timeout is not kept. -/
def Waiter.lock (w : Waiter κ) (r : ρ) (now : Rat) : Lock ρ κ where
  resourceId := r
  lockType := w.lockType
  holderId := w.clientId
  requestId := w.requestId
  createdAt := now
  ttl := .int 30

variable [BEq ρ] [BEq κ]

/-- The tables of `DistributedLockManager`. -/
structure LockManager (ρ κ : Type) [BEq ρ] [BEq κ] where
  locks : Dict ρ (Lock ρ κ)
  /-- The Python sets, as lists without repetition. -/
  sharedLocks : Dict ρ (List κ)
  waitingQueue : Dict ρ (List (Waiter κ))
  /-- What `_detect_cycles` reads. No method assigns it. -/
  waitGraph : Dict κ (List κ)

/-- What a section of `acquire_lock` leaves: the tables, what it did and
whether the call returned in it. -/
structure Section (ρ κ : Type) [BEq ρ] [BEq κ] where
  manager : LockManager ρ κ
  events : List (LockEvent ρ κ)
  returned : Bool

namespace LockManager

/-- `DistributedLockManager.__init__`. -/
def init : LockManager ρ κ := ⟨.empty, .empty, .empty, .empty⟩

/-- `self.locks[lock.resource_id] = lock`. -/
def record (m : LockManager ρ κ) (lock : Lock ρ κ) : LockManager ρ κ :=
  { m with locks := m.locks.set lock.resourceId lock }

/-- `self.shared_locks[resource_id].add(client_id)`, with the set made
when it is missing. -/
def joinShared (m : LockManager ρ κ) (r : ρ) (c : κ) : LockManager ρ κ :=
  let sharers := (m.sharedLocks.get? r).getD []
  { m with sharedLocks :=
      m.sharedLocks.set r (if sharers.any (· == c) then sharers else sharers ++ [c]) }

/-- `self.waiting_queue[resource_id].append(...)`, with the list made
when it is missing. -/
def enqueue (m : LockManager ρ κ) (q : Request ρ κ) : LockManager ρ κ :=
  { m with waitingQueue :=
      m.waitingQueue.set q.resourceId ((m.waitingQueue.get? q.resourceId).getD [] ++ [q.waiter]) }

/-- The entries of the request are filtered out of `waiting_queue`. -/
def dropWaiter (m : LockManager ρ κ) (q : Request ρ κ) : LockManager ρ κ :=
  match m.waitingQueue.get? q.resourceId with
  | none => m
  | some ws =>
      { m with waitingQueue :=
          m.waitingQueue.set q.resourceId (ws.filter (fun w => w.requestId != q.requestId)) }

@[simp] theorem dropWaiter_locks (m : LockManager ρ κ) (q : Request ρ κ) :
    (m.dropWaiter q).locks = m.locks := by
  unfold dropWaiter
  split <;> rfl

/-! ## `acquire_lock` -/

/-- The first critical section: a free resource is taken, a SHARED lock
joined, the holder's own lock replaced; else the request waits. -/
def tryAcquire (m : LockManager ρ κ) (q : Request ρ κ) (now : Rat) : Section ρ κ :=
  match m.locks.get? q.resourceId with
  | none =>
      { manager := m.record (q.lock now)
        events := [.recorded (q.lock now), .answered q true]
        returned := true }
  | some existing =>
      if q.lockType = .shared ∧ existing.lockType = .shared then
        { manager := m.joinShared q.resourceId q.clientId
          events := [.answered q true]
          returned := true }
      else if (existing.holderId == q.clientId) = true ∧ q.lockType = .exclusive then
        { manager := m.record (q.lock now)
          events := [.recorded (q.lock now), .answered q true]
          returned := true }
      else
        { manager := m.enqueue q
          events := [.queued q]
          returned := false }

/-- The critical section of one pass of the wait loop. A lock of the
same client answers the call, whichever request it was granted for. -/
def poll (m : LockManager ρ κ) (q : Request ρ κ) (now : Rat) : Section ρ κ :=
  match m.locks.get? q.resourceId with
  | none =>
      { manager := (m.record (q.lock now)).dropWaiter q
        events := [.recorded (q.lock now), .answered q true]
        returned := true }
  | some current =>
      if current.holderId == q.clientId then
        { manager := m, events := [.answered q true], returned := true }
      else
        { manager := m, events := [], returned := false }

/-! ## Releases and hand-over -/

/-- `_process_waiting`. -/
def processWaiting (m : LockManager ρ κ) (r : ρ) (now : Rat) :
    LockManager ρ κ × List (LockEvent ρ κ) :=
  match m.waitingQueue.get? r with
  | some (w :: ws) =>
      ({ m with
          waitingQueue := m.waitingQueue.set r ws
          locks := m.locks.set r (w.lock r now) },
        [.recorded (w.lock r now)])
  | _ => (m, [])

/-- `release_lock`. -/
def releaseLock (m : LockManager ρ κ) (r : ρ) (c : κ) (now : Rat) :
    LockManager ρ κ × List (LockEvent ρ κ) :=
  match m.locks.get? r with
  | none => (m, [.releaseCalled r c .lockNotFound])
  | some lock =>
      if lock.holderId != c then (m, [.releaseCalled r c .notHolder])
      else
        let m' := { m with locks := m.locks.del r, sharedLocks := m.sharedLocks.del r }
        let (m'', events) := m'.processWaiting r now
        (m'', .releaseCalled r c .success :: events)

/-- `del self.locks[rid]` and `_process_waiting(rid)` for each of the
resources; `event` says on whose behalf a lock goes. -/
def takeAway (m : LockManager ρ κ) (event : Lock ρ κ → LockEvent ρ κ) (now : Rat) :
    List ρ → LockManager ρ κ × List (LockEvent ρ κ)
  | [] => (m, [])
  | rid :: rest =>
      let (m', handed) := { m with locks := m.locks.del rid }.processWaiting rid now
      let (m'', events) := m'.takeAway event now rest
      (m'', ((m.locks.get? rid).map event).toList ++ handed ++ events)

/-- What is kept as one lock is deleted and its resource handed over is
kept by `takeAway`. -/
theorem takeAway_keeps {P : LockManager ρ κ → Prop} {now : Rat}
    (hkeeps : ∀ m r, P m → P ({ m with locks := m.locks.del r }.processWaiting r now).1)
    {m : LockManager ρ κ} (h : P m) (event : Lock ρ κ → LockEvent ρ κ) (rids : List ρ) :
    P (m.takeAway event now rids).1 := by
  induction rids generalizing m with
  | nil => exact h
  | cons rid rest ih => exact ih (hkeeps m rid h)

/-- The resources whose lock is older than its ttl. A ttl that is not a
number raises. -/
def expiredIn (now : Rat) : List (ρ × Lock ρ κ) → Except PyError (List ρ)
  | [] => .ok []
  | (rid, lock) :: rest => do
      let ttl ← lock.ttl.num
      let others ← expiredIn now rest
      return if now - lock.createdAt > ttl then rid :: others else others

/-- One pass of `_lock_expiry_checker`. -/
def sweep (m : LockManager ρ κ) (now : Rat) :
    Except PyError (LockManager ρ κ × List (LockEvent ρ κ)) := do
  let expired ← expiredIn now m.locks.entries
  return m.takeAway .expired now expired

theorem sweep_eq {m : LockManager ρ κ} {now : Rat} {r : LockManager ρ κ × List (LockEvent ρ κ)}
    (h : m.sweep now = .ok r) : ∃ expired, r = m.takeAway .expired now expired := by
  unfold sweep at h
  cases he : expiredIn now m.locks.entries with
  | error e => simp [he, bind, Except.bind] at h
  | ok expired =>
    simp only [he, bind, Except.bind, pure, Except.pure, Except.ok.injEq] at h
    exact ⟨expired, h.symm⟩

/-- `_resolve_deadlock`, for `victim = cycle[0]`. It runs without the
mutex, but does not suspend either. -/
def resolveDeadlock (m : LockManager ρ κ) (victim : κ) (now : Rat) :
    LockManager ρ κ × List (LockEvent ρ κ) :=
  m.takeAway .resolved now
    ((m.locks.entries.filter (fun e => e.2.holderId == victim)).map (·.1))

end LockManager

end SyncSystem.Locks
