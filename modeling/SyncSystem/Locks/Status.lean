/-
SyncSystem.Locks.Status — the status queries of the lock manager, and its
lock table as the replay of what it has done.

`get_lock_status` and `get_all_locks` read the table of locks. Every
change of `locks` is an event that a section puts out, so the table is
the fold of the events in their order (`replay_step`), down to the order
of its entries; and what it has at a resource is what the last event
about that resource says (`get?_foldl_replay`).
-/
import SyncSystem.Locks.System
import SyncSystem.Python.Key

namespace SyncSystem.Locks

open SyncSystem.Python

/-! ## The queries -/

/-- `lock_type.value`. -/
def LockType.value : LockType → String
  | .shared => "shared"
  | .exclusive => "exclusive"

/-- The answer of `get_lock_status` for a resource with this lock. -/
def statusOf (resourceId : Json) : Option (Lock Key Json) → Obj
  | some lock =>
      [("resource", resourceId), ("locked", .bool true), ("lock_type", .str lock.lockType.value),
       ("holder", lock.holderId)]
  | none => [("resource", resourceId), ("locked", .bool false)]

/-- One element of the answer of `get_all_locks`. -/
def lockEntry (e : Key × Lock Key Json) : Json :=
  .obj [("resource", e.1.value), ("lock_type", .str e.2.lockType.value), ("holder", e.2.holderId)]

namespace LockManager

/-- `get_lock_status`. An unhashable resource raises at the first look
into `locks`. -/
def getLockStatus (m : LockManager Key Json) (resourceId : Json) : Except PyError Obj :=
  match resourceId.key with
  | .error e => .error e
  | .ok r => .ok (statusOf resourceId (m.locks.get? r))

/-- `get_all_locks`. -/
def getAllLocks (m : LockManager Key Json) : List Json := m.locks.entries.map lockEntry

end LockManager

/-! ## Replaying events -/

section

variable {ρ κ : Type} [BEq ρ]

namespace LockEvent

/-- The lock table after an event. -/
def replay (locks : Dict ρ (Lock ρ κ)) : LockEvent ρ κ → Dict ρ (Lock ρ κ)
  | .recorded lock => locks.set lock.resourceId lock
  | .releaseCalled r _ .success => locks.del r
  | .expired lock => locks.del lock.resourceId
  | .resolved lock => locks.del lock.resourceId
  | _ => locks

/-- What an event leaves at a resource: nothing new, or its lock from now
on, which may be none. -/
def leaves (r : ρ) : LockEvent ρ κ → Option (Option (Lock ρ κ))
  | .recorded lock => if lock.resourceId == r then some (some lock) else none
  | .releaseCalled r' _ .success => if r' == r then some none else none
  | .expired lock => if lock.resourceId == r then some none else none
  | .resolved lock => if lock.resourceId == r then some none else none
  | _ => none

variable [PartialEquivBEq ρ]

theorem get?_replay (locks : Dict ρ (Lock ρ κ)) (e : LockEvent ρ κ) (r : ρ) :
    (replay locks e).get? r = (e.leaves r).getD (locks.get? r) := by
  cases e with
  | recorded lock =>
    simp only [replay, leaves, Dict.get?_set]
    split <;> rfl
  | releaseCalled r' c result =>
    cases result with
    | success =>
      simp only [replay, leaves, Dict.get?_del]
      split <;> rfl
    | _ => rfl
  | expired lock | resolved lock =>
    simp only [replay, leaves, Dict.get?_del]
    split <;> rfl
  | _ => rfl

/-- The last event that says something about a resource has the word. -/
theorem get?_foldl_replay (locks : Dict ρ (Lock ρ κ)) (events : List (LockEvent ρ κ)) (r : ρ) :
    (events.foldl replay locks).get? r =
      (events.reverse.findSome? (leaves r)).getD (locks.get? r) := by
  induction events generalizing locks with
  | nil => rfl
  | cons e rest ih =>
    rw [List.foldl_cons, ih, get?_replay, List.reverse_cons, List.findSome?_append]
    cases hlast : rest.reverse.findSome? (leaves r) with
    | some told => rfl
    | none => cases he : e.leaves r <;> simp [he]

end LockEvent

/-- Every lock of the table is on the resource it is kept under. -/
def Filed (locks : Dict ρ (Lock ρ κ)) : Prop :=
  ∀ r lock, locks.get? r = some lock → (lock.resourceId == r) = true

variable [PartialEquivBEq ρ]

theorem filed_replay {locks : Dict ρ (Lock ρ κ)} (h : Filed locks) (e : LockEvent ρ κ) :
    Filed (e.replay locks) := by
  have hset : ∀ lock, Filed (locks.set lock.resourceId lock) := by
    intro lock r found hfound
    rw [Dict.get?_set] at hfound
    split at hfound
    · next heq =>
      cases hfound
      exact heq
    · exact h r found hfound
  have hdel : ∀ k, Filed (locks.del k) := by
    intro k r found hfound
    rw [Dict.get?_del] at hfound
    split at hfound
    · cases hfound
    · exact h r found hfound
  cases e with
  | recorded lock => exact hset lock
  | releaseCalled r c result =>
    cases result with
    | success => exact hdel r
    | _ => exact h
  | expired lock | resolved lock => exact hdel lock.resourceId
  | _ => exact h

theorem filed_foldl_replay {locks : Dict ρ (Lock ρ κ)} (h : Filed locks)
    (events : List (LockEvent ρ κ)) : Filed (events.foldl LockEvent.replay locks) := by
  induction events generalizing locks with
  | nil => exact h
  | cons e rest ih => exact ih (filed_replay h e)

theorem del_congr (locks : Dict ρ (Lock ρ κ)) {r r' : ρ} (h : (r == r') = true) :
    locks.del r = locks.del r' := by
  have hkey : ∀ e : ρ × Lock ρ κ, (e.1 == r) = (e.1 == r') := fun e => BEq.congr_right h
  simp only [Dict.del, hkey]

/-! ## The sections of the lock manager -/

variable [BEq κ]

namespace LockManager

omit [PartialEquivBEq ρ] in
theorem replay_tryAcquire (m : LockManager ρ κ) (q : Request ρ κ) (now : Rat) :
    (m.tryAcquire q now).events.foldl LockEvent.replay m.locks =
      (m.tryAcquire q now).manager.locks := by
  unfold tryAcquire
  split
  · rfl
  · split
    · rfl
    · split <;> rfl

omit [PartialEquivBEq ρ] in
theorem replay_poll (m : LockManager ρ κ) (q : Request ρ κ) (now : Rat) :
    (m.poll q now).events.foldl LockEvent.replay m.locks = (m.poll q now).manager.locks := by
  unfold poll
  split
  · rw [dropWaiter_locks]
    rfl
  · split <;> rfl

omit [PartialEquivBEq ρ] in
theorem replay_processWaiting (m : LockManager ρ κ) (r : ρ) (now : Rat) :
    (m.processWaiting r now).2.foldl LockEvent.replay m.locks =
      (m.processWaiting r now).1.locks := by
  unfold processWaiting
  split <;> rfl

omit [PartialEquivBEq ρ] in
theorem replay_releaseLock (m : LockManager ρ κ) (r : ρ) (c : κ) (now : Rat) :
    (m.releaseLock r c now).2.foldl LockEvent.replay m.locks = (m.releaseLock r c now).1.locks := by
  unfold releaseLock
  split
  · rfl
  · split
    · rfl
    · exact replay_processWaiting
        { m with locks := m.locks.del r, sharedLocks := m.sharedLocks.del r } r now

/-- One resource taken away: a lock that goes is reported, and there is
nothing to report where there is none. -/
theorem replay_taken {m : LockManager ρ κ} {event : Lock ρ κ → LockEvent ρ κ}
    (hevent : ∀ locks lock, (event lock).replay locks = locks.del lock.resourceId)
    (hfiled : Filed m.locks) (r : ρ) :
    ((m.locks.get? r).map event).toList.foldl LockEvent.replay m.locks = m.locks.del r := by
  cases hlock : m.locks.get? r with
  | none => exact (Dict.del_of_get?_eq_none hlock).symm
  | some lock => exact (hevent m.locks lock).trans (del_congr m.locks (hfiled r lock hlock))

theorem replay_takeAway {m : LockManager ρ κ} {event : Lock ρ κ → LockEvent ρ κ}
    (hevent : ∀ locks lock, (event lock).replay locks = locks.del lock.resourceId)
    (hfiled : Filed m.locks) (now : Rat) (rids : List ρ) :
    (m.takeAway event now rids).2.foldl LockEvent.replay m.locks =
      (m.takeAway event now rids).1.locks := by
  induction rids generalizing m with
  | nil => rfl
  | cons rid rest ih =>
    have hhanded := replay_processWaiting { m with locks := m.locks.del rid } rid now
    have htaken := replay_taken hevent hfiled rid
    have hnext : Filed ({ m with locks := m.locks.del rid }.processWaiting rid now).1.locks := by
      rw [← hhanded]
      refine filed_foldl_replay ?_ _
      rw [← htaken]
      exact filed_foldl_replay hfiled _
    simp only [takeAway, List.foldl_append, htaken, hhanded]
    exact ih hnext

end LockManager

namespace LockSystem

/-- **Every change of the lock table is an event.** -/
theorem TableStep.replay {s : LockSystem ρ κ} {a : LockAction ρ κ} {m : LockManager ρ κ}
    {out : List (LockEvent ρ κ)} (h : TableStep s a m out) (hfiled : Filed s.manager.locks) :
    out.foldl LockEvent.replay s.manager.locks = m.locks := by
  cases h with
  | acquired r ty c timeout now extra q hq hextra =>
    rw [List.foldl_append, LockManager.replay_tryAcquire]
    exact foldl_raised (fun _ _ => rfl) hextra _
  | tested k now | notSwept now => rfl
  | polled k now call hk => exact LockManager.replay_poll ..
  | gaveUp k call hk => exact (LockManager.dropWaiter_locks ..).symm
  | released r c now => exact LockManager.replay_releaseLock ..
  | swept now expired => exact LockManager.replay_takeAway (fun _ _ => rfl) hfiled now expired
  | resolved victim now => exact LockManager.replay_takeAway (fun _ _ => rfl) hfiled now _

end LockSystem

end

end SyncSystem.Locks
