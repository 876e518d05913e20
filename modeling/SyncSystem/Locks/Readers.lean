/-
SyncSystem.Locks.Readers — a reader that waits behind a reader.

`acquire_lock` lets any reader in beside a SHARED lock. `_process_waiting`
hands a resource to one waiter, a timeout takes one entry out, and
neither looks at the entry that is first afterwards: a reader that
arrives then is let in while the one at the head waits
(`reader_behind_reader`). `AdmitsReaders` is that neither uncovers such
an entry, and it is exact (`readers_not_blocked_iff`).
-/
import SyncSystem.Locks.Effects

namespace SyncSystem.Locks

open SyncSystem.Python

variable {ρ κ : Type} [DecidableEq ρ] [DecidableEq κ]

/-- Beside a SHARED lock no reader is at the head of the queue. -/
def ReadersNotBlocked (s : LockSystem ρ κ) : Prop :=
  ∀ r lock, s.manager.locks.get? r = some lock → lock.lockType = .shared →
    ∀ w ∈ (s.manager.waiters r).head?, w.lockType ≠ .shared

theorem readersNotBlocked_init : ReadersNotBlocked (LockSystem.init : LockSystem ρ κ) := by
  intro r lock hl
  cases hl

/-- The resource is locked SHARED. -/
def LockManager.lockedShared (m : LockManager ρ κ) (r : ρ) : Bool :=
  (m.locks.get? r).any (fun lock => lock.lockType = .shared)


/-- A hand-over to a reader does not leave a reader at the head of the
queue, and neither does a timeout beside a SHARED lock. -/
abbrev AdmitsReaders (c : LockRun ρ κ) : LockAction ρ κ → Prop
  | .giveUp k =>
      ∀ call ∈ c.2.calls[k]?, c.2.manager.lockedShared call.request.resourceId = true →
        ∀ w ∈ ((c.2.manager.waiters call.request.resourceId).filter
          (fun w => w.requestId != call.request.requestId)).head?, w.lockType ≠ .shared
  | a =>
      ∀ r ∈ c.2.takenBy a, ∀ w ∈ (c.2.manager.waiters r).head?, w.lockType = .shared →
        ∀ w' ∈ (c.2.manager.waiters r).tail.head?, w'.lockType ≠ .shared

instance (c : LockRun ρ κ) (a : LockAction ρ κ) : Decidable (AdmitsReaders c a) :=
  LockAction.decidable a

namespace ReadersNotBlocked

variable {s : LockSystem ρ κ}

/-- A request that waits beside a SHARED lock is EXCLUSIVE. -/
theorem enqueue (h : ReadersNotBlocked s) {q : Request ρ κ} {existing : Lock ρ κ}
    (hexisting : s.manager.locks.get? q.resourceId = some existing)
    (hwriter : q.lockType = .shared → existing.lockType = .exclusive) {r : ρ} {lock : Lock ρ κ}
    (hl : s.manager.locks.get? r = some lock) (hshared : lock.lockType = .shared) :
    ∀ w ∈ ((s.manager.enqueue q).waiters r).head?, w.lockType ≠ .shared := by
  intro w hw
  rw [LockManager.waiters_enqueue] at hw
  split at hw
  · next heq =>
    subst heq
    cases hws : s.manager.waiters q.resourceId with
    | nil =>
      have hq : w = q.waiter := by simpa [hws, eq_comm] using hw
      intro htype
      rw [hq] at htype
      have hexclusive := hwriter htype
      rw [hexisting] at hl
      cases hl
      rw [hshared] at hexclusive
      cases hexclusive
    | cons first rest =>
      refine h _ lock hl hshared w ?_
      simpa [hws] using hw
  · exact h r lock hl hshared w hw

/-- A free resource is taken, and nobody waits for it. -/
theorem record (h : ReadersNotBlocked s) (hover : HandedOver (fun _ => False) s.manager)
    {q : Request ρ κ} {now : Rat} (hfree : s.manager.locks.get? q.resourceId = none)
    {r : ρ} {lock : Lock ρ κ} (hl : (s.manager.record (q.lock now)).locks.get? r = some lock)
    (hshared : lock.lockType = .shared) :
    ∀ w ∈ (s.manager.waiters r).head?, w.lockType ≠ .shared := by
  intro w hw
  rw [LockManager.get?_locks_record] at hl
  split at hl
  · next heq =>
    rw [← heq, show (q.lock now).resourceId = q.resourceId from rfl,
      hover.nobody_waits hfree] at hw
    cases hw
  · exact h r lock hl hshared w hw

end ReadersNotBlocked

theorem readers_step {c : LockRun ρ κ} {a : LockAction ρ κ} {s' : LockSystem ρ κ}
    {out : List (LockEvent ρ κ)} (hover : HandedOver (fun _ => False) c.2.manager)
    (h : ReadersNotBlocked c.2) (hok : AdmitsReaders c a) (hs : c.2.step a = some (s', out)) :
    ReadersNotBlocked s' := by
  intro r lock hl hshared
  cases LockSystem.step_effect hs with
  | taken r' ty c timeout now q hq hfree =>
    subst hq
    exact h.record hover hfree hl hshared
  | joined => exact h r lock hl hshared
  | upgraded r' c timeout now q existing hq _ _ =>
    rcases LockManager.lock_of_record hl with hl | ⟨_, hlock⟩
    · exact h r lock hl hshared
    · rw [hlock, hq] at hshared
      cases hshared
  | waits r' ty c timeout now q existing deadline hq hexisting hwriter _ _
  | raises r' ty c timeout now q existing e hq hexisting hwriter _ _ =>
    subst hq
    exact h.enqueue hexisting hwriter hl hshared
  | tested => exact h r lock hl hshared
  | pollTakes k now q deadline hk hfree =>
    simp only [LockSystem.after, LockManager.dropWaiter_locks] at hl
    intro w hw
    simp only [LockSystem.after, LockManager.waiters_dropWaiter] at hw
    split at hw
    · next heq =>
      rw [← heq, LockManager.waiters_record, hover.nobody_waits hfree] at hw
      cases hw
    · exact h.record hover hfree hl hshared w hw
  | pollFinds => exact h r lock hl hshared
  | pollsOn => exact h r lock hl hshared
  | gaveUp k q deadline hk =>
    simp only [LockSystem.after, LockManager.dropWaiter_locks] at hl
    intro w hw
    simp only [LockSystem.after, LockManager.waiters_dropWaiter] at hw
    split at hw
    · next heq =>
      subst heq
      refine hok _ hk ?_ w hw
      simp [LockManager.lockedShared, hl, hshared]
    · exact h r lock hl hshared w hw
  | tookAway a s' now out htakes htook _ _ _ =>
    have hok' : ∀ r ∈ c.2.takenBy a, ∀ w ∈ (c.2.manager.waiters r).head?, w.lockType = .shared →
        ∀ w' ∈ (c.2.manager.waiters r).tail.head?, w'.lockType ≠ .shared := by
      cases a <;> first | exact hok | cases htakes
    rw [htook.locks] at hl
    rw [htook.waiters]
    split at hl
    · next hr =>
      obtain ⟨w, hw, rfl⟩ := Option.map_eq_some_iff.mp hl
      rw [if_pos hr]
      exact hok' r hr w hw hshared
    · next hr =>
      rw [if_neg hr]
      exact h r lock hl hshared

/-- Any other step leaves a reader at the head of a SHARED lock's queue. -/
theorem reader_uncovered {c : LockRun ρ κ} {a : LockAction ρ κ} {s' : LockSystem ρ κ}
    {out : List (LockEvent ρ κ)} (hok : ¬ AdmitsReaders c a)
    (hs : c.2.step a = some (s', out)) : ¬ ReadersNotBlocked s' := by
  intro h
  apply hok
  have heff := LockSystem.step_effect hs
  cases a with
  | giveUp k =>
    intro call hcall hshared w hw
    cases heff with
    | gaveUp k q deadline hk =>
      obtain rfl : (⟨q, deadline, .timedOut⟩ : Call ρ κ) = call :=
        Option.some.inj (hk.symm.trans hcall)
      obtain ⟨lock, hl, htype⟩ := Option.any_eq_true _ _ |>.mp hshared
      refine h q.resourceId lock ?_ (of_decide_eq_true htype) w ?_
      · simpa [LockSystem.after] using hl
      · simpa [LockSystem.after] using hw
    | tookAway _ _ _ _ htakes => cases htakes
  | _ =>
    intro r hr w hw hshared w' hw'
    obtain ⟨⟨now, hl⟩, hwaiters⟩ := heff.handed hr hw
    exact h r _ hl hshared w' (hwaiters ▸ hw')

theorem readers_of_leads {c : LockRun ρ κ}
    (h : LockSystem.machine.Leads AdmitsReaders ([], LockSystem.init) c) :
    ReadersNotBlocked c.2 :=
  h.invariant (I := fun c => ReadersNotBlocked c.2) readersNotBlocked_init
    (fun _ _ _ _ hreach ih hok hs =>
      readers_step (handedOver_of_leads hreach.always) ih hok hs)

/-- **Readers are not blocked by readers**: in every state of a run the
head of the queue of a SHARED lock is not a reader, exactly when no
hand-over to a reader and no timeout beside a SHARED lock leaves a reader
at the head. -/
theorem readers_not_blocked_iff {c : LockRun ρ κ}
    (h : LockSystem.machine.Leads Machine.always ([], LockSystem.init) c) :
    (∀ s ∈ c.visited, ReadersNotBlocked s) ↔
      EveryStep (fun before a _ => AdmitsReaders before a) c.1 :=
  h.visited_iff (fun _ hreach => readers_of_leads hreach)
    (fun _ _ _ _ _ hok hs => reader_uncovered hok hs)

/-- A writer, and behind it a reader and a writer: the reader gets the
lock, and the next in line is the writer. -/
def alternatingRun : List (LockAction String String) :=
  [.acquire "r" .exclusive "c1" (.int 30) 0, .acquire "r" .shared "c2" (.int 30) 1,
   .acquire "r" .exclusive "c3" (.int 30) 1, .release "r" "c1" 2,
   .acquire "r" .shared "c4" (.int 30) 3]

theorem readers_not_blocked_iff_alternatingRun :
    ∃ c : LockRun String String,
      LockSystem.machine.Leads Machine.always ([], LockSystem.init) c ∧
      c.2.manager.lockedShared "r" = true ∧ c.2.manager.waiters "r" ≠ [] ∧
      ∀ s ∈ c.visited, ReadersNotBlocked s := by
  obtain ⟨c, hc, hp⟩ := Machine.exists_leads_of_exec LockSystem.machine Machine.always
    ([], LockSystem.init) alternatingRun
    (fun c => c.2.manager.lockedShared "r" && !(c.2.manager.waiters "r").isEmpty &&
      decide (EveryStep (fun before a _ => AdmitsReaders before a) c.1)) (by decide +kernel)
  simp only [Bool.and_eq_true, decide_eq_true_eq, Bool.not_eq_true', List.isEmpty_eq_false_iff] at hp
  exact ⟨c, hc, hp.1.1, hp.1.2, (readers_not_blocked_iff hc).mpr hp.2⟩

/-- A writer, and behind it two readers: one gets the lock, the other
waits for the first. -/
def twoReadersRun : List (LockAction String String) :=
  [.acquire "r" .exclusive "c1" (.int 30) 0, .acquire "r" .shared "c2" (.int 30) 1,
   .acquire "r" .shared "c3" (.int 30) 1, .test 0 1, .test 1 1, .release "r" "c1" 2]

theorem reader_behind_reader :
    ∃ c : LockRun String String,
      LockSystem.machine.Leads Machine.always ([], LockSystem.init) c ∧
      ¬ ReadersNotBlocked c.2 := by
  obtain ⟨c, hc, hp⟩ := Machine.exists_leads_of_exec LockSystem.machine Machine.always
    ([], LockSystem.init) twoReadersRun
    (fun c => (c.2.manager.locks.get? "r").any (fun lock : Lock String String =>
        decide (lock.lockType = .shared)) &&
      (c.2.manager.waiters "r").head?.any (fun w : Waiter String =>
        decide (w.lockType = .shared))) (by decide +kernel)
  simp only [Bool.and_eq_true, Option.any_eq_true, decide_eq_true_eq] at hp
  obtain ⟨⟨lock, hl, hshared⟩, w, hw, hreader⟩ := hp
  exact ⟨c, hc, fun h => h "r" lock hl hshared w hw hreader⟩

end SyncSystem.Locks
