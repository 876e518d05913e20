/-
SyncSystem.Locks.Waiting — the waiting queues.

§1 says what each section does to the waiters of a resource. Whoever
deletes a lock hands the resource over in the same section, so a
resource somebody waits for has a lock (`no_lost_wakeup`).
-/
import SyncSystem.Locks.Ownership

namespace SyncSystem.Locks

open SyncSystem.Python

variable {ρ κ : Type} [DecidableEq ρ] [DecidableEq κ]

/-! ## §1 The waiters of a resource -/

namespace LockManager

/-- `self.waiting_queue.get(r, [])`. -/
def waiters (m : LockManager ρ κ) (r : ρ) : List (Waiter κ) := (m.waitingQueue.get? r).getD []

/-- The other tables do not matter. -/
@[simp] theorem waiters_record (m : LockManager ρ κ) (lock : Lock ρ κ) (r : ρ) :
    (m.record lock).waiters r = m.waiters r := rfl

@[simp] theorem waiters_enqueue (m : LockManager ρ κ) (q : Request ρ κ) (r : ρ) :
    (m.enqueue q).waiters r =
      if q.resourceId = r then m.waiters r ++ [q.waiter] else m.waiters r := by
  by_cases h : q.resourceId = r <;> simp [waiters, enqueue, Dict.get?_set, h]

@[simp] theorem waiters_dropWaiter (m : LockManager ρ κ) (q : Request ρ κ) (r : ρ) :
    (m.dropWaiter q).waiters r =
      if q.resourceId = r then (m.waiters r).filter (fun w => w.requestId != q.requestId)
      else m.waiters r := by
  unfold dropWaiter
  split
  · next hnone =>
    split
    · next h => simp [waiters, ← h, hnone]
    · rfl
  · next ws hsome =>
    by_cases h : q.resourceId = r
    · subst h
      simp [waiters, Dict.get?_set, hsome]
    · simp [waiters, Dict.get?_set, h]

theorem waiters_dropWaiter_subset (m : LockManager ρ κ) (q : Request ρ κ) (r : ρ) :
    (m.dropWaiter q).waiters r ⊆ m.waiters r := by
  rw [waiters_dropWaiter]
  split
  · exact List.filter_subset_self _
  · exact List.Subset.refl _

/-- No entry of the request is left. -/
theorem ne_of_mem_dropWaiter {m : LockManager ρ κ} {q : Request ρ κ} {w : Waiter κ}
    (h : w ∈ (m.dropWaiter q).waiters q.resourceId) : w.requestId ≠ q.requestId := by
  rw [waiters_dropWaiter, if_pos rfl] at h
  simpa using (List.mem_filter.mp h).2

theorem waiters_of_get? {m : LockManager ρ κ} {r : ρ} {ws : List (Waiter κ)}
    (h : m.waitingQueue.get? r = some ws) : m.waiters r = ws := by
  rw [waiters, h]
  rfl

/-- Nobody waits: nothing happens. -/
theorem processWaiting_nil {m : LockManager ρ κ} {r : ρ} (h : m.waiters r = []) (now : Rat) :
    m.processWaiting r now = (m, []) := by
  unfold processWaiting
  split
  · next w ws hsome =>
    rw [waiters_of_get? hsome] at h
    cases h
  · rfl

/-- The first waiter gets the lock and leaves the queue. -/
theorem processWaiting_cons {m : LockManager ρ κ} {r : ρ} {w : Waiter κ} {ws : List (Waiter κ)}
    (h : m.waiters r = w :: ws) (now : Rat) :
    m.processWaiting r now =
      ({ m with
          waitingQueue := m.waitingQueue.set r ws
          locks := m.locks.set r (w.lock r now) },
        [.recorded (w.lock r now)]) := by
  unfold processWaiting
  split
  · next w' ws' hsome =>
    rw [waiters_of_get? hsome] at h
    cases h
    rfl
  · next hnone =>
    unfold waiters at h
    cases hget : m.waitingQueue.get? r with
    | none => simp [hget] at h
    | some ws' =>
      simp only [hget, Option.getD_some] at h
      subst h
      exact absurd hget (hnone w ws)

@[simp] theorem waiters_processWaiting (m : LockManager ρ κ) (r r' : ρ) (now : Rat) :
    (m.processWaiting r now).1.waiters r' =
      if r = r' then (m.waiters r').tail else m.waiters r' := by
  cases hw : m.waiters r with
  | nil =>
    rw [processWaiting_nil hw]
    split
    · next h => rw [← h, hw]; rfl
    · rfl
  | cons w ws =>
    rw [processWaiting_cons hw]
    by_cases h : r = r'
    · subst h
      rw [if_pos rfl, hw]
      simp [waiters, Dict.get?_set]
    · simp [waiters, Dict.get?_set, h]

theorem get?_locks_record (m : LockManager ρ κ) (lock : Lock ρ κ) (r : ρ) :
    (m.record lock).locks.get? r = if lock.resourceId = r then some lock else m.locks.get? r := by
  simp [record, Dict.get?_set]

end LockManager

/-! ## §2 No lost wake-up -/

/-- A resource somebody waits for has a lock, except perhaps those `P`
holds of. -/
def HandedOver (P : ρ → Prop) (m : LockManager ρ κ) : Prop :=
  ∀ r, m.waiters r ≠ [] → P r ∨ ∃ lock, m.locks.get? r = some lock

namespace HandedOver

variable {P : ρ → Prop} {m m' : LockManager ρ κ}

theorem init : HandedOver P (LockManager.init : LockManager ρ κ) := by
  intro r h
  exact absurd rfl h

/-- The locks stay and nobody starts to wait. -/
theorem keep (h : HandedOver P m) (hl : m'.locks = m.locks)
    (hw : ∀ r, m'.waiters r ≠ [] → m.waiters r ≠ []) : HandedOver P m' := by
  intro r hr
  rw [hl]
  exact h r (hw r hr)

theorem record (h : HandedOver P m) (lock : Lock ρ κ) : HandedOver P (m.record lock) := by
  intro r hr
  rw [LockManager.get?_locks_record]
  split
  · exact Or.inr ⟨lock, rfl⟩
  · exact h r hr

/-- A request waits for a resource that has a lock. -/
theorem enqueue (h : HandedOver P m) {q : Request ρ κ} {lock : Lock ρ κ}
    (hl : m.locks.get? q.resourceId = some lock) : HandedOver P (m.enqueue q) := by
  intro r hr
  rw [LockManager.waiters_enqueue] at hr
  split at hr
  · next heq => exact Or.inr ⟨lock, heq ▸ hl⟩
  · exact h r hr

theorem dropWaiter (h : HandedOver P m) (q : Request ρ κ) : HandedOver P (m.dropWaiter q) := by
  refine h.keep (LockManager.dropWaiter_locks m q) ?_
  intro r hr hnil
  rw [LockManager.waiters_dropWaiter, hnil] at hr
  simp at hr

/-- A lock is deleted: its resource is the one to hand over. -/
theorem free (h : HandedOver P m) (r : ρ) : HandedOver (fun r' => r' = r ∨ P r') (m.free r) := by
  intro r' hr
  rcases h r' hr with hp | ⟨lock, hl⟩
  · exact Or.inl (Or.inr hp)
  · by_cases heq : r = r'
    · exact Or.inl (Or.inl heq.symm)
    · refine Or.inr ⟨lock, ?_⟩
      simp [LockManager.free, Dict.get?_del, heq, hl]

/-- The resource that was to be handed over has been. -/
theorem processWaiting {r : ρ} (h : HandedOver (fun r' => r' = r ∨ P r') m) (now : Rat) :
    HandedOver P (m.processWaiting r now).1 := by
  cases hw : m.waiters r with
  | nil =>
    rw [LockManager.processWaiting_nil hw]
    intro r' hr
    rcases h r' hr with (rfl | hp) | hl
    · exact absurd hw hr
    · exact Or.inl hp
    · exact Or.inr hl
  | cons w ws =>
    intro r' hr
    by_cases heq : r = r'
    · refine Or.inr ⟨w.lock r now, ?_⟩
      rw [LockManager.processWaiting_cons hw, ← heq]
      simp [Dict.get?_set]
    · rw [LockManager.waiters_processWaiting, if_neg heq] at hr
      rw [LockManager.processWaiting_cons hw]
      simp only [Dict.get?_set, beq_iff_eq, if_neg heq]
      rcases h r' hr with (rfl | hp) | hl
      · exact absurd rfl heq
      · exact Or.inl hp
      · exact Or.inr hl

theorem takeAway (h : HandedOver P m) (event : Lock ρ κ → LockEvent ρ κ) (now : Rat)
    (rids : List ρ) : HandedOver P (m.takeAway event now rids).1 :=
  LockManager.takeAway_keeps (fun _ rid h => (h.free rid).processWaiting now) h event rids

/-- Nobody waits for a resource that is free. -/
theorem nobody_waits (h : HandedOver (fun _ => False) m) {r : ρ} (hr : m.locks.get? r = none) :
    m.waiters r = [] := by
  by_contra hwait
  obtain ⟨lock, hl⟩ := (h r hwait).resolve_left id
  rw [hr] at hl
  cases hl


theorem tryAcquire (h : HandedOver P m) (q : Request ρ κ) (now : Rat) :
    HandedOver P (m.tryAcquire q now).manager := by
  unfold LockManager.tryAcquire
  split
  · exact h.record _
  · next existing hsome =>
    split
    · exact h.keep rfl (fun _ hr => hr)
    · split
      · exact h.record _
      · exact h.enqueue hsome

theorem poll (h : HandedOver P m) (q : Request ρ κ) (now : Rat) :
    HandedOver P (m.poll q now).manager := by
  unfold LockManager.poll
  split
  · exact (h.record _).dropWaiter q
  · split <;> exact h

theorem releaseLock (h : HandedOver P m) (r : ρ) (c : κ) (now : Rat) :
    HandedOver P (m.releaseLock r c now).1 := by
  unfold LockManager.releaseLock
  split
  · exact h
  · split
    · exact h
    · have hfreed : HandedOver (fun r' => r' = r ∨ P r')
          { m with locks := m.locks.del r, sharedLocks := m.sharedLocks.del r } := h.free r
      exact hfreed.processWaiting now

end HandedOver


theorem handedOver_step {s s' : LockSystem ρ κ} {a : LockAction ρ κ} {out : List (LockEvent ρ κ)}
    {P : ρ → Prop} (h : HandedOver P s.manager) (hs : s.step a = some (s', out)) :
    HandedOver P s'.manager := by
  have hstep := LockSystem.step_tables hs
  revert hstep
  generalize s'.manager = m'
  intro hstep
  cases hstep with
  | acquired r ty a timeout now extra q _ _ => exact h.tryAcquire q now
  | tested => exact h
  | polled k now call _ => exact h.poll call.request now
  | gaveUp k call _ => exact h.dropWaiter call.request
  | released r a now => exact h.releaseLock r a now
  | swept now expired => exact h.takeAway .expired now expired
  | notSwept => exact h
  | resolved victim now => exact h.takeAway .resolved now _

theorem handedOver_of_leads {c : LockRun ρ κ}
    (h : LockSystem.machine.Leads Machine.always ([], LockSystem.init) c) :
    HandedOver (fun _ => False) c.2.manager :=
  h.invariant (I := fun c => HandedOver (fun _ => False) c.2.manager) HandedOver.init
    (fun _ _ _ _ _ ih _ hs => handedOver_step ih hs)

/-- **No lost wake-up.** In every run a resource that somebody waits for
has a lock; so nobody waits for a resource that is free. -/
theorem no_lost_wakeup {c : LockRun ρ κ}
    (h : LockSystem.machine.Leads Machine.always ([], LockSystem.init) c) (r : ρ) :
    (c.2.manager.waiters r ≠ [] → ∃ lock, c.2.manager.locks.get? r = some lock) ∧
      (c.2.manager.locks.get? r = none → c.2.manager.waiters r = []) := by
  have hinv := handedOver_of_leads h
  exact ⟨fun hr => (hinv r hr).resolve_left id, hinv.nobody_waits⟩

/-- Two clients wait; the holder is the victim of a deadlock, and the
first of them is handed the lock. -/
def victimRun : List (LockAction String String) :=
  [.acquire "r" .exclusive "c1" (.int 30) 0, .acquire "r" .shared "c2" (.int 30) 1,
   .acquire "r" .exclusive "c3" (.int 30) 2, .resolveDeadlock "c1" 3]

theorem no_lost_wakeup_victimRun :
    ∃ c, LockSystem.machine.Leads Machine.always ([], LockSystem.init) c ∧
      c.2.manager.holder "r" ≠ some "c1" ∧
      ∃ lock, c.2.manager.locks.get? "r" = some lock := by
  obtain ⟨c, hc, hp⟩ := Machine.exists_leads_of_exec LockSystem.machine Machine.always
    ([], LockSystem.init) victimRun
    (fun c => decide (c.2.manager.holder "r" ≠ some "c1") &&
      !(c.2.manager.waiters "r").isEmpty) (by decide +kernel)
  simp only [Bool.and_eq_true, decide_eq_true_eq, Bool.not_eq_true', List.isEmpty_eq_false_iff] at hp
  exact ⟨c, hc, hp.1, (no_lost_wakeup hc "r").1 hp.2⟩

end SyncSystem.Locks
