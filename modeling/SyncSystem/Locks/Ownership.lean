/-
SyncSystem.Locks.Ownership — with EXCLUSIVE requests only, the lock table
is in step with what clients were told.

A client owns a resource from a grant, recorded or answered, until its
successful release or the expiry of its lock. Ownership is read off what
the run has output, without the tables; `Tracks` says that it is exactly
the `holder_id` column of `locks`, and every section keeps that.
-/
import SyncSystem.Locks.System

namespace SyncSystem.Locks

open SyncSystem.Python

variable {ρ κ : Type} [DecidableEq ρ] [DecidableEq κ]

abbrev LockRun (ρ κ : Type) [BEq ρ] [BEq κ] :=
  Config (LockSystem ρ κ) (LockAction ρ κ) (List (LockEvent ρ κ))

/-! ## The lock table -/

namespace LockManager

/-- `self.locks[r].holder_id`, if there is a lock. -/
def holder (m : LockManager ρ κ) (r : ρ) : Option κ := (m.locks.get? r).map Lock.holderId

theorem holder_of_get? {m : LockManager ρ κ} {r : ρ} {lock : Lock ρ κ}
    (h : m.locks.get? r = some lock) : m.holder r = some lock.holderId := by
  simp [holder, h]

theorem holder_record (m : LockManager ρ κ) (lock : Lock ρ κ) (r : ρ) :
    (m.record lock).holder r = if lock.resourceId = r then some lock.holderId else m.holder r := by
  by_cases h : lock.resourceId = r <;> simp [holder, record, Dict.get?_set, h]

/-- `del self.locks[r]`. -/
def free (m : LockManager ρ κ) (r : ρ) : LockManager ρ κ := { m with locks := m.locks.del r }

theorem holder_free (m : LockManager ρ κ) (r r' : ρ) :
    (m.free r).holder r' = if r = r' then none else m.holder r' := by
  by_cases h : r = r' <;> simp [holder, free, Dict.get?_del, h]

end LockManager

/-- The owners are the recorded holders. -/
structure Tracks (m : LockManager ρ κ) (owners : List (ρ × κ)) : Prop where
  named : ∀ r lock, m.locks.get? r = some lock → lock.resourceId = r
  owner : ∀ r a, (r, a) ∈ owners ↔ m.holder r = some a

namespace Tracks

variable {m m' : LockManager ρ κ} {owners : List (ρ × κ)}

theorem init : Tracks (LockManager.init : LockManager ρ κ) [] where
  named := by intro r lock h; cases h
  owner := by intro r a; simp [LockManager.holder, LockManager.init]

/-- The other tables do not matter. -/
theorem congr (h : Tracks m owners) (hl : m'.locks = m.locks) : Tracks m' owners := by
  constructor
  · rw [hl]; exact h.named
  · intro r a
    rw [h.owner, LockManager.holder, LockManager.holder, hl]

/-- A grant of a resource nobody else holds. -/
theorem record (h : Tracks m owners) (lock : Lock ρ κ)
    (hfree : ∀ a, m.holder lock.resourceId = some a → a = lock.holderId) :
    Tracks (m.record lock) ((lock.resourceId, lock.holderId) :: owners) := by
  constructor
  · intro r l hl
    simp only [LockManager.record, Dict.get?_set, beq_iff_eq] at hl
    split at hl
    · next heq => cases hl; exact heq
    · exact h.named r l hl
  · intro r a
    rw [LockManager.holder_record, List.mem_cons, Prod.mk.injEq, h.owner]
    by_cases hr : lock.resourceId = r
    · subst hr
      simp only [if_true, Option.some.injEq, true_and]
      constructor
      · rintro (rfl | ha)
        · rfl
        · exact (hfree a ha).symm
      · rintro rfl
        exact Or.inl rfl
    · simp [hr, Ne.symm hr]

/-- The holder is told that it has the resource. -/
theorem told (h : Tracks m owners) {r : ρ} {a : κ} (ha : m.holder r = some a) :
    Tracks m ((r, a) :: owners) := by
  refine ⟨h.named, ?_⟩
  intro r' b
  rw [List.mem_cons, Prod.mk.injEq, h.owner]
  constructor
  · rintro (⟨rfl, rfl⟩ | hb)
    · exact ha
    · exact hb
  · exact Or.inr

end Tracks


/-! ## Owners -/

/-- The owners after one more event. -/
def ownStep (owners : List (ρ × κ)) : LockEvent ρ κ → List (ρ × κ)
  | .recorded lock => (lock.resourceId, lock.holderId) :: owners
  | .answered q true => (q.resourceId, q.clientId) :: owners
  | .releaseCalled r c .success => owners.filter (fun o => o ≠ (r, c))
  | .expired lock => owners.filter (fun o => o ≠ (lock.resourceId, lock.holderId))
  | _ => owners

/-- Client `a` owns `r` at the end of the run. -/
def Owns (c : LockRun ρ κ) (r : ρ) (a : κ) : Prop := (r, a) ∈ c.track ownStep []

instance (c : LockRun ρ κ) (r : ρ) (a : κ) : Decidable (Owns c r a) :=
  inferInstanceAs (Decidable ((r, a) ∈ c.track ownStep []))

/-- Every request is EXCLUSIVE and no deadlock is resolved. -/
abbrev ExclusiveOnly (_ : LockRun ρ κ) : LockAction ρ κ → Prop
  | .acquire _ lockType _ _ _ => lockType = .exclusive
  | .resolveDeadlock _ _ => False
  | _ => True

instance (c : LockRun ρ κ) (a : LockAction ρ κ) : Decidable (ExclusiveOnly c a) :=
  LockAction.decidable a

namespace Tracks

variable {m : LockManager ρ κ} {owners : List (ρ × κ)}

/-- A lock is deleted and its holder owns the resource no more. -/
theorem free (h : Tracks m owners) {r : ρ} {a : κ} (ha : m.holder r = some a) :
    Tracks (m.free r) (owners.filter (fun o => o ≠ (r, a))) := by
  constructor
  · intro r' l hl
    simp only [LockManager.free, Dict.get?_del] at hl
    split at hl
    · cases hl
    · exact h.named r' l hl
  · intro r' b
    rw [LockManager.holder_free, List.mem_filter, h.owner]
    by_cases hr : r = r'
    · subst hr
      simp only [if_true, reduceCtorEq, iff_false, not_and]
      intro hb
      rw [ha] at hb
      simp [Option.some.inj hb]
    · simp [hr, Ne.symm hr]

/-! ### The sections -/

theorem processWaiting (h : Tracks m owners) {r : ρ} (hr : m.holder r = none) (now : Rat) :
    Tracks (m.processWaiting r now).1 ((m.processWaiting r now).2.foldl ownStep owners) := by
  unfold LockManager.processWaiting
  split
  · next w ws _ =>
    have hfree : ∀ a, m.holder (w.lock r now).resourceId = some a → a = (w.lock r now).holderId := by
      intro a ha
      rw [show (w.lock r now).resourceId = r from rfl, hr] at ha
      cases ha
    exact (h.record (w.lock r now) hfree).congr rfl
  · exact h

theorem tryAcquire (h : Tracks m owners) {q : Request ρ κ} (hq : q.lockType = .exclusive)
    (now : Rat) :
    Tracks (m.tryAcquire q now).manager ((m.tryAcquire q now).events.foldl ownStep owners) := by
  have hgrant : (∀ a, m.holder q.resourceId = some a → a = q.clientId) →
      Tracks (m.record (q.lock now))
        ((q.resourceId, q.clientId) :: (q.resourceId, q.clientId) :: owners) := by
    intro hfree
    have hrec := h.record (q.lock now) hfree
    exact hrec.told (by rw [LockManager.holder_record]; exact if_pos rfl)
  unfold LockManager.tryAcquire
  split
  · next hnone =>
    refine hgrant ?_
    intro a ha
    simp [LockManager.holder, hnone] at ha
  · next existing hsome =>
    rw [if_neg (by simp [hq])]
    split
    · next hheld =>
      refine hgrant ?_
      intro a ha
      rw [LockManager.holder_of_get? hsome] at ha
      rw [← Option.some.inj ha]
      exact beq_iff_eq.mp hheld.1
    · exact h.congr rfl

theorem poll (h : Tracks m owners) (q : Request ρ κ) (now : Rat) :
    Tracks (m.poll q now).manager ((m.poll q now).events.foldl ownStep owners) := by
  unfold LockManager.poll
  split
  · next hnone =>
    have hrec := h.record (q.lock now) (by
      intro a ha
      rw [LockManager.holder, show (q.lock now).resourceId = q.resourceId from rfl, hnone] at ha
      cases ha)
    exact (hrec.told (by rw [LockManager.holder_record]; exact if_pos rfl)).congr
      (LockManager.dropWaiter_locks _ q)
  · next current hsome =>
    split
    · next heq =>
      refine h.told ?_
      rw [LockManager.holder_of_get? hsome, beq_iff_eq.mp heq]
    · exact h

theorem releaseLock (h : Tracks m owners) (r : ρ) (a : κ) (now : Rat) :
    Tracks (m.releaseLock r a now).1 ((m.releaseLock r a now).2.foldl ownStep owners) := by
  unfold LockManager.releaseLock
  split
  · exact h
  · next lock hsome =>
    split
    · exact h
    · next heq =>
      have ha : m.holder r = some a := by
        rw [LockManager.holder_of_get? hsome]
        simpa using heq
      have hfreed : Tracks { m with locks := m.locks.del r, sharedLocks := m.sharedLocks.del r }
          (owners.filter (fun o => o ≠ (r, a))) := (h.free ha).congr rfl
      exact hfreed.processWaiting (by
        rw [LockManager.holder, Dict.get?_del_self]; rfl) now

theorem takeAway (h : Tracks m owners) (now : Rat) (rids : List ρ) :
    Tracks (m.takeAway .expired now rids).1
      ((m.takeAway .expired now rids).2.foldl ownStep owners) := by
  induction rids generalizing m owners with
  | nil => exact h
  | cons rid rest ih =>
    have hnone : (m.free rid).holder rid = none := by rw [LockManager.holder_free]; exact if_pos rfl
    have hfreed : Tracks (m.free rid)
        (((m.locks.get? rid).map LockEvent.expired).toList.foldl ownStep owners) := by
      cases hg : m.locks.get? rid with
      | none =>
        exact h.congr (Dict.del_of_get?_eq_none hg)
      | some lock =>
        have hfree := h.free (LockManager.holder_of_get? hg)
        rw [← h.named rid lock hg] at hfree ⊢
        exact hfree
    have hstep := ih (hfreed.processWaiting hnone now)
    simp only [LockManager.takeAway, List.foldl_append]
    exact hstep

end Tracks

/-! ## Runs -/

theorem tracks_step {s s' : LockSystem ρ κ} {a : LockAction ρ κ} {out : List (LockEvent ρ κ)}
    {c : LockRun ρ κ} {owners : List (ρ × κ)} (h : Tracks s.manager owners)
    (hok : ExclusiveOnly c a) (hs : s.step a = some (s', out)) :
    Tracks s'.manager (out.foldl ownStep owners) := by
  have hstep := LockSystem.step_tables hs
  revert hstep
  generalize s'.manager = m'
  intro hstep
  cases hstep with
  | acquired r ty a timeout now extra q hq hraised =>
    rw [List.foldl_append, LockSystem.foldl_raised (fun _ _ => rfl) hraised]
    exact h.tryAcquire (by rw [hq]; exact hok) now
  | tested => exact h
  | polled k now call _ => exact h.poll call.request now
  | gaveUp k call _ => exact h.congr (LockManager.dropWaiter_locks _ _)
  | released r a now => exact h.releaseLock r a now
  | swept now expired => exact h.takeAway now expired
  | notSwept => exact h
  | resolved => exact hok.elim

theorem tracks_of_leads {c : LockRun ρ κ}
    (h : LockSystem.machine.Leads ExclusiveOnly ([], LockSystem.init) c) :
    Tracks c.2.manager (c.track ownStep []) := by
  refine h.track_invariant (I := fun s owners => Tracks s.manager owners) Tracks.init ?_
  intro c a s' out _ ih hok hs
  exact tracks_step ih hok hs

/-- **Exclusive locks have one owner**, and it is the holder in the lock
table. -/
theorem one_owner {c : LockRun ρ κ}
    (h : LockSystem.machine.Leads ExclusiveOnly ([], LockSystem.init) c) {r : ρ} {a : κ}
    (ha : Owns c r a) :
    (∃ lock, c.2.manager.locks.get? r = some lock ∧ lock.holderId = a) ∧
      ∀ b, Owns c r b → b = a := by
  have htracks := tracks_of_leads h
  have hholder := (htracks.owner r a).mp ha
  refine ⟨Option.map_eq_some_iff.mp hholder, ?_⟩
  intro b hb
  have hb' := (htracks.owner r b).mp hb
  rw [hholder] at hb'
  exact (Option.some.inj hb').symm

/-- `c2` waits for `c1`, is handed the lock by its release and finds it
when it polls. -/
def handOverRun : List (LockAction String String) :=
  [.acquire "r" .exclusive "c1" (.int 30) 0, .acquire "r" .exclusive "c2" (.int 30) 1,
   .test 0 1, .release "r" "c1" 2, .poll 0 2]

theorem one_owner_handOverRun :
    ∃ c, LockSystem.machine.Leads ExclusiveOnly ([], LockSystem.init) c ∧ Owns c "r" "c2" ∧
      ∀ b, Owns c "r" b → b = "c2" := by
  obtain ⟨c, hc, hp⟩ := Machine.exists_leads_of_exec LockSystem.machine ExclusiveOnly
    ([], LockSystem.init) handOverRun (fun c => decide (Owns c "r" "c2")) (by decide +kernel)
  have howns := of_decide_eq_true hp
  exact ⟨c, hc, howns, (one_owner hc howns).2⟩

end SyncSystem.Locks
