/-
SyncSystem.Locks.MutualExclusion — readers and writers.

A client holds a resource in a mode from the moment an `acquire_lock` in
that mode answers success until it calls `release_lock`. The lock table
has one record a resource, written by the first reader only, and three
branches trust it to speak for all readers: the upgrade and the release
look at the recorded holder alone, and a poll answers a request in any
mode from a record of the same client. `RespectsReaders` is that none of
the three meets a reader the record does not show; under it
`mutual_exclusion` holds, and `upgrade_beside_reader` is a run of three
calls in which a writer and a reader hold one resource.
-/
import SyncSystem.Locks.Ownership

namespace SyncSystem.Locks

open SyncSystem.Python

variable {ρ κ : Type} [DecidableEq ρ] [DecidableEq κ]

/-! ## Who holds what -/

/-- A client that has been told it has a resource in a mode. -/
structure Holding (ρ κ : Type) where
  resource : ρ
  mode : LockType
  client : κ
  deriving DecidableEq

/-- Nobody but `a` holds `r`. -/
def OnlyHolder (holdings : List (Holding ρ κ)) (r : ρ) (a : κ) : Prop :=
  ∀ h ∈ holdings, h.resource = r → h.client = a

/-! ## The record speaks for the holders -/

/-- A held resource has a record; a writer is the recorded holder of an
EXCLUSIVE lock, and beside such a record nobody else holds. -/
structure Speaks (m : LockManager ρ κ) (holdings : List (Holding ρ κ)) : Prop where
  recorded : ∀ h ∈ holdings, ∃ lock, m.locks.get? h.resource = some lock
  writer : ∀ h ∈ holdings, ∀ lock, m.locks.get? h.resource = some lock → h.mode = .exclusive →
    lock.lockType = .exclusive
  alone : ∀ h ∈ holdings, ∀ lock, m.locks.get? h.resource = some lock →
    lock.lockType = .exclusive → h.client = lock.holderId

namespace Speaks

variable {m m' : LockManager ρ κ} {holdings : List (Holding ρ κ)}

theorem init : Speaks (LockManager.init : LockManager ρ κ) [] where
  recorded := by simp
  writer := by simp
  alone := by simp

theorem congr (h : Speaks m holdings) (hl : m'.locks = m.locks) : Speaks m' holdings := by
  constructor
  · rw [hl]; exact h.recorded
  · rw [hl]; exact h.writer
  · rw [hl]; exact h.alone

/-- A new holding that the record covers. -/
theorem hold (h : Speaks m holdings) {r : ρ} (mode : LockType) (a : κ) {lock : Lock ρ κ}
    (hl : m.locks.get? r = some lock) (hw : mode = .exclusive → lock.lockType = .exclusive)
    (ha : lock.lockType = .exclusive → a = lock.holderId) :
    Speaks m (⟨r, mode, a⟩ :: holdings) := by
  constructor
  · rintro x hx
    rcases List.mem_cons.mp hx with rfl | hx
    · exact ⟨lock, hl⟩
    · exact h.recorded x hx
  · intro x hx l hxl hmode
    rcases List.mem_cons.mp hx with rfl | hx
    · rw [hl] at hxl
      cases hxl
      exact hw hmode
    · exact h.writer x hx l hxl hmode
  · intro x hx l hxl htype
    rcases List.mem_cons.mp hx with rfl | hx
    · rw [hl] at hxl
      cases hxl
      exact ha htype
    · exact h.alone x hx l hxl htype

/-- A record written where only its holder may hold the resource: it is
EXCLUSIVE, or nobody holds. -/
theorem record (h : Speaks m holdings) (lock : Lock ρ κ)
    (hfree : (∀ x ∈ holdings, x.resource ≠ lock.resourceId) ∨
      lock.lockType = .exclusive ∧ OnlyHolder holdings lock.resourceId lock.holderId) :
    Speaks (m.record lock) holdings := by
  have hget : ∀ r, (m.record lock).locks.get? r =
      if lock.resourceId = r then some lock else m.locks.get? r := by
    intro r
    simp [LockManager.record, Dict.get?_set]
  constructor
  · intro x hx
    rw [hget]
    split
    · exact ⟨lock, rfl⟩
    · exact h.recorded x hx
  · intro x hx l hl hmode
    rw [hget] at hl
    split at hl
    · next heq =>
      cases hl
      rcases hfree with hnone | ⟨htype, _⟩
      · exact absurd heq.symm (hnone x hx)
      · exact htype
    · exact h.writer x hx l hl hmode
  · intro x hx l hl htype
    rw [hget] at hl
    split at hl
    · next heq =>
      cases hl
      rcases hfree with hnone | ⟨_, honly⟩
      · exact absurd heq.symm (hnone x hx)
      · exact honly x hx heq.symm
    · exact h.alone x hx l hl htype

/-- Nobody holds a resource that has no record. -/
theorem not_held (h : Speaks m holdings) {r : ρ} (hr : m.locks.get? r = none) :
    ∀ x ∈ holdings, x.resource ≠ r := by
  rintro x hx rfl
  obtain ⟨lock, hl⟩ := h.recorded x hx
  rw [hr] at hl
  cases hl

/-- The recorded holder of an EXCLUSIVE lock is the only one that holds. -/
theorem only_of_exclusive (h : Speaks m holdings) {r : ρ} {lock : Lock ρ κ}
    (hl : m.locks.get? r = some lock) (htype : lock.lockType = .exclusive) :
    OnlyHolder holdings r lock.holderId := by
  rintro x hx rfl
  exact h.alone x hx lock hl htype

/-- The record of a resource nobody holds is deleted. -/
theorem free (h : Speaks m holdings) {r : ρ} (hr : ∀ x ∈ holdings, x.resource ≠ r) :
    Speaks (m.free r) holdings := by
  have hget : ∀ x ∈ holdings, (m.free r).locks.get? x.resource = m.locks.get? x.resource := by
    intro x hx
    simp [LockManager.free, Dict.get?_del, Ne.symm (hr x hx)]
  constructor
  · intro x hx
    rw [hget x hx]
    exact h.recorded x hx
  · intro x hx
    rw [hget x hx]
    exact h.writer x hx
  · intro x hx
    rw [hget x hx]
    exact h.alone x hx

/-- A grant of a resource that only the client itself may hold. -/
theorem grant (h : Speaks m holdings) {q : Request ρ κ} {now : Rat}
    (hfree : (∀ x ∈ holdings, x.resource ≠ q.resourceId) ∨
      q.lockType = .exclusive ∧ OnlyHolder holdings q.resourceId q.clientId) :
    Speaks (m.record (q.lock now)) (⟨q.resourceId, q.lockType, q.clientId⟩ :: holdings) := by
  have hrec := h.record (q.lock now) hfree
  have hget : (m.record (q.lock now)).locks.get? q.resourceId = some (q.lock now) := by
    simp [LockManager.record, Request.lock, Dict.get?_set]
  exact hrec.hold q.lockType q.clientId hget id (fun _ => rfl)

end Speaks


/-! ## Holdings of a run -/

/-- The holdings after one more event. A client that calls `release_lock`
has given the resource up, whatever the answer. -/
def holdStep (holdings : List (Holding ρ κ)) : LockEvent ρ κ → List (Holding ρ κ)
  | .answered q true => ⟨q.resourceId, q.lockType, q.clientId⟩ :: holdings
  | .releaseCalled r c _ => holdings.filter (fun h => ¬ (h.resource = r ∧ h.client = c))
  | _ => holdings

/-- Client `a` holds `r` in `mode` at the end of the run. -/
def Holds (c : LockRun ρ κ) (r : ρ) (mode : LockType) (a : κ) : Prop :=
  ⟨r, mode, a⟩ ∈ c.track holdStep []

instance (c : LockRun ρ κ) (r : ρ) (mode : LockType) (a : κ) : Decidable (Holds c r mode a) :=
  inferInstanceAs (Decidable (⟨r, mode, a⟩ ∈ c.track holdStep []))

instance (holdings : List (Holding ρ κ)) (r : ρ) (a : κ) :
    Decidable (OnlyHolder holdings r a) :=
  inferInstanceAs (Decidable (∀ h ∈ holdings, h.resource = r → h.client = a))

/-- `a` is recorded as the holder of a SHARED lock on `r`. -/
def LockManager.sharedBy (m : LockManager ρ κ) (r : ρ) (a : κ) : Bool :=
  (m.locks.get? r).any (fun lock => lock.lockType = .shared ∧ lock.holderId = a)

/-- The recorded holder of a SHARED lock upgrades or releases it only
while nobody else holds the resource, and its EXCLUSIVE requests do not
wait for it to be recorded so. No lock expires or is taken away. -/
abbrev RespectsReaders (c : LockRun ρ κ) : LockAction ρ κ → Prop
  | .acquire r lockType a _ _ =>
      lockType = .exclusive → c.2.manager.sharedBy r a = true →
        OnlyHolder (c.track holdStep []) r a
  | .release r a _ =>
      c.2.manager.sharedBy r a = true → OnlyHolder (c.track holdStep []) r a
  | .poll k _ =>
      ∀ call ∈ c.2.calls[k]?, call.request.lockType = .exclusive →
        c.2.manager.sharedBy call.request.resourceId call.request.clientId = false
  | .sweep _ => False
  | .resolveDeadlock _ _ => False
  | _ => True

instance (c : LockRun ρ κ) (a : LockAction ρ κ) : Decidable (RespectsReaders c a) :=
  LockAction.decidable a

namespace Speaks

variable {m : LockManager ρ κ} {holdings : List (Holding ρ κ)}

/-- Giving up a resource. -/
theorem giveUp (h : Speaks m holdings) (r : ρ) (a : κ) :
    Speaks m (holdings.filter (fun x => ¬ (x.resource = r ∧ x.client = a))) := by
  have hsub : ∀ x ∈ holdings.filter (fun x => ¬ (x.resource = r ∧ x.client = a)),
      x ∈ holdings := fun x hx => (List.mem_filter.mp hx).1
  exact ⟨fun x hx => h.recorded x (hsub x hx), fun x hx => h.writer x (hsub x hx),
    fun x hx => h.alone x (hsub x hx)⟩

/-! ### The sections -/

theorem tryAcquire (h : Speaks m holdings) {q : Request ρ κ}
    (hok : q.lockType = .exclusive → m.sharedBy q.resourceId q.clientId = true →
      OnlyHolder holdings q.resourceId q.clientId) (now : Rat) :
    Speaks (m.tryAcquire q now).manager ((m.tryAcquire q now).events.foldl holdStep holdings) := by
  unfold LockManager.tryAcquire
  split
  · next hnone => exact h.grant (Or.inl (h.not_held hnone))
  · next existing hsome =>
    split
    · next hshared =>
      have hheld := h.hold q.lockType q.clientId hsome
        (by rw [hshared.1]; intro hc; cases hc)
        (by rw [hshared.2]; intro hc; cases hc)
      exact hheld.congr rfl
    · split
      · next hheld =>
        have hholder : existing.holderId = q.clientId := beq_iff_eq.mp hheld.1
        refine h.grant (Or.inr ⟨hheld.2, ?_⟩)
        cases htype : existing.lockType with
        | shared =>
          refine hok hheld.2 ?_
          simp [LockManager.sharedBy, hsome, htype, hholder]
        | exclusive => exact hholder ▸ h.only_of_exclusive hsome htype
      · exact h.congr rfl

theorem poll (h : Speaks m holdings) {q : Request ρ κ}
    (hok : q.lockType = .exclusive → m.sharedBy q.resourceId q.clientId = false) (now : Rat) :
    Speaks (m.poll q now).manager ((m.poll q now).events.foldl holdStep holdings) := by
  unfold LockManager.poll
  split
  · next hnone =>
    exact (h.grant (Or.inl (h.not_held hnone))).congr (LockManager.dropWaiter_locks _ q)
  · next current hsome =>
    split
    · next heq =>
      have hholder : current.holderId = q.clientId := beq_iff_eq.mp heq
      refine h.hold _ _ hsome ?_ (fun _ => hholder.symm)
      intro hmode
      cases htype : current.lockType with
      | shared =>
        have hnot := hok hmode
        simp [LockManager.sharedBy, hsome, htype, hholder] at hnot
      | exclusive => rfl
    · exact h

theorem processWaiting (h : Speaks m holdings) {r : ρ}
    (hr : ∀ x ∈ holdings, x.resource ≠ r) (now : Rat) :
    Speaks (m.processWaiting r now).1 ((m.processWaiting r now).2.foldl holdStep holdings) := by
  unfold LockManager.processWaiting
  split
  · next w ws _ => exact (h.record (w.lock r now) (Or.inl hr)).congr rfl
  · exact h

theorem releaseLock (h : Speaks m holdings) {r : ρ} {a : κ}
    (hok : m.sharedBy r a = true → OnlyHolder holdings r a) (now : Rat) :
    Speaks (m.releaseLock r a now).1 ((m.releaseLock r a now).2.foldl holdStep holdings) := by
  unfold LockManager.releaseLock
  split
  · exact h.giveUp r a
  · next lock hsome =>
    split
    · exact h.giveUp r a
    · next heq =>
      have hholder : lock.holderId = a := by simpa using heq
      have honly : OnlyHolder holdings r a := by
        cases htype : lock.lockType with
        | shared => exact hok (by simp [LockManager.sharedBy, hsome, htype, hholder])
        | exclusive => exact hholder ▸ h.only_of_exclusive hsome htype
      have hnone : ∀ x ∈ holdings.filter (fun x => ¬ (x.resource = r ∧ x.client = a)),
          x.resource ≠ r := by
        intro x hx hxr
        obtain ⟨hmem, hne⟩ := List.mem_filter.mp hx
        exact (of_decide_eq_true hne) ⟨hxr, honly x hmem hxr⟩
      have hfreed : Speaks { m with locks := m.locks.del r, sharedLocks := m.sharedLocks.del r }
          (holdings.filter (fun x => ¬ (x.resource = r ∧ x.client = a))) :=
        ((h.giveUp r a).free hnone).congr rfl
      exact hfreed.processWaiting hnone now

end Speaks

/-! ## Runs -/

theorem speaks_step {c : LockRun ρ κ} {s' : LockSystem ρ κ} {a : LockAction ρ κ}
    {out : List (LockEvent ρ κ)} (h : Speaks c.2.manager (c.track holdStep []))
    (hok : RespectsReaders c a) (hs : c.2.step a = some (s', out)) :
    Speaks s'.manager (out.foldl holdStep (c.track holdStep [])) := by
  have hstep := LockSystem.step_tables hs
  revert hstep
  generalize s'.manager = m'
  intro hstep
  cases hstep with
  | acquired r ty a timeout now extra q hq hraised =>
    rw [List.foldl_append, LockSystem.foldl_raised (fun _ _ => rfl) hraised]
    exact h.tryAcquire (by rw [hq]; exact hok) now
  | tested => exact h
  | polled k now call hk => exact h.poll (hok call hk) now
  | gaveUp k call _ => exact h.congr (LockManager.dropWaiter_locks _ _)
  | released r a now => exact h.releaseLock hok now
  | swept => exact hok.elim
  | notSwept => exact hok.elim
  | resolved => exact hok.elim

theorem speaks_of_leads {c : LockRun ρ κ}
    (h : LockSystem.machine.Leads RespectsReaders ([], LockSystem.init) c) :
    Speaks c.2.manager (c.track holdStep []) := by
  refine h.track_invariant (I := fun s holdings => Speaks s.manager holdings) Speaks.init ?_
  intro c a s' out _ ih hok hs
  exact speaks_step ih hok hs

/-- **Mutual exclusion.** While a client holds a resource EXCLUSIVE,
nobody else holds it in any mode. -/
theorem mutual_exclusion {c : LockRun ρ κ}
    (h : LockSystem.machine.Leads RespectsReaders ([], LockSystem.init) c) {r : ρ} {a b : κ}
    {mode : LockType} (ha : Holds c r .exclusive a) (hb : Holds c r mode b) : b = a := by
  have hspeaks := speaks_of_leads h
  obtain ⟨lock, hl⟩ := hspeaks.recorded _ ha
  have htype := hspeaks.writer _ ha lock hl rfl
  have ha' : a = lock.holderId := hspeaks.alone _ ha lock hl htype
  have hb' : b = lock.holderId := hspeaks.alone _ hb lock hl htype
  rw [ha', hb']

/-- A reader gives way, and the other one upgrades. -/
def politeRun : List (LockAction String String) :=
  [.acquire "r" .shared "c1" (.int 30) 0, .acquire "r" .shared "c2" (.int 30) 1,
   .release "r" "c2" 2, .acquire "r" .exclusive "c1" (.int 30) 3]

theorem mutual_exclusion_politeRun :
    ∃ c, LockSystem.machine.Leads RespectsReaders ([], LockSystem.init) c ∧
      Holds c "r" .exclusive "c1" ∧ ∀ mode b, Holds c "r" mode b → b = "c1" := by
  obtain ⟨c, hc, hp⟩ := Machine.exists_leads_of_exec LockSystem.machine RespectsReaders
    ([], LockSystem.init) politeRun (fun c => decide (Holds c "r" .exclusive "c1"))
    (by decide +kernel)
  have hholds := of_decide_eq_true hp
  exact ⟨c, hc, hholds, fun mode b hb => mutual_exclusion hc hholds hb⟩

/-- Two readers, and the first upgrades beside the second. -/
def upgradeRun : List (LockAction String String) :=
  [.acquire "r" .shared "c1" (.int 30) 0, .acquire "r" .shared "c2" (.int 30) 1,
   .acquire "r" .exclusive "c1" (.int 30) 2]

theorem upgrade_beside_reader :
    ∃ c, LockSystem.machine.Leads Machine.always ([], LockSystem.init) c ∧
      (∀ e ∈ c.1, ∃ r ty a timeout now, e.action = .acquire r ty a timeout now) ∧
      Holds c "r" .exclusive "c1" ∧ Holds c "r" .shared "c2" := by
  obtain ⟨c, hc, hp⟩ := Machine.exists_leads_of_exec LockSystem.machine
    (fun _ a => (a matches .acquire ..) = true) ([], LockSystem.init) upgradeRun
    (fun c => decide (Holds c "r" .exclusive "c1" ∧ Holds c "r" .shared "c2"))
    (by decide +kernel)
  refine ⟨c, hc.always, ?_, of_decide_eq_true hp⟩
  have hevery := hc.everyStep (P := fun _ a _ => (a matches .acquire ..) = true)
    (fun _ _ _ _ _ hok _ => hok)
  intro e he
  obtain ⟨h₁, h₂, heq⟩ := List.append_of_mem he
  have hacq := hevery h₁ e h₂ heq
  cases ha : e.action with
  | acquire r ty a timeout now => exact ⟨r, ty, a, timeout, now, rfl⟩
  | _ => simp [ha] at hacq

end SyncSystem.Locks
