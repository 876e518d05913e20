/-
SyncSystem.Locks.SharedHolders — whether `shared_locks` belongs to the
lock that is recorded.

A client that joins a SHARED lock is put into `shared_locks`, a table of
its own. A release clears the entry together with the lock. An upgrade
writes a new lock over the old one, and a sweep or a deadlock resolution
deletes it, and these leave the entry (`readers_of_expired_lock`). So
every entry is about the recorded lock exactly in the runs in which no
lock with an entry is upgraded, expires or is resolved away
(`shared_holders_match_iff`).
-/
import SyncSystem.Locks.Effects

namespace SyncSystem.Locks

open SyncSystem.Python

variable {ρ κ : Type} [DecidableEq ρ] [DecidableEq κ]

/-! ## The entries of `shared_locks` -/

namespace LockManager

@[simp] theorem sharedLocks_record (m : LockManager ρ κ) (lock : Lock ρ κ) :
    (m.record lock).sharedLocks = m.sharedLocks := rfl

@[simp] theorem sharedLocks_enqueue (m : LockManager ρ κ) (q : Request ρ κ) :
    (m.enqueue q).sharedLocks = m.sharedLocks := rfl

@[simp] theorem sharedLocks_dropWaiter (m : LockManager ρ κ) (q : Request ρ κ) :
    (m.dropWaiter q).sharedLocks = m.sharedLocks := by
  unfold dropWaiter
  split <;> rfl

@[simp] theorem sharedLocks_processWaiting (m : LockManager ρ κ) (r : ρ) (now : Rat) :
    (m.processWaiting r now).1.sharedLocks = m.sharedLocks := by
  unfold processWaiting
  split <;> rfl

/-- An expired or resolved lock leaves its entry behind. -/
@[simp] theorem sharedLocks_takeAway (m : LockManager ρ κ) (event : Lock ρ κ → LockEvent ρ κ)
    (now : Rat) (rids : List ρ) : (m.takeAway event now rids).1.sharedLocks = m.sharedLocks := by
  refine takeAway_keeps (P := fun m' => m'.sharedLocks = m.sharedLocks) ?_ rfl event rids
  intro m' r h
  rw [sharedLocks_processWaiting]
  exact h

@[simp] theorem sharedLocks_poll (m : LockManager ρ κ) (q : Request ρ κ) (now : Rat) :
    (m.poll q now).manager.sharedLocks = m.sharedLocks := by
  unfold poll
  split
  · simp
  · split <;> rfl

/-- A successful release clears the entry, and no other. -/
theorem sharers_releaseLock {m : LockManager ρ κ} {r r' : ρ} {c : κ} {now : Rat} {clients : List κ}
    (h : (m.releaseLock r c now).1.sharedLocks.get? r' = some clients) :
    m.sharedLocks.get? r' = some clients ∧ (m.holder r = some c → r ≠ r') := by
  unfold releaseLock at h
  split at h
  · next hnone => simpa [holder, hnone] using h
  · next lock hsome =>
    rw [holder_of_get? hsome]
    split at h
    · next hne =>
      have hother : lock.holderId ≠ c := by simpa using hne
      exact ⟨h, fun heq => absurd (Option.some.inj heq) hother⟩
    · simp only [sharedLocks_processWaiting, Dict.get?_del] at h
      by_cases heq : r = r'
      · simp [heq] at h
      · simp only [beq_iff_eq, heq, if_false] at h
        exact ⟨h, fun _ => heq⟩

/-- Joining adds the client to the entry, and makes it if it is missing. -/
theorem sharers_joinShared {m : LockManager ρ κ} {r r' : ρ} {c : κ} {clients : List κ}
    (h : (m.joinShared r c).sharedLocks.get? r' = some clients) :
    m.sharedLocks.get? r' = some clients ∧ r ≠ r' ∨
      r = r' ∧ c ∈ clients ∧
        ∀ x ∈ clients, x = c ∨ ∃ old, m.sharedLocks.get? r' = some old ∧ x ∈ old := by
  simp only [joinShared, Dict.get?_set, beq_iff_eq] at h
  split at h
  · next heq =>
    subst heq
    refine Or.inr ⟨rfl, ?_⟩
    cases hold : m.sharedLocks.get? r with
    | none =>
      obtain rfl : [c] = clients := by simpa [hold] using h
      simp
    | some old =>
      simp only [hold, Option.getD_some, Option.some.injEq] at h
      subst h
      split
      · next hmem =>
        have hc : c ∈ old := by simpa using hmem
        exact ⟨hc, fun x hx => Or.inr ⟨old, rfl, hx⟩⟩
      · refine ⟨by simp, ?_⟩
        intro x hx
        rcases List.mem_append.mp hx with hx | hx
        · exact Or.inr ⟨old, rfl, hx⟩
        · exact Or.inl (List.mem_singleton.mp hx)
  · next hne => exact Or.inl ⟨h, hne⟩

end LockManager

namespace LockSystem

/-- The step is a SHARED request of `c` that joins `lock`. -/
structure Joins (s : LockSystem ρ κ) (a : LockAction ρ κ) (r : ρ) (c : κ) (lock : Lock ρ κ) :
    Prop where
  action : ∃ timeout now, a = .acquire r .shared c timeout now
  found : s.manager.locks.get? r = some lock
  shared : lock.lockType = .shared

/-- The resources whose lock a step replaces or deletes and whose entry in
`shared_locks` it leaves. -/
def replacedBy (s : LockSystem ρ κ) : LockAction ρ κ → List ρ
  | .acquire r .exclusive c _ _ => if s.manager.holder r = some c then [r] else []
  | .release .. => []
  | a => s.takenBy a

/-- An entry was there before, unless its lock has been released, or it is
that of the lock that is joined. -/
theorem sharers_step {s s' : LockSystem ρ κ} {a : LockAction ρ κ} {out : List (LockEvent ρ κ)}
    (hs : s.step a = some (s', out)) {r : ρ} {clients : List κ}
    (h : s'.manager.sharedLocks.get? r = some clients) :
    s.manager.sharedLocks.get? r = some clients ∧ (r ∈ s.takenBy a → r ∈ s.replacedBy a) ∨
      ∃ c lock, s.Joins a r c lock ∧ c ∈ clients ∧
        ∀ x ∈ clients, x = c ∨ ∃ old, s.manager.sharedLocks.get? r = some old ∧ x ∈ old := by
  cases a with
  | acquire r' ty c timeout now =>
    have heff := step_effect hs
    cases heff with
    | joined _ _ _ _ q lock hq hsome hshared =>
      rcases LockManager.sharers_joinShared h with ⟨h, _⟩ | ⟨rfl, hc, hall⟩
      · exact Or.inl ⟨h, by simp [takenBy]⟩
      · exact Or.inr ⟨c, lock, ⟨⟨timeout, now, rfl⟩, hsome, hshared⟩, hc, hall⟩
    | tookAway _ _ _ _ htakes _ _ _ _ => cases htakes
    | _ => exact Or.inl ⟨h, by simp [takenBy]⟩
  | test k now =>
    simp only [step] at hs
    split at hs
    · cases hs; exact Or.inl ⟨h, by simp [takenBy]⟩
    · cases hs
  | poll k now =>
    simp only [step] at hs
    split at hs
    · cases hs
      simp only [after, LockManager.sharedLocks_poll] at h
      exact Or.inl ⟨h, by simp [takenBy]⟩
    · cases hs
  | giveUp k =>
    simp only [step] at hs
    split at hs
    · cases hs
      simp only [after, LockManager.sharedLocks_dropWaiter] at h
      exact Or.inl ⟨h, by simp [takenBy]⟩
    · cases hs
  | release r' c now =>
    cases hs
    obtain ⟨h, hne⟩ := LockManager.sharers_releaseLock h
    refine Or.inl ⟨h, ?_⟩
    intro htaken
    simp only [takenBy] at htaken
    split at htaken
    · next hholder => exact absurd (List.mem_singleton.mp htaken).symm (hne hholder)
    · cases htaken
  | sweep now =>
    simp only [step] at hs
    split at hs
    · split at hs
      · next hsweep =>
        cases hs
        obtain ⟨expired, heq⟩ := LockManager.sweep_eq hsweep
        obtain ⟨rfl, rfl⟩ := Prod.mk.inj heq
        simp only [after, LockManager.sharedLocks_takeAway] at h
        exact Or.inl ⟨h, id⟩
      · cases hs; exact Or.inl ⟨h, id⟩
    · cases hs
  | resolveDeadlock victim now =>
    cases hs
    simp only [after, LockManager.sharedLocks_takeAway] at h
    exact Or.inl ⟨h, id⟩

/-- A lock that the step neither deletes nor replaces is still there, and
none is recorded beside it. -/
theorem Effect.lock_kept {s s' : LockSystem ρ κ} {a : LockAction ρ κ} {out : List (LockEvent ρ κ)}
    (h : Effect s a s' out) {r : ρ} {lock : Lock ρ κ} (hl : s.manager.locks.get? r = some lock)
    (htaken : r ∉ s.takenBy a) (hreplaced : r ∉ s.replacedBy a) :
    s'.manager.locks.get? r = some lock ∧
      ∀ lock', .recorded lock' ∈ out → lock'.resourceId ≠ r := by
  have hgrant : ∀ (q : Request ρ κ) (now : Rat), q.resourceId ≠ r →
      (s.manager.record (q.lock now)).locks.get? r = some lock ∧
        ∀ lock', .recorded lock' ∈ [LockEvent.recorded (q.lock now), .answered q true] →
          lock'.resourceId ≠ r := by
    intro q now hne
    constructor
    · rw [LockManager.get?_locks_record]
      simp [Request.lock, hne, hl]
    · intro lock' hrec
      obtain rfl : lock' = q.lock now := by simpa using hrec
      exact hne
  cases h with
  | taken r' ty c timeout now q hq hfree =>
    refine hgrant q now ?_
    intro heq
    rw [← heq, hq] at hl
    rw [show s.manager.locks.get? r' = some lock from hl] at hfree
    cases hfree
  | upgraded r' c timeout now q existing hq hsome hholder =>
    refine hgrant q now ?_
    intro heq
    have hr : r' = r := by rw [← heq, hq]; rfl
    have hheld : s.manager.holder r' = some c := by
      rw [LockManager.holder_of_get? hsome, hholder]
    exact hreplaced (by rw [← hr]; simp [replacedBy, hheld])
  | pollTakes k now q deadline hk hfree =>
    have hne : q.resourceId ≠ r := by
      intro heq
      rw [← heq, hfree] at hl
      cases hl
    simpa only [after, LockManager.dropWaiter_locks] using hgrant q now hne
  | gaveUp k q deadline hk =>
    simpa only [after, LockManager.dropWaiter_locks] using ⟨hl, by simp⟩
  | tookAway a s' now out _ htook _ _ _ =>
    refine ⟨by rw [htook.locks, if_neg htaken, hl], ?_⟩
    intro lock' hrec heq
    rcases htook.events _ hrec with ⟨r', hr', w, _, hlock⟩ | hreport
    · cases hlock
      exact htaken (heq ▸ hr')
    · cases a <;> simp [Reports] at hreport
  | _ => exact ⟨hl, by simp⟩

end LockSystem

/-- The first waiter of each of the resources is recorded. -/
theorem LockManager.recorded_takeAway {m : LockManager ρ κ} (event : Lock ρ κ → LockEvent ρ κ)
    (now : Rat) {rids : List ρ} (hnodup : rids.Nodup) {r : ρ} (hr : r ∈ rids) {w : Waiter κ}
    (hw : w ∈ (m.waiters r).head?) : .recorded (w.lock r now) ∈ (m.takeAway event now rids).2 := by
  induction rids generalizing m with
  | nil => cases hr
  | cons rid rest ih =>
    obtain ⟨hnot, hrest⟩ := List.nodup_cons.mp hnodup
    simp only [takeAway, List.mem_append]
    rcases List.mem_cons.mp hr with rfl | hr
    · -- its own hand-over
      refine Or.inl (Or.inr ?_)
      cases hws : m.waiters r with
      | nil => simp [hws] at hw
      | cons w' ws =>
        obtain rfl : w' = w := by simpa [hws] using hw
        have hfree : (m.free r).waiters r = w' :: ws := hws
        show _ ∈ ((m.free r).processWaiting r now).2
        rw [processWaiting_cons hfree]
        exact List.mem_singleton_self _
    · -- the ones before it leave its queue alone
      refine Or.inr (ih hrest hr ?_)
      have hne : rid ≠ r := fun heq => hnot (heq ▸ hr)
      show w ∈ (((m.free rid).processWaiting rid now).1.waiters r).head?
      rw [waiters_processWaiting, if_neg hne, waiters_free]
      exact hw

namespace LockSystem

/-- The holder's EXCLUSIVE request writes a new lock. -/
theorem step_upgrade {s : LockSystem ρ κ} {r : ρ} {c : κ} (h : s.manager.holder r = some c)
    (timeout : Json) (now : Rat) :
    s.step (.acquire r .exclusive c timeout now) =
      some ({ s with
          manager := s.manager.record ((s.request r .exclusive c timeout).lock now)
          nextRequest := s.nextRequest + 1 },
        [.recorded ((s.request r .exclusive c timeout).lock now),
          .answered (s.request r .exclusive c timeout) true]) := by
  obtain ⟨existing, hsome, hholder⟩ := Option.map_eq_some_iff.mp h
  simp [step, acquire, LockManager.tryAcquire, request, hsome, hholder]

/-- After a step that replaces or deletes the lock of `r`, a lock of `r` is
a new one. -/
theorem recorded_of_replaced {s s' : LockSystem ρ κ} {a : LockAction ρ κ}
    {out : List (LockEvent ρ κ)} (hs : s.step a = some (s', out)) {r : ρ}
    (hr : r ∈ s.replacedBy a) {lock : Lock ρ κ} (hl : s'.manager.locks.get? r = some lock) :
    .recorded lock ∈ out ∧ lock.resourceId = r := by
  have htook : ∀ {m' : LockManager ρ κ} {event : Lock ρ κ → LockEvent ρ κ} {now : Rat}
      {rids : List ρ}, rids.Nodup → r ∈ rids →
      s.manager.takeAway event now rids = (m', out) → s'.manager = m' →
      .recorded lock ∈ out ∧ lock.resourceId = r := by
    intro m' event now rids hnodup hmem heq hm
    have htable := (s.manager.takenAway_takeAway event now hnodup).locks r
    rw [heq, if_pos hmem, ← hm, hl] at htable
    obtain ⟨w, hw, hlock⟩ := Option.map_eq_some_iff.mp htable.symm
    have hrec := LockManager.recorded_takeAway event now hnodup hmem hw
    rw [heq, hlock] at hrec
    exact ⟨hrec, hlock ▸ rfl⟩
  cases a with
  | acquire r' ty c timeout now =>
    cases ty with
    | shared => cases hr
    | exclusive =>
      simp only [replacedBy] at hr
      split at hr
      · next hheld =>
        obtain rfl := List.mem_singleton.mp hr
        rw [step_upgrade hheld] at hs
        cases hs
        have hresource : ((s.request r .exclusive c timeout).lock now).resourceId = r := rfl
        rw [LockManager.get?_locks_record, if_pos hresource] at hl
        cases hl
        exact ⟨List.mem_cons_self, rfl⟩
      · cases hr
  | sweep now =>
    simp only [step] at hs
    split at hs
    · next hrunning =>
      simp only [replacedBy, takenBy, hrunning, if_true] at hr
      cases hex : LockManager.expiredIn now s.manager.locks.entries with
      | error e => simp [hex, Except.toOption] at hr
      | ok rids =>
        simp only [hex, Except.toOption, Option.getD_some] at hr
        simp only [LockManager.sweep, hex, bind, Except.bind, pure, Except.pure] at hs
        cases hs
        exact htook (s.manager.nodup_keys.sublist (LockManager.expiredIn_sublist hex)) hr rfl rfl
    · cases hs
  | resolveDeadlock victim now =>
    cases hs
    exact htook (s.manager.nodup_keys.sublist (List.filter_sublist.map _)) hr rfl rfl
  | _ => cases hr

/-- Its entry stays. -/
theorem sharedLocks_of_replaced {s s' : LockSystem ρ κ} {a : LockAction ρ κ}
    {out : List (LockEvent ρ κ)} (hs : s.step a = some (s', out)) {r : ρ}
    (hr : r ∈ s.replacedBy a) : s'.manager.sharedLocks = s.manager.sharedLocks := by
  cases a with
  | acquire r' ty c timeout now =>
    cases ty with
    | shared => cases hr
    | exclusive =>
      simp only [replacedBy] at hr
      split at hr
      · next hheld =>
        rw [step_upgrade hheld] at hs
        cases hs
        rfl
      · cases hr
  | sweep now =>
    simp only [step] at hs
    split at hs
    · split at hs
      · next hsweep =>
        cases hs
        obtain ⟨expired, heq⟩ := LockManager.sweep_eq hsweep
        obtain ⟨rfl, rfl⟩ := Prod.mk.inj heq
        exact LockManager.sharedLocks_takeAway ..
      · cases hs; rfl
    · cases hs
  | resolveDeadlock victim now =>
    cases hs
    exact LockManager.sharedLocks_takeAway ..
  | _ => cases hr

end LockSystem

/-! ## Whether an entry belongs to the recorded lock -/

/-- `c` has joined `lock` at `r`, and no lock has been recorded there since. -/
def JoinedCurrent (h : List (Event (LockSystem ρ κ) (LockAction ρ κ) (List (LockEvent ρ κ))))
    (r : ρ) (c : κ) (lock : Lock ρ κ) : Prop :=
  ∃ h₁ e h₂, h = h₁ ++ e :: h₂ ∧ e.before.Joins e.action r c lock ∧
    ∀ e' ∈ h₂, ∀ lock', .recorded lock' ∈ e'.output → lock'.resourceId ≠ r

/-- An entry in `shared_locks` means that the recorded lock is SHARED, and
has the clients that joined it. -/
def SharedHoldersMatch (c : LockRun ρ κ) : Prop :=
  ∀ r clients, c.2.manager.sharedLocks.get? r = some clients →
    ∃ lock, c.2.manager.locks.get? r = some lock ∧ lock.lockType = .shared ∧
      ∀ x ∈ clients, JoinedCurrent c.1 r x lock

/-- No lock that the step replaces or deletes has an entry that stays. -/
abbrev LeavesNoSharers (c : LockRun ρ κ) (a : LockAction ρ κ) : Prop :=
  ∀ r ∈ c.2.replacedBy a, c.2.manager.sharedLocks.contains r = false

section Steps

variable {c : LockRun ρ κ} {a : LockAction ρ κ} {s' : LockSystem ρ κ} {out : List (LockEvent ρ κ)}

/-- The lock stays recorded over one more step. -/
theorem JoinedCurrent.push {h : List (Event (LockSystem ρ κ) (LockAction ρ κ)
    (List (LockEvent ρ κ)))} {r : ρ} {x : κ} {lock : Lock ρ κ} (hj : JoinedCurrent h r x lock)
    {e : Event (LockSystem ρ κ) (LockAction ρ κ) (List (LockEvent ρ κ))}
    (he : ∀ lock', .recorded lock' ∈ e.output → lock'.resourceId ≠ r) :
    JoinedCurrent (h ++ [e]) r x lock := by
  obtain ⟨h₁, e₀, h₂, rfl, hjoins, hsince⟩ := hj
  refine ⟨h₁, e₀, h₂ ++ [e], by simp, hjoins, ?_⟩
  intro e' he'
  rcases List.mem_append.mp he' with he' | he'
  · exact hsince e' he'
  · rw [List.mem_singleton.mp he']
    exact he

/-- Every entry has a client in it. -/
theorem sharers_ne_nil_step
    (h : ∀ r clients, c.2.manager.sharedLocks.get? r = some clients → clients ≠ [])
    (hs : c.2.step a = some (s', out)) :
    ∀ r clients, s'.manager.sharedLocks.get? r = some clients → clients ≠ [] := by
  intro r clients hget
  rcases LockSystem.sharers_step hs hget with ⟨hget, _⟩ | ⟨x, _, _, hx, _⟩
  · exact h r clients hget
  · exact List.ne_nil_of_mem hx

theorem match_step (h : SharedHoldersMatch c) (hok : LeavesNoSharers c a)
    (hs : c.2.step a = some (s', out)) : SharedHoldersMatch (c.push a s' out) := by
  have heff := LockSystem.step_effect hs
  intro r clients hget
  rcases LockSystem.sharers_step hs hget with ⟨hget, htaken⟩ | ⟨x, lock, hjoins, hx, hall⟩
  · -- the entry was there: so was the lock, and the step leaves it alone
    have hreplaced : r ∉ c.2.replacedBy a := by
      intro hr
      have hnone := hok r hr
      rw [Dict.contains, hget] at hnone
      cases hnone
    obtain ⟨lock, hl, hshared, hjoined⟩ := h r clients hget
    obtain ⟨hl', hrec⟩ := heff.lock_kept hl (fun hr => hreplaced (htaken hr)) hreplaced
    exact ⟨lock, hl', hshared, fun y hy => (hjoined y hy).push hrec⟩
  · -- a client joins the lock
    obtain ⟨timeout, now, rfl⟩ := hjoins.action
    obtain ⟨hl', hrec⟩ := heff.lock_kept hjoins.found List.not_mem_nil List.not_mem_nil
    refine ⟨lock, hl', hjoins.shared, ?_⟩
    intro y hy
    rcases hall y hy with rfl | ⟨old, hold, hy⟩
    · exact ⟨c.1, ⟨c.2, _, out⟩, [], rfl, hjoins, by simp⟩
    · obtain ⟨lock', hl'', _, hjoined⟩ := h r old hold
      obtain rfl : lock' = lock := by
        rw [hjoins.found] at hl''
        exact (Option.some.inj hl'').symm
      exact (hjoined y hy).push hrec

/-- Any other step leaves the readers of a lock that is gone. -/
theorem sharers_left
    (hne : ∀ r clients, c.2.manager.sharedLocks.get? r = some clients → clients ≠ [])
    (hok : ¬ LeavesNoSharers c a) (hs : c.2.step a = some (s', out)) :
    ¬ SharedHoldersMatch (c.push a s' out) := by
  intro hmatch
  apply hok
  intro r hr
  cases hget : c.2.manager.sharedLocks.get? r with
  | none => simp [Dict.contains, hget]
  | some clients =>
    have hget' : s'.manager.sharedLocks.get? r = some clients := by
      rw [LockSystem.sharedLocks_of_replaced hs hr, hget]
    obtain ⟨lock, hl, _, hjoined⟩ := hmatch r clients hget'
    obtain ⟨hrec, hresource⟩ := LockSystem.recorded_of_replaced hs hr hl
    obtain ⟨x, hx⟩ := List.exists_mem_of_ne_nil clients (hne r clients hget)
    obtain ⟨h₁, e, h₂, hsplit, hjoins, hsince⟩ := hjoined x hx
    -- the step is the last in the history; it records a lock and joins none
    rcases List.eq_nil_or_concat h₂ with rfl | ⟨h₂', e', rfl⟩
    · obtain ⟨_, hlast⟩ := List.append_inj' hsplit rfl
      obtain rfl := List.head_eq_of_cons_eq hlast
      obtain ⟨timeout, now, rfl⟩ := hjoins.action
      cases hr
    · have hsplit' : c.1 ++ [⟨c.2, a, out⟩] = (h₁ ++ e :: h₂') ++ [e'] := by simpa using hsplit
      obtain ⟨_, hlast⟩ := List.append_inj' hsplit' rfl
      obtain rfl := List.head_eq_of_cons_eq hlast
      exact absurd hresource (hsince ⟨c.2, a, out⟩ (by simp) lock hrec)

end Steps

/-! ## Runs -/

theorem match_of_leads {c : LockRun ρ κ}
    (h : LockSystem.machine.Leads LeavesNoSharers ([], LockSystem.init) c) :
    SharedHoldersMatch c := by
  refine h.invariant (I := SharedHoldersMatch) ?_ ?_
  · intro r clients hget
    cases hget
  · intro c a s' out _ ih hok hs
    exact match_step ih hok hs

theorem sharers_ne_nil_of_leads {c : LockRun ρ κ}
    (h : LockSystem.machine.Leads Machine.always ([], LockSystem.init) c) :
    ∀ r clients, c.2.manager.sharedLocks.get? r = some clients → clients ≠ [] := by
  refine h.invariant (I := fun c =>
    ∀ r clients, c.2.manager.sharedLocks.get? r = some clients → clients ≠ []) ?_ ?_
  · intro r clients hget
    cases hget
  · intro c a s' out _ ih _ hs
    exact sharers_ne_nil_step ih hs

/-- **The shared holders match the lock** all along a run exactly when no
step replaces or deletes a lock and leaves its entry in `shared_locks`. -/
theorem shared_holders_match_iff {c : LockRun ρ κ}
    (h : LockSystem.machine.Leads Machine.always ([], LockSystem.init) c) :
    Throughout SharedHoldersMatch c ↔ EveryStep (fun before a _ => LeavesNoSharers before a) c.1 :=
  h.throughout_iff (fun _ hreach => match_of_leads hreach)
    (fun _ _ _ _ hreach hok hs => sharers_left (sharers_ne_nil_of_leads hreach.always) hok hs)

/-- Two readers, a release, and a writer whose lock expires. -/
def readThenWriteRun : List (LockAction String String) :=
  [.acquire "r" .shared "c1" (.int 5) 0, .acquire "r" .shared "c2" (.int 5) 1,
   .release "r" "c1" 2, .acquire "r" .exclusive "c3" (.int 5) 3, .sweep 9]

theorem shared_holders_match_iff_readThenWriteRun :
    ∃ c : LockRun String String,
      LockSystem.machine.Leads Machine.always ([], LockSystem.init) c ∧
      c.1.length = 5 ∧ Throughout SharedHoldersMatch c := by
  obtain ⟨c, hc, hp⟩ := Machine.exists_leads_of_exec LockSystem.machine Machine.always
    ([], LockSystem.init) readThenWriteRun
    (fun c => decide (c.1.length = 5 ∧
      EveryStep (fun before a _ => LeavesNoSharers before a) c.1)) (by decide +kernel)
  obtain ⟨hlen, hok⟩ := of_decide_eq_true hp
  exact ⟨c, hc, hlen, (shared_holders_match_iff hc).mpr hok⟩

/-- The lock of two readers expires, and `c3` takes the resource for itself. -/
def expiredReadersRun : List (LockAction String String) :=
  [.acquire "r" .shared "c1" (.int 5) 0, .acquire "r" .shared "c2" (.int 5) 1, .sweep 9,
   .acquire "r" .exclusive "c3" (.int 5) 10]

theorem readers_of_expired_lock :
    ∃ c : LockRun String String,
      LockSystem.machine.Leads Machine.always ([], LockSystem.init) c ∧
      c.2.manager.sharedLocks.get? "r" = some ["c2"] ∧ c.2.manager.holder "r" = some "c3" ∧
      ¬ SharedHoldersMatch c := by
  obtain ⟨c, hc, hp⟩ := Machine.exists_leads_of_exec LockSystem.machine Machine.always
    ([], LockSystem.init) expiredReadersRun
    (fun c => decide (c.2.manager.sharedLocks.get? "r" = some ["c2"] ∧
      c.2.manager.holder "r" = some "c3" ∧
      (c.2.manager.locks.get? "r").map Lock.lockType = some .exclusive)) (by decide +kernel)
  obtain ⟨hget, hholder, htype⟩ := of_decide_eq_true hp
  refine ⟨c, hc, hget, hholder, ?_⟩
  intro h
  obtain ⟨lock, hl, hshared, _⟩ := h "r" ["c2"] hget
  rw [hl, Option.map_some, hshared] at htype
  cases htype

end SyncSystem.Locks
