/-
SyncSystem.Locks.Effects — what a step adds to the tables and to the
calls in progress, and what it keeps.

Each fact is read off `Effect` once, for the locks, the entries, the
calls and the outputs; the invariants of the runs are proved from these.
-/
import SyncSystem.Locks.Steps

namespace SyncSystem.Locks

open SyncSystem.Python

variable {ρ κ : Type} [DecidableEq ρ] [DecidableEq κ]

namespace LockManager

/-- A lock that is recorded for a request. -/
theorem lock_of_record {m : LockManager ρ κ} {q : Request ρ κ} {now : Rat} {r : ρ} {lock : Lock ρ κ}
    (hl : (m.record (q.lock now)).locks.get? r = some lock) :
    m.locks.get? r = some lock ∨ q.resourceId = r ∧ lock = q.lock now := by
  rw [get?_locks_record] at hl
  split at hl
  · next heq => exact Or.inr ⟨heq, (Option.some.inj hl).symm⟩
  · exact Or.inl hl

theorem waiter_of_enqueue {m : LockManager ρ κ} {q : Request ρ κ} {r : ρ} {w : Waiter κ}
    (hw : w ∈ (m.enqueue q).waiters r) : w ∈ m.waiters r ∨ q.resourceId = r ∧ w = q.waiter := by
  rw [waiters_enqueue] at hw
  split at hw
  · next heq =>
    rcases List.mem_append.mp hw with hw | hw
    · exact Or.inl hw
    · exact Or.inr ⟨heq, List.mem_singleton.mp hw⟩
  · exact Or.inl hw

end LockManager

namespace LockSystem

/-- A sweep takes away locks that are older than their ttl. -/
theorem old_of_mem_takenBy (s : LockSystem ρ κ) {now : Rat} {r : ρ} {lock : Lock ρ κ}
    (hr : r ∈ s.takenBy (.sweep now)) (hl : s.manager.locks.get? r = some lock) :
    ∃ ttl, lock.ttl.num? = some ttl ∧ ttl < now - lock.createdAt := by
  simp only [takenBy] at hr
  split at hr
  · cases hex : LockManager.expiredIn now s.manager.locks.entries with
    | error e => simp [hex, Except.toOption] at hr
    | ok rids =>
      simp only [hex, Except.toOption, Option.getD_some] at hr
      obtain ⟨lock', hmem, hold⟩ := LockManager.mem_expiredIn hex r hr
      rw [Dict.get?_of_mem hmem] at hl
      cases hl
      exact hold
  · cases hr

namespace Effect

variable {s s' : LockSystem ρ κ} {a : LockAction ρ κ} {out : List (LockEvent ρ κ)}

/-- A lock was there before, or is granted to a call that is answered,
or is handed to the first waiter. -/
theorem lock (h : Effect s a s' out) {r : ρ} {lock : Lock ρ κ}
    (hl : s'.manager.locks.get? r = some lock) :
    (r ∉ s.takenBy a ∧ s.manager.locks.get? r = some lock) ∨
      (∃ q, (q ∈ s.requests ∨ q ∈ s.madeBy a) ∧ .answered q true ∈ out ∧ q.resourceId = r ∧
        ∃ now, lock = q.lock now) ∨
      (r ∈ s.takenBy a ∧ ∃ w ∈ (s.manager.waiters r).head?, ∃ now, lock = w.lock r now) := by
  cases h with
  | taken r' ty c timeout now q hq _ | upgraded r' c timeout now q existing hq _ _ =>
    rcases LockManager.lock_of_record hl with hl | ⟨hr, hlock⟩
    · exact Or.inl ⟨by simp [takenBy], hl⟩
    · exact Or.inr (Or.inl ⟨q, Or.inr (congrArg some hq.symm), by simp, hr, now, hlock⟩)
  | pollTakes k now q deadline hk _ =>
    simp only [after, LockManager.dropWaiter_locks] at hl
    rcases LockManager.lock_of_record hl with hl | ⟨hr, hlock⟩
    · exact Or.inl ⟨by simp [takenBy], hl⟩
    · have hmem := List.mem_of_getElem? (requests_get? hk)
      exact Or.inr (Or.inl ⟨q, Or.inl hmem, by simp, hr, now, hlock⟩)
  | gaveUp k q deadline hk =>
    simp only [after, LockManager.dropWaiter_locks] at hl
    exact Or.inl ⟨by simp [takenBy], hl⟩
  | tookAway a s' now out _ htook _ _ _ =>
    rw [htook.locks] at hl
    split at hl
    · next hr =>
      obtain ⟨w, hw, hlock⟩ := Option.map_eq_some_iff.mp hl
      exact Or.inr (Or.inr ⟨hr, w, hw, now, hlock.symm⟩)
    · next hr => exact Or.inl ⟨hr, hl⟩
  | _ => exact Or.inl ⟨by simp [takenBy], hl⟩

/-- An entry was there before, or is that of the request that is made,
which is in progress then or has raised. -/
theorem waiter (h : Effect s a s' out) {r : ρ} {w : Waiter κ} (hw : w ∈ s'.manager.waiters r) :
    w ∈ s.manager.waiters r ∨ ∃ q ∈ s.madeBy a, q.resourceId = r ∧ w = q.waiter ∧
      (q ∈ s'.requests ∨ ∃ e, .raised q e ∈ out) := by
  cases h with
  | waits r' ty c timeout now q lock deadline hq _ _ _ _ =>
    rcases LockManager.waiter_of_enqueue hw with hw | ⟨hr, hwaiter⟩
    · exact Or.inl hw
    · refine Or.inr ⟨q, congrArg some hq.symm, hr, hwaiter, Or.inl ?_⟩
      simp [LockSystem.requests]
  | raises r' ty c timeout now q lock e hq _ _ _ _ =>
    rcases LockManager.waiter_of_enqueue hw with hw | ⟨hr, hwaiter⟩
    · exact Or.inl hw
    · exact Or.inr ⟨q, congrArg some hq.symm, hr, hwaiter, Or.inr ⟨e, by simp⟩⟩
  | pollTakes k now q deadline _ _ =>
    exact Or.inl ((s.manager.record (q.lock now)).waiters_dropWaiter_subset q r hw)
  | gaveUp k q deadline _ => exact Or.inl (s.manager.waiters_dropWaiter_subset q r hw)
  | tookAway a s' now out _ htook _ _ _ => exact Or.inl (htook.waiters_subset r hw)
  | _ => exact Or.inl hw

/-- The entries keep their order, and a new one is the last. -/
theorem waiters (h : Effect s a s' out) (r : ρ) :
    (s'.manager.waiters r).Sublist
      (s.manager.waiters r ++ (s.madeBy a).toList.map Request.waiter) := by
  have henqueue : ∀ q : Request ρ κ, ((s.manager.enqueue q).waiters r).Sublist
      (s.manager.waiters r ++ [q.waiter]) := by
    intro q
    rw [LockManager.waiters_enqueue]
    split
    · exact List.Sublist.refl _
    · exact List.sublist_append_left _ _
  have hdrop : ∀ (m : LockManager ρ κ) (q : Request ρ κ),
      ((m.dropWaiter q).waiters r).Sublist (m.waiters r) := by
    intro m q
    rw [LockManager.waiters_dropWaiter]
    split
    · exact List.filter_sublist
    · exact List.Sublist.refl _
  cases h with
  | waits r' ty c timeout now q lock deadline hq _ _ _ _
  | raises r' ty c timeout now q lock e hq _ _ _ _ =>
    subst hq
    exact henqueue _
  | pollTakes k now q deadline _ _ =>
    exact (hdrop (s.manager.record (q.lock now)) q).trans (List.sublist_append_left _ _)
  | gaveUp k q deadline _ => exact (hdrop s.manager q).trans (List.sublist_append_left _ _)
  | tookAway a s' now out _ htook _ _ _ =>
    rw [htook.waiters]
    split
    · exact (List.tail_sublist _).trans (List.sublist_append_left _ _)
    · exact List.sublist_append_left _ _
  | _ => exact List.sublist_append_left _ _

/-- At most the request that is made is new among the calls in progress. -/
theorem requests (h : Effect s a s' out) :
    s'.requests.Sublist (s.requests ++ (s.madeBy a).toList) := by
  cases h with
  | waits r ty c timeout now q lock deadline hq _ _ _ _ =>
    rw [hq]
    simp [LockSystem.requests, madeBy]
  | tested k now q deadline phase hk _ | pollsOn k now q deadline lock hk _ _ =>
    rw [requests_set hk]
    exact List.sublist_append_left _ _
  | pollTakes k now q deadline hk _ | pollFinds k now q deadline lock hk _ _
  | gaveUp k q deadline hk =>
    rw [requests_eraseIdx]
    exact (List.eraseIdx_sublist _ _).trans (List.sublist_append_left _ _)
  | tookAway a s' now out _ _ _ hcalls _ =>
    rw [LockSystem.requests, hcalls]
    exact List.sublist_append_left _ _
  | _ => exact List.sublist_append_left _ _

/-- A call that is not in progress any more has been answered. -/
theorem request (h : Effect s a s' out) {q : Request ρ κ} (hq : q ∈ s.requests) :
    q ∈ s'.requests ∨ ∃ b, .answered q b ∈ out := by
  cases h with
  | waits => exact Or.inl (by simpa [LockSystem.requests] using Or.inl hq)
  | tested k now q' deadline phase hk _ | pollsOn k now q' deadline lock hk _ _ =>
    rw [requests_set hk]
    exact Or.inl hq
  | pollTakes k now q' deadline hk _ | pollFinds k now q' deadline lock hk _ _ =>
    rw [requests_eraseIdx]
    rcases mem_eraseIdx_or_eq (requests_get? hk) hq with hq | rfl
    · exact Or.inl hq
    · exact Or.inr ⟨true, by simp⟩
  | gaveUp k q' deadline hk =>
    rw [requests_eraseIdx]
    rcases mem_eraseIdx_or_eq (requests_get? hk) hq with hq | rfl
    · exact Or.inl hq
    · exact Or.inr ⟨false, by simp⟩
  | tookAway a s' now out _ _ _ hcalls _ =>
    rw [LockSystem.requests, hcalls]
    exact Or.inl hq
  | _ => exact Or.inl hq

/-- A lock that is recorded is in the table after the step. -/
theorem recorded (h : Effect s a s' out) {lock : Lock ρ κ} (hlock : .recorded lock ∈ out) :
    s'.manager.locks.get? lock.resourceId = some lock := by
  cases h with
  | taken r ty c timeout now q _ _ | upgraded r c timeout now q _ _ _ _ =>
    obtain rfl : lock = q.lock now := by simpa using hlock
    show (s.manager.record (q.lock now)).locks.get? _ = _
    rw [LockManager.get?_locks_record, if_pos rfl]
  | pollTakes k now q deadline _ _ =>
    obtain rfl : lock = q.lock now := by simpa using hlock
    simp only [after, LockManager.dropWaiter_locks]
    rw [LockManager.get?_locks_record, if_pos rfl]
  | tookAway a s' now out _ htook _ _ _ =>
    rcases htook.events _ hlock with ⟨r, hr, w, hw, heq⟩ | hreport
    · cases heq
      rw [htook.locks, show (w.lock r now).resourceId = r from rfl, if_pos hr,
        Option.mem_def.mp hw]
      rfl
    · cases a <;> simp [Reports] at hreport
  | _ => simp at hlock

/-- Only the request that is made is queued. -/
theorem queued (h : Effect s a s' out) {q : Request ρ κ} (hq : .queued q ∈ out) :
    s.madeBy a = some q := by
  cases h with
  | waits r ty c timeout now q' _ _ hq' _ _ _ _ | raises r ty c timeout now q' _ _ hq' _ _ _ _ =>
    obtain rfl : q = q' := by simpa using hq
    exact congrArg some hq'.symm
  | tookAway a s' now out _ htook _ _ _ =>
    cases isTaking_of_mem htook hq
  | _ => simp at hq

/-- A lock that is not taken away keeps its holder. -/
theorem holder_kept (h : Effect s a s' out) {r : ρ} {b : κ} (hb : s.manager.holder r = some b)
    (hr : r ∉ s.takenBy a) : s'.manager.holder r = some b := by
  have hheld : ∀ r', s.manager.locks.get? r' = none → r' ≠ r := by
    rintro r' hfree rfl
    rw [LockManager.holder, hfree] at hb
    cases hb
  cases h with
  | taken r' ty c timeout now q hq hfree =>
    have hne : q.resourceId ≠ r := by
      rw [hq]
      exact hheld r' hfree
    show (s.manager.record (q.lock now)).holder r = some b
    rw [LockManager.holder_grant, if_neg hne, hb]
  | upgraded r' c timeout now q lock hq hsome hholder =>
    show (s.manager.record (q.lock now)).holder r = some b
    rw [LockManager.holder_grant]
    split
    · next heq =>
      subst hq
      have hsame : r' = r := heq
      rw [← hsame, LockManager.holder_of_get? hsome, hholder] at hb
      exact hb
    · exact hb
  | pollTakes k now q deadline hk hfree =>
    simp only [after, LockManager.holder_dropWaiter]
    rw [LockManager.holder_grant, if_neg (hheld _ hfree), hb]
  | gaveUp k q deadline hk =>
    simp only [after, LockManager.holder_dropWaiter]
    exact hb
  | tookAway a s' now out _ htook _ _ _ =>
    rw [LockManager.holder, htook.locks, if_neg hr]
    exact hb
  | _ => exact hb

/-- A call that is answered is the recorded holder's, or joins a SHARED
lock. -/
theorem answered (h : Effect s a s' out) {q : Request ρ κ} (hq : .answered q true ∈ out) :
    s'.manager.holder q.resourceId = some q.clientId ∨
      q ∈ s.madeBy a ∧ q.lockType = .shared ∧
        ∃ lock, s.manager.locks.get? q.resourceId = some lock ∧ lock.lockType = .shared := by
  cases h with
  | taken r ty c timeout now q' hq' _ | upgraded r c timeout now q' lock hq' _ _ =>
    obtain rfl : q = q' := by simpa using hq
    refine Or.inl ?_
    show (s.manager.record (q.lock now)).holder q.resourceId = some q.clientId
    rw [LockManager.holder_grant, if_pos rfl]
  | joined r c timeout now q' lock hq' hsome hshared =>
    obtain rfl : q = q' := by simpa using hq
    subst hq'
    exact Or.inr ⟨rfl, rfl, lock, hsome, hshared⟩
  | pollTakes k now q' deadline hk _ =>
    obtain rfl : q = q' := by simpa using hq
    refine Or.inl ?_
    simp only [after, LockManager.holder_dropWaiter]
    rw [LockManager.holder_grant, if_pos rfl]
  | pollFinds k now q' deadline lock hk hsome hholder =>
    obtain rfl : q = q' := by simpa using hq
    refine Or.inl ?_
    show s.manager.holder q.resourceId = some q.clientId
    rw [LockManager.holder_of_get? hsome, hholder]
  | tookAway a s' now out _ htook _ _ _ =>
    cases isTaking_of_mem htook hq
  | _ => simp at hq

/-- The first waiter of a resource that is taken away gets it. -/
theorem handed (h : Effect s a s' out) {r : ρ} (hr : r ∈ s.takenBy a) {w : Waiter κ}
    (hw : w ∈ (s.manager.waiters r).head?) :
    (∃ now, s'.manager.locks.get? r = some (w.lock r now)) ∧
      s'.manager.waiters r = (s.manager.waiters r).tail := by
  cases h with
  | tookAway a s' now out _ htook _ _ _ =>
    constructor
    · exact ⟨now, by rw [htook.locks, if_pos hr, Option.mem_def.mp hw]; rfl⟩
    · rw [htook.waiters, if_pos hr]
  | _ => cases hr

/-- A lock expires in a sweep that finds it older than its ttl. -/
theorem expired (h : Effect s a s' out) {lock : Lock ρ κ} (hlock : .expired lock ∈ out) :
    ∃ now, a = .sweep now ∧ ∃ r, s.manager.locks.get? r = some lock ∧
      ∃ ttl, lock.ttl.num? = some ttl ∧ ttl < now - lock.createdAt := by
  cases h with
  | tookAway a s' now out _ htook _ _ _ =>
    rcases htook.events _ hlock with ⟨_, _, _, _, heq⟩ | hreport
    · cases heq
    · cases a with
      | sweep now' =>
        obtain ⟨r, hr, lock', hl, heq⟩ := hreport
        cases heq
        exact ⟨now', rfl, r, hl, s.old_of_mem_takenBy hr hl⟩
      | release => obtain ⟨_, heq⟩ := hreport; cases heq
      | resolveDeadlock => obtain ⟨_, _, _, _, heq⟩ := hreport; cases heq
      | _ => cases hreport
  | _ => simp at hlock

theorem nextRequest (h : Effect s a s' out) :
    s'.nextRequest = s.nextRequest + (s.madeBy a).toList.length := by
  cases h with
  | tookAway a s' now out htakes _ _ _ hnext => simp [s.madeBy_of_takes htakes, hnext]
  | _ => rfl

end Effect

end LockSystem

end SyncSystem.Locks
