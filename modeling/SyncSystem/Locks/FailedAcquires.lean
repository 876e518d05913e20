/-
SyncSystem.Locks.FailedAcquires — a call that has timed out gets nothing
later.

asyncio switches tasks where one really suspends, and of the awaits of
this class only `asyncio.sleep` does. So between the deadline test and
the removal of its entry nobody runs but the call itself (`RunsOn`). A
hand-over could reach it there and only there: a call that does not
sleep carries no lock (`AwakeUngranted`), hence when it gives up nothing
of it is left (`failed_stays_failed`).
-/
import SyncSystem.Locks.Requests

namespace SyncSystem.Locks

open SyncSystem.Python

variable {ρ κ : Type} [DecidableEq ρ] [DecidableEq κ]

/-! ## Scheduling -/

/-- The call in progress that moves. -/
def LockAction.moves : LockAction ρ κ → Option Nat
  | .test k _ => some k
  | .poll k _ => some k
  | .giveUp k => some k
  | _ => none

/-- A call that does not sleep runs on: nobody else moves. -/
abbrev RunsOn (c : LockRun ρ κ) (a : LockAction ρ κ) : Prop :=
  ∀ k (hk : k < c.2.calls.length), c.2.calls[k].phase ≠ .asleep → a.moves = some k

theorem RunsOn.asleep {c : LockRun ρ κ} {a : LockAction ρ κ} (h : RunsOn c a)
    (ha : a.moves = none) : ∀ call ∈ c.2.calls, call.phase = .asleep := by
  intro call hcall
  obtain ⟨k, hk, rfl⟩ := List.getElem_of_mem hcall
  by_contra hphase
  rw [h k hk hphase] at ha
  cases ha

omit [DecidableEq ρ] [DecidableEq κ] in
theorem LockAction.moves_of_takes {a : LockAction ρ κ} (h : a.takes = true) : a.moves = none := by
  cases a <;> first | rfl | cases h

/-! ## Calls that do not sleep -/

/-- No lock carries the id of a call that does not sleep. -/
def AwakeUngranted (s : LockSystem ρ κ) : Prop :=
  ∀ call ∈ s.calls, call.phase ≠ .asleep →
    ∀ r lock, s.manager.locks.get? r = some lock → lock.requestId ≠ call.request.requestId

namespace AwakeUngranted

variable {s s' : LockSystem ρ κ}

theorem init : AwakeUngranted (LockSystem.init : LockSystem ρ κ) := by
  intro call hcall
  cases hcall

/-- The calls that do not sleep are those from before, and the locks are
those from before and one that carries another id. -/
theorem keep (h : AwakeUngranted s) (hcalls : ∀ call ∈ s'.calls, call.phase ≠ .asleep →
      ∃ old ∈ s.calls, old.phase ≠ .asleep ∧ old.request = call.request)
    (hlocks : ∀ r lock, s'.manager.locks.get? r = some lock →
      s.manager.locks.get? r = some lock ∨
        ∀ call ∈ s'.calls, lock.requestId ≠ call.request.requestId) : AwakeUngranted s' := by
  intro call hcall hphase r lock hl
  rcases hlocks r lock hl with hl | hother
  · obtain ⟨old, hold, hawake, hsame⟩ := hcalls call hcall hphase
    rw [← hsame]
    exact h old hold hawake r lock hl
  · exact hother call hcall


theorem step {a : LockAction ρ κ} {out : List (LockEvent ρ κ)} {made : List (Request ρ κ)}
    (h : AwakeUngranted s) (hattr : Attributed s made)
    (hasleep : a.takes = true → ∀ call ∈ s.calls, call.phase = .asleep)
    (heff : LockSystem.Effect s a s' out) : AwakeUngranted s' := by
  have hissued : ∀ call ∈ s.calls, call.request.requestId < s.nextRequest :=
    fun call hcall => hattr.lt (hattr.call _ (List.mem_map_of_mem hcall))
  have hsame : ∀ calls : List (Call ρ κ), calls ⊆ s.calls → ∀ call ∈ calls,
      call.phase ≠ .asleep → ∃ old ∈ s.calls, old.phase ≠ .asleep ∧ old.request = call.request :=
    fun _ hsub call hcall hphase => ⟨call, hsub hcall, hphase, rfl⟩
  cases heff with
  | taken r ty c timeout now q hq _ | upgraded r c timeout now q _ hq _ _ =>
    refine h.keep (hsame _ (List.Subset.refl _)) ?_
    intro r lock hl
    rcases LockManager.lock_of_record hl with hl | ⟨_, hlock⟩
    · exact Or.inl hl
    · refine Or.inr ?_
      intro call hcall
      have hlt := hissued call hcall
      subst hlock hq
      exact hlt.ne'
  | joined | raises =>
    exact h.keep (hsame _ (List.Subset.refl _)) (fun _ _ hl => Or.inl hl)
  | waits r ty c timeout now q lock deadline hq _ _ _ _ =>
    intro call hcall hphase r lock hl
    rcases List.mem_append.mp hcall with hcall | hcall
    · exact h call hcall hphase r lock hl
    · -- the id of the new call is not that of a lock yet
      obtain ⟨q', hq', _, hgranted⟩ := hattr.lock r lock hl
      have hlt := hattr.lt hq'
      rw [List.mem_singleton.mp hcall, hgranted.carries.1, hq]
      exact hlt.ne
  | tested k now q deadline phase hk _ =>
    refine h.keep ?_ (fun _ _ hl => Or.inl hl)
    intro call hcall hphase
    rcases List.mem_or_eq_of_mem_set hcall with hcall | rfl
    · exact ⟨call, hcall, hphase, rfl⟩
    · exact ⟨_, List.mem_of_getElem? hk, by simp, rfl⟩
  | pollTakes k now q deadline hk _ =>
    refine h.keep (hsame _ (List.eraseIdx_sublist _ _).subset) ?_
    intro r lock hl
    simp only [LockSystem.after, LockManager.dropWaiter_locks] at hl
    rcases LockManager.lock_of_record hl with hl | ⟨_, hlock⟩
    · exact Or.inl hl
    · refine Or.inr ?_
      intro call hcall
      have hother : call.request ∈ s.requests.eraseIdx k := by
        rw [← s.requests_eraseIdx s.manager k]
        exact List.mem_map_of_mem hcall
      subst hlock
      exact (LockSystem.key_ne_of_mem_eraseIdx hattr.distinct (LockSystem.requests_get? hk)
        hother).symm
  | pollFinds k =>
    exact h.keep (hsame _ (List.eraseIdx_sublist _ _).subset) (fun _ _ hl => Or.inl hl)
  | pollsOn k now q deadline lock hk hsome hother =>
    intro call hcall hphase r lock' hl
    rcases List.mem_or_eq_of_mem_set hcall with hcall | rfl
    · exact h call hcall hphase r lock' hl
    · -- a lock with this id would be on this resource and name this client
      intro hid
      have hmade := hattr.call q (List.mem_of_getElem? (LockSystem.requests_get? hk))
      obtain ⟨q', hq', hr, hgranted⟩ := hattr.lock r lock' hl
      obtain rfl : q' = q := hattr.unique hq' hmade (hgranted.carries.1.symm.trans hid)
      subst hr
      have hl : s.manager.locks.get? q'.resourceId = some lock' := hl
      rw [hsome] at hl
      cases hl
      exact hother hgranted.carries.2
  | gaveUp k q deadline hk =>
    refine h.keep (hsame _ (List.eraseIdx_sublist _ _).subset) ?_
    intro r lock hl
    simp only [LockSystem.after, LockManager.dropWaiter_locks] at hl
    exact Or.inl hl
  | tookAway a s' now out htakes _ _ hcalls _ =>
    intro call hcall hphase
    rw [hcalls] at hcall
    exact absurd (hasleep htakes call hcall) hphase

end AwakeUngranted

theorem awakeUngranted_of_leads {c : LockRun ρ κ}
    (h : LockSystem.machine.Leads RunsOn ([], LockSystem.init) c) : AwakeUngranted c.2 := by
  refine h.invariant (I := fun c => AwakeUngranted c.2) AwakeUngranted.init ?_
  intro c a s' out hreach ih hok hs
  exact ih.step (attributed_of_leads hreach.always)
    (fun htakes => hok.asleep (LockAction.moves_of_takes htakes)) (LockSystem.step_effect hs)

/-! ## Calls that are over -/

/-- No lock, entry or call in progress has the id. -/
structure Gone (s : LockSystem ρ κ) (id : Nat) : Prop where
  issued : id < s.nextRequest
  lock : ∀ r lock, s.manager.locks.get? r = some lock → lock.requestId ≠ id
  waiter : ∀ r, ∀ w ∈ s.manager.waiters r, w.requestId ≠ id
  call : ∀ q ∈ s.requests, q.requestId ≠ id

/-- What is gone does not come back. -/
theorem Gone.step {s s' : LockSystem ρ κ} {a : LockAction ρ κ}
    {out : List (LockEvent ρ κ)} {id : Nat} (h : Gone s id)
    (heff : LockSystem.Effect s a s' out) : Gone s' id := by
  have hnew : ∀ q ∈ s.madeBy a, q.requestId ≠ id := by
    intro q hq
    have hlt := h.issued
    cases a <;> cases hq
    exact hlt.ne'
  constructor
  · have hissued := h.issued
    have hnext := heff.nextRequest
    omega
  · intro r lock hl
    rcases heff.lock hl with ⟨_, hl⟩ | ⟨q, hq | hq, _, _, now, rfl⟩ | ⟨_, w, hw, now, rfl⟩
    · exact h.lock r lock hl
    · exact h.call q hq
    · exact hnew q hq
    · exact h.waiter r w (List.mem_of_mem_head? hw)
  · intro r w hw
    rcases heff.waiter hw with hw | ⟨q, hq, _, rfl, _⟩
    · exact h.waiter r w hw
    · exact hnew q hq
  · intro q hq
    rcases List.mem_append.mp (heff.requests.subset hq) with hq | hq
    · exact h.call q hq
    · exact hnew q (Option.mem_toList.mp hq)

/-- The call returned the timeout error. -/
def Failed (c : LockRun ρ κ) (q : Request ρ κ) : Prop :=
  ∃ e ∈ c.1, LockEvent.answered q false ∈ e.output


/-- A call that gives up leaves nothing behind. -/
theorem gone_of_failed {s s' : LockSystem ρ κ} {a : LockAction ρ κ} {out : List (LockEvent ρ κ)}
    {made : List (Request ρ κ)} (hattr : Attributed s made) (hawake : AwakeUngranted s)
    (heff : LockSystem.Effect s a s' out) {q : Request ρ κ}
    (hq : LockEvent.answered q false ∈ out) : Gone s' q.requestId := by
  cases heff with
  | gaveUp k q' deadline hk =>
    obtain rfl : q = q' := by simpa using hq
    have hmade := hattr.call q (List.mem_of_getElem? (LockSystem.requests_get? hk))
    constructor
    · exact hattr.lt hmade
    · intro r lock hl
      simp only [LockSystem.after, LockManager.dropWaiter_locks] at hl
      exact hawake _ (List.mem_of_getElem? hk) (by simp) r lock hl
    · intro r w hw hid
      obtain ⟨q', hq', rfl, rfl⟩ :=
        hattr.waiter r w (s.manager.waiters_dropWaiter_subset q r hw)
      obtain rfl : q' = q := hattr.unique hq' hmade hid
      exact LockManager.ne_of_mem_dropWaiter hw rfl
    · intro q' hq'
      rw [LockSystem.requests_eraseIdx] at hq'
      exact LockSystem.key_ne_of_mem_eraseIdx hattr.distinct (LockSystem.requests_get? hk) hq'
  | tookAway a s' now out _ htook _ _ _ =>
    cases LockSystem.isTaking_of_mem htook hq
  | _ => simp at hq

theorem gone_of_leads {c : LockRun ρ κ}
    (h : LockSystem.machine.Leads RunsOn ([], LockSystem.init) c) :
    ∀ q, Failed c q → Gone c.2 q.requestId := by
  refine h.invariant (I := fun c => ∀ q, Failed c q → Gone c.2 q.requestId) ?_ ?_
  · rintro q ⟨e, he, _⟩
    cases he
  · rintro c a s' out hreach ih hok hs q ⟨e, he, hfailed⟩
    have heff := LockSystem.step_effect hs
    rcases List.mem_append.mp he with he | he
    · exact (ih q ⟨e, he, hfailed⟩).step heff
    · rw [List.mem_singleton.mp he] at hfailed
      exact gone_of_failed (attributed_of_leads hreach.always) (awakeUngranted_of_leads hreach)
        heff hfailed

/-- **A failed acquire stays failed.** Once a call has returned the
timeout error, no lock and no entry of a waiting queue carries its
request id. -/
theorem failed_stays_failed {c : LockRun ρ κ}
    (h : LockSystem.machine.Leads RunsOn ([], LockSystem.init) c) {q : Request ρ κ}
    (hq : Failed c q) (r : ρ) :
    (∀ lock, c.2.manager.locks.get? r = some lock → lock.requestId ≠ q.requestId) ∧
      ∀ w ∈ c.2.manager.waiters r, w.requestId ≠ q.requestId := by
  have hgone := gone_of_leads h q hq
  exact ⟨hgone.lock r, hgone.waiter r⟩

/-- A call returns the timeout error. -/
def LockEvent.isTimeout : LockEvent ρ κ → Bool
  | .answered _ false => true
  | _ => false

theorem failed_of_isTimeout {c : LockRun ρ κ}
    (h : c.1.any (fun e => e.output.any LockEvent.isTimeout) = true) :
    ∃ q, Failed c q := by
  obtain ⟨e, he, hany⟩ := List.any_eq_true.mp h
  obtain ⟨ev, hev, htimeout⟩ := List.any_eq_true.mp hany
  cases ev with
  | answered q success =>
    cases success with
    | false => exact ⟨q, e, he, hev⟩
    | true => cases htimeout
  | _ => cases htimeout

/-- `c2` times out in front of `c3`, who is handed the lock; `c2` asks
again. -/
def timeoutRun : List (LockAction String String) :=
  [.acquire "r" .exclusive "c1" (.int 30) 0, .acquire "r" .exclusive "c2" (.int 1) 0, .test 0 0,
   .acquire "r" .shared "c3" (.int 30) 0, .test 1 0, .poll 0 2, .test 0 2, .giveUp 0,
   .release "r" "c1" 3, .acquire "r" .exclusive "c2" (.int 30) 3]

theorem failed_stays_failed_timeoutRun :
    ∃ c : LockRun String String, LockSystem.machine.Leads RunsOn ([], LockSystem.init) c ∧
      ∃ q, Failed c q ∧ c.2.manager.holder "r" = some "c3" ∧ c.2.manager.waiters "r" ≠ [] ∧
        (∀ lock, c.2.manager.locks.get? "r" = some lock → lock.requestId ≠ q.requestId) ∧
        ∀ w ∈ c.2.manager.waiters "r", w.requestId ≠ q.requestId := by
  obtain ⟨c, hc, hp⟩ := Machine.exists_leads_of_exec LockSystem.machine RunsOn
    ([], LockSystem.init) timeoutRun
    (fun c => decide (c.2.manager.holder "r" = some "c3") &&
      !(c.2.manager.waiters "r").isEmpty &&
      c.1.any (fun e => e.output.any LockEvent.isTimeout)) (by decide +kernel)
  simp only [Bool.and_eq_true, decide_eq_true_eq, Bool.not_eq_true', List.isEmpty_eq_false_iff] at hp
  obtain ⟨⟨hholder, hwait⟩, htimeout⟩ := hp
  obtain ⟨q, hfailed⟩ := failed_of_isTimeout htimeout
  exact ⟨c, hc, q, hfailed, hholder, hwait, failed_stays_failed hc hfailed "r"⟩

end SyncSystem.Locks
