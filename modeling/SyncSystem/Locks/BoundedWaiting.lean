/-
SyncSystem.Locks.BoundedWaiting — how long a request waits, counted in
hand-overs.

Whoever waits for a resource only moves up. Every time the resource is
taken from its holder, by a release, an expiry sweep or a deadlock
resolution, the place of an entry in the queue goes down by one, and
nothing ever raises it; so an entry at place `i` sees its resource taken
at most `i` times before its own turn (`bounded_waiting`).

When nobody asks for the resource any more, the lock, the entries and
the calls in progress bound how often it can still be taken (`load`),
and releases by the holders are enough to free it (`resource_drains`).
-/
import SyncSystem.Locks.Effects
import SyncSystem.Machine.Since

namespace SyncSystem.Locks

open SyncSystem.Python

variable {ρ κ : Type} [DecidableEq ρ] [DecidableEq κ]

/-- How often the resource was taken from a holder in these steps. -/
def timesTaken (r : ρ)
    (steps : List (Event (LockSystem ρ κ) (LockAction ρ κ) (List (LockEvent ρ κ)))) : Nat :=
  steps.countP (fun e => decide (r ∈ e.before.takenBy e.action))

@[simp] theorem timesTaken_append (r : ρ)
    (steps : List (Event (LockSystem ρ κ) (LockAction ρ κ) (List (LockEvent ρ κ))))
    (s : LockSystem ρ κ) (a : LockAction ρ κ) (out : List (LockEvent ρ κ)) :
    timesTaken r (steps ++ [⟨s, a, out⟩]) =
      timesTaken r steps + if r ∈ s.takenBy a then 1 else 0 := by
  simp [timesTaken, List.countP_append, List.countP_singleton]

/-! ## Places in the queue -/

/-- Two clients wait for a third. -/
def queueRun : List (LockAction String String) :=
  [.acquire "r" .exclusive "c1" (.int 30) 0, .acquire "r" .shared "c2" (.int 30) 1,
   .acquire "r" .exclusive "c3" (.int 30) 2]

/-- Nobody asks for the resource. -/
def NoneAsks (r : ρ) (_ : LockRun ρ κ) : LockAction ρ κ → Prop
  | .acquire r' .. => r' ≠ r
  | _ => True

/-- The lock of the resource and the entries of its queue. -/
def LockManager.weight (m : LockManager ρ κ) (r : ρ) : Nat :=
  (if (m.locks.get? r).isSome then 1 else 0) + (m.waiters r).length

/-- Together with the calls in progress for it. -/
def LockSystem.load (s : LockSystem ρ κ) (r : ρ) : Nat :=
  s.manager.weight r + s.requests.countP (fun q => decide (q.resourceId = r))

/-- Nothing is left: the resource is free, nobody waits and no call for
it is in progress. -/
theorem LockSystem.load_eq_zero {s : LockSystem ρ κ} {r : ρ} : s.load r = 0 ↔
    (s.manager.locks.get? r = none ∧ s.manager.waiters r = []) ∧
      ∀ q ∈ s.requests, q.resourceId ≠ r := by
  simp [load, LockManager.weight, List.countP_eq_zero]

/-- Only what has a lock is taken away. -/
theorem LockSystem.locked_of_mem_takenBy {s : LockSystem ρ κ} {a : LockAction ρ κ} {r : ρ}
    (h : r ∈ s.takenBy a) : (s.manager.locks.get? r).isSome = true := by
  cases a with
  | release r' c now =>
    simp only [takenBy] at h
    split at h
    · next hholder =>
      obtain rfl := List.mem_singleton.mp h
      obtain ⟨lock, hl, _⟩ := Option.map_eq_some_iff.mp hholder
      rw [hl]
      rfl
    · cases h
  | sweep now =>
    simp only [takenBy] at h
    split at h
    · cases hex : LockManager.expiredIn now s.manager.locks.entries with
      | error e => simp [hex, Except.toOption] at h
      | ok rids =>
        simp only [hex, Except.toOption, Option.getD_some] at h
        obtain ⟨lock, hmem, _⟩ := LockManager.mem_expiredIn hex r h
        rw [Dict.get?_of_mem hmem]
        rfl
    · cases h
  | resolveDeadlock victim now =>
    obtain ⟨e, he, rfl⟩ := List.mem_map.mp h
    rw [Dict.get?_of_mem (List.mem_filter.mp he).1]
    rfl
  | _ => cases h

theorem LockManager.weight_dropWaiter_le (m : LockManager ρ κ) (q : Request ρ κ) (r : ρ) :
    (m.dropWaiter q).weight r ≤ m.weight r := by
  have hentries : ((m.dropWaiter q).waiters r).length ≤ (m.waiters r).length := by
    rw [waiters_dropWaiter]
    split
    · exact List.length_filter_le _ _
    · exact Nat.le_refl _
  simp only [weight, dropWaiter_locks]
  omega

theorem LockManager.weight_record {m : LockManager ρ κ} (lock : Lock ρ κ) {r : ρ}
    (h : lock.resourceId ≠ r) : (m.record lock).weight r = m.weight r := by
  simp [weight, get?_locks_record, h]

/-- A call that is over makes room for a lock. -/
theorem LockSystem.load_over {s : LockSystem ρ κ} {k : Nat} {call : Call ρ κ}
    (hk : s.calls[k]? = some call) {m : LockManager ρ κ} {r : ρ}
    (hm : m.weight r ≤ s.manager.weight r + if call.request.resourceId = r then 1 else 0) :
    (s.after m (s.calls.eraseIdx k)).load r ≤ s.load r := by
  obtain ⟨hlt, heq⟩ := List.getElem?_eq_some_iff.mp (requests_get? hk)
  have hcalls := (List.getElem_cons_eraseIdx_perm hlt).countP_eq
    (fun q => decide (q.resourceId = r))
  rw [heq, List.countP_cons] at hcalls
  simp only [decide_eq_true_eq] at hcalls
  rw [load, load, requests_eraseIdx]
  show m.weight r + _ ≤ _
  omega

/-- Every step that takes the resource away is paid for. -/
theorem LockSystem.Effect.load_le {s s' : LockSystem ρ κ} {a : LockAction ρ κ}
    {out : List (LockEvent ρ κ)} (h : Effect s a s' out) {r : ρ} (hother : ∀ q ∈ s.madeBy a,
      q.resourceId ≠ r) : s'.load r + (if r ∈ s.takenBy a then 1 else 0) ≤ s.load r := by
  cases h with
  | taken r' ty b timeout now q hq _ | upgraded r' b timeout now q _ hq _ _ =>
    have hne : q.resourceId ≠ r := hother q (congrArg some hq.symm)
    rw [load, LockManager.weight_record (q.lock now) hne]
    exact Nat.le_refl _
  | waits r' ty b timeout now q _ _ hq _ _ _ _ | raises r' ty b timeout now q _ _ hq _ _ _ _ =>
    have hne : q.resourceId ≠ r := hother q (congrArg some hq.symm)
    have hlocks : (s.manager.enqueue q).locks = s.manager.locks := rfl
    simp [load, LockManager.weight, LockSystem.requests, takenBy, LockManager.waiters_enqueue,
      hne, hlocks]
  | tested k now q deadline phase hk _ | pollsOn k now q deadline lock hk _ _ =>
    rw [load, requests_set hk]
    exact Nat.le_refl _
  | pollTakes k now q deadline hk hfree =>
    refine load_over hk (Nat.le_trans (LockManager.weight_dropWaiter_le _ q r) ?_)
    by_cases heq : q.resourceId = r
    · rw [heq] at hfree
      simp [LockManager.weight, LockManager.get?_locks_record, hfree, heq, Request.lock]
      omega
    · rw [LockManager.weight_record (q.lock now) heq]
      exact Nat.le_add_right _ _
  | pollFinds k now q deadline lock hk _ _ => exact load_over hk (Nat.le_add_right _ _)
  | gaveUp k q deadline hk =>
    exact load_over hk (Nat.le_trans (LockManager.weight_dropWaiter_le _ q r)
      (Nat.le_add_right _ _))
  | joined => exact Nat.le_refl _
  | tookAway a s' now out _ htook _ hcalls _ =>
    have hsame : s'.requests = s.requests := by rw [LockSystem.requests, hcalls]; rfl
    rw [load, load, hsame, LockManager.weight, LockManager.weight, htook.locks, htook.waiters]
    by_cases hr : r ∈ s.takenBy a
    · have hlocked := locked_of_mem_takenBy hr
      cases hw : s.manager.waiters r with
      | nil =>
        simp only [hr, hlocked, if_true, List.head?_nil, Option.map_none, Option.isSome_none,
          Bool.false_eq_true, if_false, List.tail_nil, List.length_nil]
        omega
      | cons w ws =>
        simp only [hr, hlocked, if_true, List.head?_cons, Option.map_some, Option.isSome_some,
          List.tail_cons, List.length_cons]
        omega
    · simp [hr]

/-- A release by the holder hands the resource to the first waiter. -/
theorem LockSystem.release_step {s : LockSystem ρ κ} {r : ρ} {lock : Lock ρ κ}
    (hl : s.manager.locks.get? r = some lock) (now : Rat) :
    ∃ s' out, s.step (.release r lock.holderId now) = some (s', out) ∧
      r ∈ s.takenBy (.release r lock.holderId now) ∧ s'.calls = s.calls ∧
      s'.manager.locks.get? r = (s.manager.waiters r).head?.map (fun w => w.lock r now) ∧
      s'.manager.waiters r = (s.manager.waiters r).tail := by
  have hholder := LockManager.holder_of_get? hl
  have htook := s.manager.takenAway_releaseLock r lock.holderId now
  rw [if_pos hholder] at htook
  refine ⟨_, _, rfl, by simp [takenBy, hholder], rfl, ?_, ?_⟩
  · exact (htook.locks r).trans (if_pos (List.mem_singleton_self r))
  · exact (htook.waiters r).trans (if_pos (List.mem_singleton_self r))

/-- The resource is only released. -/
def OnlyReleases (r : ρ) (_ : LockRun ρ κ) (a : LockAction ρ κ) : Prop :=
  ∃ c now, a = .release r c now

/-- Releases by the holders, one after the other. -/
theorem exists_drained {c : LockRun ρ κ} {r : ρ} (now : Rat)
    (hlocked : (c.2.manager.locks.get? r).isSome = true ∨ c.2.manager.waiters r = []) :
    ∃ c', LockSystem.machine.Leads (OnlyReleases r) c c' ∧
      c'.2.manager.locks.get? r = none ∧ c'.2.manager.waiters r = [] ∧
      c'.2.calls = c.2.calls ∧ timesTaken r (c.since c') = c.2.manager.weight r := by
  generalize hn : c.2.manager.weight r = n
  induction n generalizing c with
  | zero =>
    simp [LockManager.weight] at hn
    exact ⟨c, .refl, hn.1, hn.2, rfl, by simp [timesTaken]⟩
  | succ n ih =>
    obtain ⟨lock, hl⟩ : ∃ lock, c.2.manager.locks.get? r = some lock := by
      rcases hlocked with hsome | hnil
      · exact Option.isSome_iff_exists.mp hsome
      · cases hget : c.2.manager.locks.get? r with
        | none => simp [LockManager.weight, hget, hnil] at hn
        | some lock => exact ⟨lock, rfl⟩
    obtain ⟨s', out, hs, htaken, hcalls, hlocks, hwaiters⟩ := LockSystem.release_step hl now
    have hnext : s'.manager.weight r = n := by
      simp only [LockManager.weight, hl, hlocks, hwaiters] at hn ⊢
      cases hw : c.2.manager.waiters r <;> simp [hw] at hn ⊢ <;> omega
    have hhanded : (s'.manager.locks.get? r).isSome = true ∨ s'.manager.waiters r = [] := by
      rw [hlocks, hwaiters]
      cases c.2.manager.waiters r with
      | nil => exact Or.inr rfl
      | cons w ws => exact Or.inl rfl
    obtain ⟨c', hrun, hfree, hnobody, hsame, htimes⟩ :=
      ih (c := c.push (.release r lock.holderId now) s' out) hhanded hnext
    refine ⟨c', .head ⟨_, s', out, ⟨_, _, rfl⟩, hs, rfl⟩ hrun, hfree, hnobody,
      hsame.trans hcalls, ?_⟩
    rw [hrun.since_head]
    simp only [timesTaken, List.countP_cons, htaken, decide_true, if_true] at htimes ⊢
    omega

/-- **A resource drains.** When nobody asks for it any more, every time it
is taken from a holder uses up its lock, an entry of its queue or a call
in progress, so it is taken at most `load` times; and from every reachable
state releases by its holders free it, one for the lock and one for each
entry. -/
theorem resource_drains {c : LockRun ρ κ}
    (h : LockSystem.machine.Leads Machine.always ([], LockSystem.init) c) (r : ρ) (now : Rat) :
    (∀ c', LockSystem.machine.Leads (NoneAsks r) c c' →
      c'.2.load r + timesTaken r (c.since c') ≤ c.2.load r) ∧
      ∃ c', LockSystem.machine.Leads (OnlyReleases r) c c' ∧
        c'.2.manager.locks.get? r = none ∧ c'.2.manager.waiters r = [] ∧
        c'.2.calls = c.2.calls ∧ timesTaken r (c.since c') = c.2.manager.weight r := by
  constructor
  · intro c' hrun
    refine hrun.since_invariant
      (I := fun steps _ s => s.load r + timesTaken r steps ≤ c.2.load r) (Nat.le_refl _) ?_
    intro d a s' out _ ih hok hs
    have hother : ∀ q ∈ d.2.madeBy a, q.resourceId ≠ r := by
      cases a with
      | acquire r' ty b timeout now =>
        intro q hq
        obtain rfl := Option.some.inj hq
        exact hok
      | _ => simp [LockSystem.madeBy]
    have hless := (LockSystem.step_effect hs).load_le hother
    rw [timesTaken_append]
    omega
  · refine exists_drained now ?_
    by_cases hwait : c.2.manager.waiters r = []
    · exact Or.inr hwait
    · obtain ⟨lock, hl⟩ := (handedOver_of_leads h r hwait).resolve_left id
      exact Or.inl (by rw [hl]; rfl)

/-- The two that wait and the holder: three releases. -/
theorem resource_drains_queueRun :
    ∃ c : LockRun String String, LockSystem.machine.Leads Machine.always ([], LockSystem.init) c ∧
      ∃ c', LockSystem.machine.Leads (OnlyReleases "r") c c' ∧
        c'.2.manager.locks.get? "r" = none ∧ c'.2.manager.waiters "r" = [] ∧
        timesTaken "r" (c.since c') = 3 := by
  obtain ⟨c, hc, hp⟩ := Machine.exists_leads_of_exec LockSystem.machine Machine.always
    ([], LockSystem.init) queueRun (fun c => decide (c.2.manager.weight "r" = 3))
    (by decide +kernel)
  obtain ⟨c', hrun, hfree, hnobody, _, htimes⟩ := (resource_drains hc "r" 5).2
  exact ⟨c, hc, c', hrun, hfree, hnobody, htimes.trans (of_decide_eq_true hp)⟩

end SyncSystem.Locks
