/-
SyncSystem.Locks.Leases — whether a lock lasts as long as was asked.

A lock that `acquire_lock` writes has the timeout of the call as its
ttl. An entry of the waiting queue does not carry the timeout, and
`_process_waiting` writes 30 instead (`handed_for_thirty`). So leases
are as asked exactly in the runs in which only requests for 30 seconds
are handed a resource (`leases_as_asked_iff`).
-/
import SyncSystem.Locks.Requests

namespace SyncSystem.Locks

open SyncSystem.Python

variable {ρ κ : Type} [DecidableEq ρ] [DecidableEq κ]

/-! ## Leases -/

/-- The ttl of the lock is the timeout of the request it was granted for. -/
def LastsAsAsked (made : List (Request ρ κ)) (lock : Lock ρ κ) : Prop :=
  ∃ q ∈ made, q.requestId = lock.requestId ∧ lock.ttl.num? = q.timeout.num?

omit [DecidableEq ρ] [DecidableEq κ] in
theorem LastsAsAsked.mono {made made' : List (Request ρ κ)} {lock : Lock ρ κ}
    (h : LastsAsAsked made lock) (hsub : made ⊆ made') : LastsAsAsked made' lock := by
  obtain ⟨q, hq, hlock⟩ := h
  exact ⟨q, hsub hq, hlock⟩

/-- Every lock in `locks` lasts as long as was asked. -/
def LeasesAsAsked (c : LockRun ρ κ) : Prop :=
  ∀ r lock, c.2.manager.locks.get? r = some lock → LastsAsAsked (requestsMade c) lock

/-- A lock expires in a sweep, and not before the time that was asked for
has passed since it was granted. This is the time the one who got the lock
asked for: the timeout of a reader who joined it later is stored nowhere. -/
def ExpiresInTime (before : LockRun ρ κ) (a : LockAction ρ κ) (out : List (LockEvent ρ κ)) : Prop :=
  ∀ lock, LockEvent.expired lock ∈ out → ∃ now, a = .sweep now ∧
    ∃ q ∈ requestsMade before, q.requestId = lock.requestId ∧
      ∃ asked, q.timeout.num? = some asked ∧ asked < now - lock.createdAt

/-- A request that is handed a resource asked for 30 seconds. -/
abbrev HandedAskedThirty (c : LockRun ρ κ) (a : LockAction ρ κ) : Prop :=
  ∀ r ∈ c.2.takenBy a, ∀ w ∈ (c.2.manager.waiters r).head?,
    ∀ q ∈ requestsMade c, q.requestId = w.requestId → q.timeout.num? = some 30

/-! ## Steps -/

theorem leases_step {c : LockRun ρ κ} {a : LockAction ρ κ} {s' : LockSystem ρ κ}
    {out : List (LockEvent ρ κ)} (hattr : Attributed c.2 (requestsMade c)) (h : LeasesAsAsked c)
    (hok : HandedAskedThirty c a) (hs : c.2.step a = some (s', out)) :
    LeasesAsAsked (c.push a s' out) := by
  intro r lock hl
  rw [requestsMade_push]
  have heff := LockSystem.step_effect hs
  rcases heff.lock hl with ⟨_, hl⟩ | ⟨q, hq, _, _, now, rfl⟩ | ⟨hr, w, hw, now, rfl⟩
  · exact (h r lock hl).mono (List.subset_append_left _ _)
  · refine ⟨q, ?_, rfl, rfl⟩
    rcases hq with hq | hq
    · exact List.mem_append_left _ (hattr.call q hq)
    · exact List.mem_append_right _ (Option.mem_toList.mpr hq)
  · obtain ⟨q, hq, _, rfl⟩ := hattr.waiter r w (List.mem_of_mem_head? hw)
    have hthirty := hok r hr _ hw q hq rfl
    refine ⟨q, List.mem_append_left _ hq, rfl, ?_⟩
    rw [hthirty]
    rfl

/-- The sweep looks at the ttl of the locks, and these are as asked. -/
theorem expires_step {c : LockRun ρ κ} {a : LockAction ρ κ} {s' : LockSystem ρ κ}
    {out : List (LockEvent ρ κ)} (h : LeasesAsAsked c) (hs : c.2.step a = some (s', out)) :
    ExpiresInTime c a out := by
  intro lock hlock
  obtain ⟨now, rfl, r, hl, ttl, httl, hold⟩ := (LockSystem.step_effect hs).expired hlock
  obtain ⟨q, hq, hid, hasked⟩ := h r lock hl
  exact ⟨now, rfl, q, hq, hid, ttl, hasked ▸ httl, hold⟩

/-- Any other request gets less or more than it asked for. -/
theorem handed_otherwise {c : LockRun ρ κ} {a : LockAction ρ κ} {s' : LockSystem ρ κ}
    {out : List (LockEvent ρ κ)} (hattr : Attributed c.2 (requestsMade c))
    (hok : ¬ HandedAskedThirty c a) (hs : c.2.step a = some (s', out)) :
    ¬ LeasesAsAsked (c.push a s' out) := by
  intro h
  apply hok
  intro r hr w hw q hq hid
  have hnext := hattr.step hs
  obtain ⟨⟨now, hl⟩, _⟩ := (LockSystem.step_effect hs).handed hr hw
  obtain ⟨q', hq', hid', hasked⟩ := h r _ hl
  rw [requestsMade_push] at hq'
  have hsame := hnext.unique (List.mem_append_left _ hq) hq' (hid.trans hid'.symm)
  rw [hsame, ← hasked]
  rfl

/-! ## Runs -/

theorem leases_of_leads {c : LockRun ρ κ}
    (h : LockSystem.machine.Leads HandedAskedThirty ([], LockSystem.init) c) :
    LeasesAsAsked c := by
  refine h.invariant (I := LeasesAsAsked) (fun r lock hl => ?_) ?_
  · cases hl
  · intro c a s' out hreach ih hok hs
    exact leases_step (attributed_of_leads hreach.always) ih hok hs

/-- **Leases are as asked** all along a run, and no sweep takes a lock
before its time, exactly when every request that is handed a resource
asked for 30 seconds. -/
theorem leases_as_asked_iff {c : LockRun ρ κ}
    (h : LockSystem.machine.Leads Machine.always ([], LockSystem.init) c) :
    (Throughout LeasesAsAsked c ∧ EveryStep ExpiresInTime c.1) ↔
      EveryStep (fun before a _ => HandedAskedThirty before a) c.1 := by
  have hexact : Throughout LeasesAsAsked c ↔
      EveryStep (fun before a _ => HandedAskedThirty before a) c.1 := by
    refine h.throughout_iff (fun _ hreach => leases_of_leads hreach) ?_
    intro c a s' out hreach hok hs
    exact handed_otherwise (attributed_of_leads hreach.always) hok hs
  refine ⟨fun hall => hexact.mp hall.1, fun hok => ⟨hexact.mpr hok, ?_⟩⟩
  exact (h.of_everyStep hok).everyStep (fun _ _ _ _ hreach _ hs =>
    expires_step (leases_of_leads hreach) hs)

/-- A short lease, an upgrade, a hand-over to a call that asked for 30
seconds, and a sweep when these are over. -/
def thirtyRun : List (LockAction String String) :=
  [.acquire "r" .exclusive "c1" (.int 2) 0, .acquire "r" .exclusive "c1" (.int 7) 1,
   .acquire "r" .exclusive "c2" (.int 30) 1, .test 0 1, .release "r" "c1" 2, .poll 0 2, .sweep 33]

set_option synthInstance.maxSize 256 in
theorem leases_as_asked_iff_thirtyRun :
    ∃ c : LockRun String String,
      LockSystem.machine.Leads Machine.always ([], LockSystem.init) c ∧
      c.2.manager.locks.get? "r" = none ∧
      Throughout LeasesAsAsked c ∧ EveryStep ExpiresInTime c.1 := by
  obtain ⟨c, hc, hp⟩ := Machine.exists_leads_of_exec LockSystem.machine Machine.always
    ([], LockSystem.init) thirtyRun
    (fun c => (c.2.manager.locks.get? "r").isNone &&
      decide (EveryStep (fun before a _ => HandedAskedThirty before a) c.1)) (by decide +kernel)
  simp only [Bool.and_eq_true, Option.isNone_iff_eq_none, decide_eq_true_eq] at hp
  exact ⟨c, hc, hp.1, (leases_as_asked_iff hc).mpr hp.2⟩

/-- `c2` asks for 100 seconds, waits, and is handed the lock. -/
def longLeaseRun : List (LockAction String String) :=
  [.acquire "r" .exclusive "c1" (.int 30) 0, .acquire "r" .exclusive "c2" (.int 100) 1,
   .test 0 1, .release "r" "c1" 2]

theorem handed_for_thirty :
    ∃ c : LockRun String String,
      LockSystem.machine.Leads Machine.always ([], LockSystem.init) c ∧ ¬ LeasesAsAsked c := by
  obtain ⟨c, hc, hp⟩ := Machine.exists_leads_of_exec LockSystem.machine Machine.always
    ([], LockSystem.init) longLeaseRun
    (fun c => (c.2.manager.locks.get? "r").any (fun lock : Lock String String =>
      decide (∀ q ∈ requestsMade c, q.requestId = lock.requestId →
        lock.ttl.num? ≠ q.timeout.num?))) (by decide +kernel)
  simp only [Option.any_eq_true, decide_eq_true_eq] at hp
  obtain ⟨lock, hl, hdiffer⟩ := hp
  refine ⟨c, hc, ?_⟩
  intro h
  obtain ⟨q, hq, hid, hasked⟩ := h "r" lock hl
  exact hdiffer q hq hid hasked

end SyncSystem.Locks
