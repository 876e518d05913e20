/-
SyncSystem.Locks.FirstCome — first come, first served.

With EXCLUSIVE requests of clients that wait for one answer at a time, a
lock belongs to a call in progress or to a client that was told so, and
whoever waits came after it (`Turns`). So a resource is granted in the
order of the calls (`first_come_first_served`), unless a call raises
after it has queued: its entry is handed the lock, and the next call of
that client passes those that wait (`newcomer_first`).
-/
import SyncSystem.Locks.FailedAcquires
import SyncSystem.Locks.Holders
import SyncSystem.Locks.LiveWaiters

namespace SyncSystem.Locks

open SyncSystem.Python

variable {ρ κ : Type} [DecidableEq ρ] [DecidableEq κ]

/-! ## The order of grants -/

/-- The step grants `r` to the request: a lock is recorded for it or its
call is answered. -/
def Grants (out : List (LockEvent ρ κ)) (r : ρ) (id : Nat) : Prop :=
  (∃ lock, LockEvent.recorded lock ∈ out ∧ lock.resourceId = r ∧ lock.requestId = id) ∨
    ∃ q, LockEvent.answered q true ∈ out ∧ q.resourceId = r ∧ q.requestId = id

/-- The request `id` was queued in a step before the one in which the
request `id'` arrived. -/
def QueuedBefore (c : LockRun ρ κ) (id id' : Nat) : Prop :=
  ∃ h₁ e h₂, c.1 = h₁ ++ e :: h₂ ∧
    (∃ q, LockEvent.queued q ∈ e.output ∧ q.requestId = id) ∧
    ∃ e' ∈ h₂, ∃ q', e'.before.madeBy e'.action = some q' ∧ q'.requestId = id'

/-- Nobody who is granted a resource in the last step of the run arrived
after somebody who still waits for it had been queued. -/
def InTurn (c : LockRun ρ κ) : Prop :=
  ∀ e ∈ c.1.getLast?, ∀ r id, Grants e.output r id →
    ∀ w ∈ c.2.manager.waiters r, ¬ QueuedBefore c w.requestId id

/-- Requests are EXCLUSIVE, and a client asks for a resource only when no
call of it for the resource is in progress and it does not hold it. -/
abbrev AsksOnce (c : LockRun ρ κ) : LockAction ρ κ → Prop
  | .acquire r lockType a _ _ =>
      lockType = .exclusive ∧
      (∀ q ∈ c.2.requests, ¬ (q.resourceId = r ∧ q.clientId = a)) ∧
      ∀ x ∈ c.track holdStep [], ¬ (x.resource = r ∧ x.client = a)
  | _ => True

instance (c : LockRun ρ κ) (a : LockAction ρ κ) : Decidable (AsksOnce c a) :=
  LockAction.decidable a

/-- The deadline of a request that has to wait can be computed. -/
abbrev HasDeadline (c : LockRun ρ κ) : LockAction ρ κ → Prop
  | .acquire r lockType a timeout now =>
      c.2.manager.mustWait r lockType a = true → (timeout.addTo now).isOk = true
  | _ => True

instance (c : LockRun ρ κ) (a : LockAction ρ κ) : Decidable (HasDeadline c a) :=
  LockAction.decidable a

/-- Then no call raises. -/
theorem HasDeadline.not_raised {c : LockRun ρ κ} {a : LockAction ρ κ} {s' : LockSystem ρ κ}
    {out : List (LockEvent ρ κ)} (h : HasDeadline c a)
    (heff : LockSystem.Effect c.2 a s' out) (q : Request ρ κ) (e : PyError) :
    LockEvent.raised q e ∉ out := by
  intro hraised
  cases heff with
  | raises r ty b timeout now q' lock e' hq hsome hwriter hother hadd =>
    have hok := h ((mustWait_iff hsome).mpr ⟨hwriter, hother⟩)
    simp [hadd, Except.isOk, Except.toBool] at hok
  | tookAway a s' now out _ htook _ _ _ =>
    cases LockSystem.isTaking_of_mem htook hraised
  | _ => simp at hraised

/-! ## Turns -/

/-- Locks are of calls in progress and of clients that hold the resource,
entries are of calls in progress, and whoever waits came later than the
one before it. -/
structure Turns (s : LockSystem ρ κ) (holdings : List (Holding ρ κ)) : Prop where
  sorted : ∀ r, (s.manager.waiters r).Pairwise (fun w w' => w.requestId < w'.requestId)
  behind : ∀ r lock, s.manager.locks.get? r = some lock →
    ∀ w ∈ s.manager.waiters r, lock.requestId < w.requestId
  live : ∀ r, ∀ w ∈ s.manager.waiters r, ∃ q ∈ s.requests, q.requestId = w.requestId
  owned : ∀ r lock, s.manager.locks.get? r = some lock →
    (∃ q ∈ s.requests, q.requestId = lock.requestId) ∨
      ∃ x ∈ holdings, x.resource = r ∧ x.client = lock.holderId
  single : (s.requests.map (fun q => (q.resourceId, q.clientId))).Nodup
  unheld : ∀ q ∈ s.requests, ∀ x ∈ holdings,
    ¬ (x.resource = q.resourceId ∧ x.client = q.clientId)

namespace Turns

variable {s s' : LockSystem ρ κ} {holdings : List (Holding ρ κ)} {made : List (Request ρ κ)}

theorem init : Turns (LockSystem.init : LockSystem ρ κ) [] where
  sorted := fun _ => List.Pairwise.nil
  behind := by intro r lock hl; cases hl
  live := by intro r w hw; cases hw
  owned := by intro r lock hl; cases hl
  single := by simp [LockSystem.init, LockSystem.requests]
  unheld := by simp

/-- A client has one call in progress for a resource. -/
theorem same_call (h : Turns s holdings) {q q' : Request ρ κ} (hq : q ∈ s.requests)
    (hq' : q' ∈ s.requests) (hr : q.resourceId = q'.resourceId)
    (hclient : q.clientId = q'.clientId) : q = q' :=
  List.inj_on_of_nodup_map h.single hq hq' (by rw [hr, hclient])

/-- Whose a lock is: its owner's call is in progress, or the owner holds
the resource. -/
theorem owner (h : Turns s holdings) (hattr : Attributed s made) {r : ρ} {lock : Lock ρ κ}
    (hl : s.manager.locks.get? r = some lock) :
    (∃ q ∈ s.requests, q.requestId = lock.requestId ∧ q.resourceId = r ∧
      q.clientId = lock.holderId) ∨ ∃ x ∈ holdings, x.resource = r ∧ x.client = lock.holderId := by
  rcases h.owned r lock hl with ⟨q, hq, hid⟩ | hheld
  · obtain ⟨q', hq', hr, hgranted⟩ := hattr.lock r lock hl
    obtain rfl : q = q' := hattr.unique (hattr.call q hq) hq' (hid.trans hgranted.carries.1)
    exact Or.inl ⟨q, hq, hid, hr, hgranted.carries.2.symm⟩
  · exact Or.inr hheld

end Turns

variable {c : LockRun ρ κ} {a : LockAction ρ κ} {s' : LockSystem ρ κ} {out : List (LockEvent ρ κ)}

/-- A client that asks is not the owner of the lock. -/
theorem AsksOnce.not_own {r : ρ} {ty : LockType} {b : κ} {timeout : Json} {now : Rat}
    (hok : AsksOnce c (.acquire r ty b timeout now)) (h : Turns c.2 (c.track holdStep []))
    (hattr : Attributed c.2 (requestsMade c)) {lock : Lock ρ κ}
    (hl : c.2.manager.locks.get? r = some lock) : lock.holderId ≠ b := by
  rintro rfl
  obtain ⟨_, hcalls, hholdings⟩ := hok
  rcases h.owner hattr hl with ⟨q, hq, _, hr, hclient⟩ | ⟨x, hx, hr, hclient⟩
  · exact hcalls q hq ⟨hr, hclient⟩
  · exact hholdings x hx ⟨hr, hclient⟩

/-- The call that is answered is the one whose id the lock carries. -/
theorem answered_carries (h : Turns c.2 (c.track holdStep []))
    (hattr : Attributed c.2 (requestsMade c)) (hok : AsksOnce c a)
    (heff : LockSystem.Effect c.2 a s' out) {q : Request ρ κ}
    (hq : LockEvent.answered q true ∈ out) :
    ∃ lock, s'.manager.locks.get? q.resourceId = some lock ∧ lock.requestId = q.requestId := by
  cases heff with
  | taken r ty b timeout now q' _ _ =>
    obtain rfl : q = q' := by simpa using hq
    exact ⟨q.lock now, by simp [LockManager.get?_locks_record, Request.lock], rfl⟩
  | joined => cases hok.1
  | upgraded r b timeout now q' lock _ hsome hholder =>
    exact absurd hholder (hok.not_own h hattr hsome)
  | pollTakes k now q' deadline hk _ =>
    obtain rfl : q = q' := by simpa using hq
    refine ⟨q.lock now, ?_, rfl⟩
    simp [LockSystem.after, LockManager.get?_locks_record, Request.lock]
  | pollFinds k now q' deadline lock hk hsome hholder =>
    obtain rfl : q = q' := by simpa using hq
    have hmem := List.mem_of_getElem? (LockSystem.requests_get? hk)
    refine ⟨lock, hsome, ?_⟩
    rcases h.owner hattr hsome with ⟨q', hq', hid, hr, hclient⟩ | ⟨x, hx, hr, hclient⟩
    · obtain rfl : q' = q := h.same_call hq' hmem hr (hclient.trans hholder)
      exact hid.symm
    · exact absurd ⟨hr, hclient.trans hholder⟩ (h.unheld q hmem x hx)
  | tookAway a s' now out _ htook _ _ _ => cases LockSystem.isTaking_of_mem htook hq
  | _ => simp at hq

/-! ### What a step keeps -/

theorem sorted_step (h : Turns c.2 (c.track holdStep [])) (hattr : Attributed c.2 (requestsMade c))
    (heff : LockSystem.Effect c.2 a s' out) (r : ρ) :
    (s'.manager.waiters r).Pairwise (fun w w' => w.requestId < w'.requestId) := by
  have hall : (c.2.manager.waiters r ++ (c.2.madeBy a).toList.map Request.waiter).Pairwise
      (fun w w' => w.requestId < w'.requestId) := by
    have hnew : ((c.2.madeBy a).toList.map Request.waiter).Pairwise
        (fun w w' => w.requestId < w'.requestId) := by
      cases c.2.madeBy a <;> simp
    refine List.pairwise_append.mpr ⟨h.sorted r, hnew, ?_⟩
    intro w hw w' hw'
    obtain ⟨q, hq, _, rfl⟩ := hattr.waiter r w hw
    have hlt := hattr.lt hq
    cases a <;> simp [LockSystem.madeBy] at hw'
    subst hw'
    exact hlt
  exact hall.sublist (heff.waiters r)

theorem behind_step (h : Turns c.2 (c.track holdStep [])) (hattr : Attributed c.2 (requestsMade c))
    (hover : HandedOver (fun _ => False) c.2.manager) (hok : AsksOnce c a)
    (heff : LockSystem.Effect c.2 a s' out) {r : ρ} {lock : Lock ρ κ}
    (hl : s'.manager.locks.get? r = some lock) {w : Waiter κ} (hw : w ∈ s'.manager.waiters r) :
    lock.requestId < w.requestId := by
  -- nobody waits for a resource that is free
  have hgrant : ∀ {q : Request ρ κ} {now : Rat}, c.2.manager.locks.get? q.resourceId = none →
      (c.2.manager.record (q.lock now)).locks.get? r = some lock → w ∈ c.2.manager.waiters r →
        lock.requestId < w.requestId := by
    intro q now hfree hl hw
    rcases LockManager.lock_of_record hl with hl | ⟨rfl, _⟩
    · exact h.behind r lock hl w hw
    · rw [hover.nobody_waits hfree] at hw
      cases hw
  -- a new entry comes after every lock
  have hqueue : ∀ {r' : ρ} {ty : LockType} {b : κ} {timeout : Json},
      c.2.manager.locks.get? r = some lock →
      w ∈ (c.2.manager.enqueue (c.2.request r' ty b timeout)).waiters r →
        lock.requestId < w.requestId := by
    intro r' ty b timeout hl hw
    rcases LockManager.waiter_of_enqueue hw with hw | ⟨_, rfl⟩
    · exact h.behind r lock hl w hw
    · obtain ⟨q, hq, _, hgranted⟩ := hattr.lock r lock hl
      rw [hgranted.carries.1]
      exact hattr.lt hq
  cases heff with
  | taken r' ty b timeout now q hq hfree =>
    subst hq
    exact hgrant hfree hl hw
  | upgraded r' b timeout now q existing _ hsome hholder =>
    exact absurd hholder (hok.not_own h hattr hsome)
  | waits r' ty b timeout now q existing deadline hq _ _ _ _
  | raises r' ty b timeout now q existing e hq _ _ _ _ =>
    subst hq
    exact hqueue hl hw
  | pollTakes k now q deadline hk hfree =>
    simp only [LockSystem.after, LockManager.dropWaiter_locks] at hl
    exact hgrant hfree hl ((c.2.manager.record (q.lock now)).waiters_dropWaiter_subset q r hw)
  | gaveUp k q deadline hk =>
    simp only [LockSystem.after, LockManager.dropWaiter_locks] at hl
    exact h.behind r lock hl w (c.2.manager.waiters_dropWaiter_subset q r hw)
  | tookAway a s' now out _ htook _ _ _ =>
    rw [htook.locks] at hl
    rw [htook.waiters] at hw
    split at hl
    · next hr =>
      rw [if_pos hr] at hw
      obtain ⟨first, hfirst, rfl⟩ := Option.map_eq_some_iff.mp hl
      have hsorted := h.sorted r
      cases hws : c.2.manager.waiters r with
      | nil => simp [hws] at hfirst
      | cons w' rest =>
        rw [hws] at hfirst hw hsorted
        cases hfirst
        exact List.rel_of_pairwise_cons hsorted hw
    · next hr =>
      rw [if_neg hr] at hw
      exact h.behind r lock hl w hw
  | _ => exact h.behind r lock hl w hw

theorem live_step (h : Turns c.2 (c.track holdStep [])) (hattr : Attributed c.2 (requestsMade c))
    (hawake : AwakeUngranted c.2) (hover : HandedOver (fun _ => False) c.2.manager)
    (hok : AsksOnce c a) (hdeadline : HasDeadline c a) (heff : LockSystem.Effect c.2 a s' out)
    {r : ρ} {w : Waiter κ} (hw : w ∈ s'.manager.waiters r) :
    ∃ q ∈ s'.requests, q.requestId = w.requestId := by
  rcases heff.waiter hw with hold | ⟨q, _, _, rfl, hq | ⟨e, he⟩⟩
  · obtain ⟨q, hq, hid⟩ := h.live r w hold
    rcases heff.request hq with hq' | ⟨answer, hanswered⟩
    · exact ⟨q, hq', hid⟩
    · -- its call is over, and so its entry is gone
      exfalso
      cases answer with
      | false => exact (gone_of_failed hattr hawake heff hanswered).waiter r w hw hid.symm
      | true =>
        obtain ⟨lock, hl, hcarries⟩ := answered_carries h hattr hok heff hanswered
        obtain ⟨q', hq', hr, rfl⟩ := hattr.waiter r w hold
        obtain rfl : q = q' := hattr.unique (hattr.call q hq) hq' hid
        subst hr
        have hlt := behind_step h hattr hover hok heff hl hw
        simp only [Request.waiter] at hlt
        omega
  · exact ⟨q, hq, rfl⟩
  · exact absurd he (hdeadline.not_raised heff q e)

theorem owned_step (h : Turns c.2 (c.track holdStep [])) (hattr : Attributed c.2 (requestsMade c))
    (hawake : AwakeUngranted c.2) (heff : LockSystem.Effect c.2 a s' out) {r : ρ}
    {lock : Lock ρ κ} (hl : s'.manager.locks.get? r = some lock) :
    (∃ q ∈ s'.requests, q.requestId = lock.requestId) ∨
      ∃ x ∈ out.foldl holdStep (c.track holdStep []), x.resource = r ∧ x.client = lock.holderId := by
  -- the owner's call goes on, or is answered and the owner holds the resource
  have hcall : ∀ q ∈ c.2.requests, q.requestId = lock.requestId → q.resourceId = r →
      q.clientId = lock.holderId → (∃ q ∈ s'.requests, q.requestId = lock.requestId) ∨
        ∃ x ∈ out.foldl holdStep (c.track holdStep []),
          x.resource = r ∧ x.client = lock.holderId := by
    intro q hq hid hr hclient
    rcases heff.request hq with hq | ⟨answer, hanswered⟩
    · exact Or.inl ⟨q, hq, hid⟩
    · cases answer with
      | false => exact absurd hid.symm ((gone_of_failed hattr hawake heff hanswered).lock r lock hl)
      | true =>
        exact Or.inr ⟨q.holding, (mem_holdings heff).mpr (Or.inl ⟨q, hanswered, rfl⟩), hr, hclient⟩
  rcases heff.lock hl with ⟨hr, hl⟩ | ⟨q, _, hanswered, hr, now, rfl⟩ | ⟨_, w, hw, now, rfl⟩
  · rcases h.owner hattr hl with ⟨q, hq, hid, hq', hclient⟩ | ⟨x, hx, hxr, hclient⟩
    · exact hcall q hq hid hq' hclient
    · refine Or.inr ⟨x, (mem_holdings heff).mpr (Or.inr ⟨hx, ?_⟩), hxr, hclient⟩
      rintro ⟨now, rfl⟩
      -- then the release takes the lock away
      apply hr
      have hholder := LockManager.holder_of_get? hl
      rw [← hclient, ← hxr] at hholder
      rw [← hxr]
      simp [LockSystem.takenBy, hholder]
  · exact Or.inr ⟨q.holding, (mem_holdings heff).mpr (Or.inl ⟨q, hanswered, rfl⟩), hr, rfl⟩
  · obtain ⟨q, hq, hid⟩ := h.live r w (List.mem_of_mem_head? hw)
    obtain ⟨q', hq', hr, rfl⟩ := hattr.waiter r w (List.mem_of_mem_head? hw)
    obtain rfl : q = q' := hattr.unique (hattr.call q hq) hq' hid
    exact hcall q hq rfl hr rfl

/-- The request that is made is the only one of its client for the
resource. -/
theorem single_made (h : Turns c.2 (c.track holdStep [])) (hok : AsksOnce c a) :
    ((c.2.requests ++ (c.2.madeBy a).toList).map (fun q => (q.resourceId, q.clientId))).Nodup := by
  rw [List.map_append]
  have hnew : ((c.2.madeBy a).toList.map (fun q => (q.resourceId, q.clientId))).Nodup := by
    cases c.2.madeBy a <;> simp
  refine List.nodup_append.mpr ⟨h.single, hnew, ?_⟩
  rintro pair hpair pair' hpair' rfl
  obtain ⟨q, hq, heq⟩ := List.mem_map.mp hpair
  cases a with
  | acquire r ty b timeout now =>
    simp only [LockSystem.madeBy, LockSystem.request, Option.toList_some, List.map_singleton,
      List.mem_singleton] at hpair'
    subst hpair'
    exact hok.2.1 q hq (Prod.mk.inj heq)
  | _ => simp [LockSystem.madeBy] at hpair'

theorem unheld_step (h : Turns c.2 (c.track holdStep [])) (hattr : Attributed c.2 (requestsMade c))
    (hok : AsksOnce c a) (heff : LockSystem.Effect c.2 a s' out) {q : Request ρ κ}
    (hq : q ∈ s'.requests) {x : Holding ρ κ}
    (hx : x ∈ out.foldl holdStep (c.track holdStep [])) :
    ¬ (x.resource = q.resourceId ∧ x.client = q.clientId) := by
  rintro ⟨hr, hclient⟩
  have hbefore := heff.requests.subset hq
  rcases (mem_holdings heff).mp hx with ⟨q', hq', rfl⟩ | ⟨hx, _⟩
  · -- the client that was answered has no other call for the resource
    obtain ⟨hmem, hover⟩ := hattr.answered_over heff hq'
    have hsame : q = q' :=
      List.inj_on_of_nodup_map (single_made h hok) hbefore hmem (Prod.ext hr.symm hclient.symm)
    exact hover (hsame ▸ hq)
  · rcases List.mem_append.mp hbefore with hq | hq
    · exact h.unheld q hq x hx ⟨hr, hclient⟩
    · cases a with
      | acquire r ty b timeout now =>
        obtain rfl : q = c.2.request r ty b timeout := by simpa [LockSystem.madeBy] using hq
        exact hok.2.2 x hx ⟨hr, hclient⟩
      | _ => simp [LockSystem.madeBy] at hq

theorem turns_step (h : Turns c.2 (c.track holdStep [])) (hattr : Attributed c.2 (requestsMade c))
    (hawake : AwakeUngranted c.2) (hover : HandedOver (fun _ => False) c.2.manager)
    (hok : AsksOnce c a) (hdeadline : HasDeadline c a) (heff : LockSystem.Effect c.2 a s' out) :
    Turns s' (out.foldl holdStep (c.track holdStep [])) where
  sorted := sorted_step h hattr heff
  behind := fun _ _ hl _ hw => behind_step h hattr hover hok heff hl hw
  live := fun _ _ hw => live_step h hattr hawake hover hok hdeadline heff hw
  owned := fun _ _ hl => owned_step h hattr hawake heff hl
  single := (single_made h hok).sublist (heff.requests.map _)
  unheld := fun _ hq _ hx => unheld_step h hattr hok heff hq hx

/-- Whoever is granted a resource came before those that wait for it. -/
theorem granted_first (h : Turns c.2 (c.track holdStep []))
    (hattr : Attributed c.2 (requestsMade c)) (hover : HandedOver (fun _ => False) c.2.manager)
    (hok : AsksOnce c a) (heff : LockSystem.Effect c.2 a s' out) {r : ρ} {id : Nat}
    (hgrant : Grants out r id) {w : Waiter κ} (hw : w ∈ s'.manager.waiters r) :
    id < w.requestId := by
  rcases hgrant with ⟨lock, hlock, rfl, rfl⟩ | ⟨q, hq, rfl, rfl⟩
  · exact behind_step h hattr hover hok heff (heff.recorded hlock) hw
  · obtain ⟨lock, hl, hid⟩ := answered_carries h hattr hok heff hq
    rw [← hid]
    exact behind_step h hattr hover hok heff hl hw

/-! ## Runs -/

/-- The requests are numbered in the order in which they arrive. -/
theorem lt_of_queuedBefore
    (h : LockSystem.machine.Leads Machine.always ([], LockSystem.init) c) {id id' : Nat}
    (hbefore : QueuedBefore c id id') : id < id' := by
  obtain ⟨h₁, e, h₂, heq, ⟨q, hq, rfl⟩, e', he', q', hmade', rfl⟩ := hbefore
  have hsteps := h.everyStep (P := fun d a out => ∃ s', d.2.step a = some (s', out))
    (fun _ _ s' _ _ _ hs => ⟨s', hs⟩)
  obtain ⟨s', hs⟩ := hsteps h₁ e h₂ heq
  have hmade : e.before.madeBy e.action = some q := (LockSystem.step_effect hs).queued hq
  have hlist : requestsMade c = h₁.filterMap (fun e => e.before.madeBy e.action) ++
      q :: h₂.filterMap (fun e => e.before.madeBy e.action) := by
    rw [requestsMade, heq, List.filterMap_append, List.filterMap_cons, hmade]
  have hsorted : ((requestsMade c).map Request.requestId).Pairwise (· < ·) := by
    rw [(attributed_of_leads h).ids]
    exact List.pairwise_lt_range
  rw [hlist, List.map_append, List.map_cons] at hsorted
  have hlater := (List.pairwise_append.mp hsorted).2.1
  refine List.rel_of_pairwise_cons hlater (List.mem_map_of_mem ?_)
  exact List.mem_filterMap.mpr ⟨e', he', hmade'⟩

/-- A run of such clients under asyncio in which every call that has to
wait has a deadline. -/
abbrev Orderly (c : LockRun ρ κ) (a : LockAction ρ κ) : Prop :=
  RunsOn c a ∧ AsksOnce c a ∧ HasDeadline c a

theorem turns_of_leads (h : LockSystem.machine.Leads Orderly ([], LockSystem.init) c) :
    Turns c.2 (c.track holdStep []) := by
  refine h.track_invariant (I := fun s holdings => Turns s holdings) Turns.init ?_
  intro c a s' out hreach ih hok hs
  exact turns_step ih (attributed_of_leads hreach.always)
    (awakeUngranted_of_leads (hreach.mono (fun _ _ hok => hok.1)))
    (handedOver_of_leads hreach.always) hok.2.1 hok.2.2 (LockSystem.step_effect hs)

/-- **First come, first served.** Whenever a request is granted a
resource, nobody who still waits for it was queued before that request
arrived. -/
theorem first_come_first_served
    (h : LockSystem.machine.Leads Orderly ([], LockSystem.init) c) : InTurn c := by
  intro e he r id hgrant w hw hbefore
  have hlt := lt_of_queuedBefore h.always hbefore
  rcases Relation.ReflTransGen.cases_tail h with rfl | ⟨d, hreach, a, s', out, hok, hs, rfl⟩
  · simp at he
  · obtain rfl : (⟨d.2, a, out⟩ : Event _ _ _) = e := by simpa using he
    have hreach : LockSystem.machine.Leads Orderly ([], LockSystem.init) d := hreach
    have hfirst := granted_first (turns_of_leads hreach) (attributed_of_leads hreach.always)
      (handedOver_of_leads hreach.always) hok.2.1 (LockSystem.step_effect hs) hgrant hw
    omega

/-- Two clients wait, and the one that was first is handed the lock. -/
def twoWaitRun : List (LockAction String String) :=
  [.acquire "r" .exclusive "c1" (.int 30) 0, .acquire "r" .exclusive "c2" (.int 30) 1, .test 0 1,
   .acquire "r" .exclusive "c3" (.int 30) 1, .test 1 1, .release "r" "c1" 2]

theorem first_come_first_served_twoWaitRun :
    ∃ c : LockRun String String, LockSystem.machine.Leads Orderly ([], LockSystem.init) c ∧
      c.2.manager.holder "r" = some "c2" ∧ c.2.manager.waiters "r" ≠ [] ∧ InTurn c := by
  obtain ⟨c, hc, hp⟩ := Machine.exists_leads_of_exec LockSystem.machine Orderly
    ([], LockSystem.init) twoWaitRun
    (fun c => decide (c.2.manager.holder "r" = some "c2") &&
      !(c.2.manager.waiters "r").isEmpty) (by decide +kernel)
  simp only [Bool.and_eq_true, decide_eq_true_eq, Bool.not_eq_true', List.isEmpty_eq_false_iff] at hp
  exact ⟨c, hc, hp.1, hp.2, first_come_first_served hc⟩

/-- A client releases what it holds. -/
abbrev ReleasesHeld (c : LockRun ρ κ) : LockAction ρ κ → Prop
  | .release r a _ => ∃ x ∈ c.track holdStep [], x.resource = r ∧ x.client = a
  | _ => True

instance (c : LockRun ρ κ) (a : LockAction ρ κ) : Decidable (ReleasesHeld c a) :=
  LockAction.decidable a

/-- The event tells the request that it has the resource. -/
def LockEvent.tells (r : ρ) (id : Nat) : LockEvent ρ κ → Bool
  | .answered q true => q.resourceId = r ∧ q.requestId = id
  | _ => false

omit [DecidableEq κ] in
theorem grants_of_tells {out : List (LockEvent ρ κ)} {r : ρ} {id : Nat}
    (h : out.any (LockEvent.tells r id) = true) : Grants out r id := by
  obtain ⟨e, he, htells⟩ := List.any_eq_true.mp h
  cases e with
  | answered q success =>
    cases success with
    | true =>
      obtain ⟨hr, hid⟩ := of_decide_eq_true htells
      exact Or.inr ⟨q, he, hr, hid⟩
    | false => cases htells
  | _ => cases htells

/-- The event puts the request into a queue. -/
def LockEvent.queues (id : Nat) : LockEvent ρ κ → Bool
  | .queued q => q.requestId = id
  | _ => false

omit [DecidableEq ρ] [DecidableEq κ] in
theorem queued_of_queues {out : List (LockEvent ρ κ)} {id : Nat}
    (h : out.any (LockEvent.queues id) = true) :
    ∃ q, LockEvent.queued q ∈ out ∧ q.requestId = id := by
  obtain ⟨e, he, hqueues⟩ := List.any_eq_true.mp h
  cases e with
  | queued q => exact ⟨q, he, of_decide_eq_true hqueues⟩
  | _ => cases hqueues

/-- `c2` asks with a timeout that is no float, and its call raises with
the entry in the queue. `c3` waits. The lock is handed to that entry, so
when `c2` asks again it has the lock at once. -/
def overflowRun : List (LockAction String String) :=
  [.acquire "r" .exclusive "c1" (.int 30) 0, .acquire "r" .exclusive "c2" (.int (10 ^ 400)) 1,
   .acquire "r" .exclusive "c3" (.int 30) 1, .test 0 1, .release "r" "c1" 2,
   .acquire "r" .exclusive "c2" (.int 30) 3]

theorem newcomer_first :
    ∃ c : LockRun String String,
      LockSystem.machine.Leads (fun c a => RunsOn c a ∧ AsksOnce c a ∧ ReleasesHeld c a)
        ([], LockSystem.init) c ∧ ¬ InTurn c := by
  obtain ⟨c, hc, hp⟩ := Machine.exists_leads_of_exec LockSystem.machine
    (fun c a => RunsOn c a ∧ AsksOnce c a ∧ ReleasesHeld c a) ([], LockSystem.init) overflowRun
    (fun c => c.1.getLast?.any (fun e : Event _ _ _ => e.output.any (LockEvent.tells "r" 3)) &&
      (c.2.manager.waiters "r").any (fun w => w.requestId == 2) &&
      c.1[2]?.any (fun e : Event _ _ _ => e.output.any (LockEvent.queues 2)) &&
      (c.1.drop 3).any (fun e => (e.before.madeBy e.action).any (fun q : Request _ _ =>
        q.requestId == 3))) (by decide +kernel)
  simp only [Bool.and_eq_true, Option.any_eq_true, List.any_eq_true, beq_iff_eq] at hp
  obtain ⟨⟨⟨⟨last, hlast, htold⟩, w, hw, hid⟩, e, he, hqueued⟩, e', he', q', hmade, hid'⟩ := hp
  refine ⟨c, hc, ?_⟩
  intro hturn
  have hsplit : c.1 = c.1.take 2 ++ e :: c.1.drop 3 := by
    obtain ⟨hlt, rfl⟩ := List.getElem?_eq_some_iff.mp he
    rw [← List.drop_eq_getElem_cons hlt, List.take_append_drop]
  refine hturn last hlast "r" 3 (grants_of_tells (List.any_eq_true.mpr htold)) w hw ?_
  rw [hid]
  exact ⟨_, e, _, hsplit, queued_of_queues (List.any_eq_true.mpr hqueued), e', he', q', hmade, hid'⟩

end SyncSystem.Locks
