/-
SyncSystem.Locks.Requests — which call a lock or a queue entry belongs to.

`requestsMade` is every call of `acquire_lock` in a run, with its
arguments; the ids are the places in that list. In every run the locks,
the entries of the waiting queues and the calls in progress are each
those of one of these requests (`attributed_of_leads`), so a request id
says whose they are.
-/
import SyncSystem.Locks.Effects
import Mathlib.Data.List.Nodup

namespace SyncSystem.Locks

open SyncSystem.Python

variable {ρ κ : Type} [DecidableEq ρ] [DecidableEq κ]

/-- The lock is one that the request was granted, or handed. -/
def GrantedTo (q : Request ρ κ) (lock : Lock ρ κ) : Prop :=
  ∃ now, lock = q.lock now ∨ lock = q.waiter.lock q.resourceId now

omit [DecidableEq ρ] [DecidableEq κ] in
theorem GrantedTo.carries {q : Request ρ κ} {lock : Lock ρ κ} (h : GrantedTo q lock) :
    lock.requestId = q.requestId ∧ lock.holderId = q.clientId := by
  obtain ⟨now, rfl | rfl⟩ := h <;> exact ⟨rfl, rfl⟩

/-- Locks, entries and calls in progress belong to requests that were made. -/
structure Attributed (s : LockSystem ρ κ) (made : List (Request ρ κ)) : Prop where
  ids : made.map Request.requestId = List.range s.nextRequest
  waiter : ∀ r, ∀ w ∈ s.manager.waiters r, ∃ q ∈ made, q.resourceId = r ∧ w = q.waiter
  lock : ∀ r lock, s.manager.locks.get? r = some lock →
    ∃ q ∈ made, q.resourceId = r ∧ GrantedTo q lock
  call : ∀ q ∈ s.requests, q ∈ made
  distinct : (s.requests.map Request.requestId).Nodup

namespace Attributed

variable {s s' : LockSystem ρ κ} {made : List (Request ρ κ)}

theorem init : Attributed (LockSystem.init : LockSystem ρ κ) [] where
  ids := rfl
  waiter := by intro r w hw; cases hw
  lock := by intro r lock h; cases h
  call := by simp [LockSystem.init, LockSystem.requests]
  distinct := by simp [LockSystem.init, LockSystem.requests]

theorem lt (h : Attributed s made) {q : Request ρ κ} (hq : q ∈ made) :
    q.requestId < s.nextRequest := by
  rw [← List.mem_range, ← h.ids]
  exact List.mem_map_of_mem hq

/-- An id names one request. -/
theorem unique (h : Attributed s made) {q q' : Request ρ κ} (hq : q ∈ made) (hq' : q' ∈ made)
    (hid : q.requestId = q'.requestId) : q = q' := by
  have hnodup : (made.map Request.requestId).Nodup := by
    rw [h.ids]
    exact List.nodup_range
  exact List.inj_on_of_nodup_map hnodup hq hq' hid


/-- A request is made in every step that makes one, and no other way. -/
theorem ids_step (h : Attributed s made) {a : LockAction ρ κ} {out : List (LockEvent ρ κ)}
    (heff : LockSystem.Effect s a s' out) :
    (made ++ (s.madeBy a).toList).map Request.requestId = List.range s'.nextRequest := by
  rw [heff.nextRequest, List.map_append, h.ids]
  cases a <;> simp [LockSystem.madeBy, LockSystem.request, List.range_succ]

theorem step (h : Attributed s made) {a : LockAction ρ κ} {out : List (LockEvent ρ κ)}
    (hs : s.step a = some (s', out)) : Attributed s' (made ++ (s.madeBy a).toList) := by
  have heff := LockSystem.step_effect hs
  have hids := h.ids_step heff
  have hcall : ∀ q ∈ s.requests ++ (s.madeBy a).toList, q ∈ made ++ (s.madeBy a).toList := by
    intro q hq
    rcases List.mem_append.mp hq with hq | hq
    · exact List.mem_append_left _ (h.call q hq)
    · exact List.mem_append_right _ hq
  constructor
  case ids => exact hids
  case waiter =>
    intro r w hw
    rcases heff.waiter hw with hw | ⟨q, hq, hr, heq, _⟩
    · obtain ⟨q, hq, hr, heq⟩ := h.waiter r w hw
      exact ⟨q, List.mem_append_left _ hq, hr, heq⟩
    · exact ⟨q, List.mem_append_right _ (Option.mem_toList.mpr hq), hr, heq⟩
  case lock =>
    intro r lock hl
    rcases heff.lock hl with ⟨_, hl⟩ | ⟨q, hq, _, hr, now, heq⟩ | ⟨_, w, hw, now, heq⟩
    · obtain ⟨q, hq, hr, hgranted⟩ := h.lock r lock hl
      exact ⟨q, List.mem_append_left _ hq, hr, hgranted⟩
    · refine ⟨q, hcall q ?_, hr, now, Or.inl heq⟩
      simpa using hq
    · obtain ⟨q, hq, rfl, rfl⟩ := h.waiter r w (List.mem_of_mem_head? hw)
      exact ⟨q, List.mem_append_left _ hq, rfl, now, Or.inr heq⟩
  case call =>
    intro q hq
    exact hcall q (heff.requests.subset hq)
  case distinct =>
    -- the calls are among the requests made, whose ids are different
    have hnodup : ((s.requests ++ (s.madeBy a).toList).map Request.requestId).Nodup := by
      rw [List.map_append]
      have hnew : ((s.madeBy a).toList.map Request.requestId).Nodup := by
        cases s.madeBy a <;> simp
      refine List.nodup_append.mpr ⟨h.distinct, hnew, ?_⟩
      intro id hid id' hid' heq
      obtain ⟨q, hq, rfl⟩ := List.mem_map.mp hid
      have hmem := List.mem_map_of_mem (f := Request.requestId) (h.call q hq)
      have hall : (made.map Request.requestId ++
          (s.madeBy a).toList.map Request.requestId).Nodup := by
        rw [← List.map_append, hids]
        exact List.nodup_range
      exact (List.nodup_append.mp hall).2.2 _ hmem _ hid' heq
    exact hnodup.sublist (heff.requests.map _)

/-- A call that is answered is over. -/
theorem answered_over (h : Attributed s made) {a : LockAction ρ κ} {out : List (LockEvent ρ κ)}
    (heff : LockSystem.Effect s a s' out) {q : Request ρ κ} {b : Bool}
    (hq : LockEvent.answered q b ∈ out) :
    q ∈ s.requests ++ (s.madeBy a).toList ∧ q ∉ s'.requests := by
  have hnew : ∀ (r : ρ) (ty : LockType) (c : κ) (timeout : Json),
      s.request r ty c timeout ∉ s.requests := by
    intro r ty c timeout hmem
    have hlt := h.lt (h.call _ hmem)
    simp [LockSystem.request] at hlt
  have hgone : ∀ {k : Nat} {deadline : Rat} {phase : Phase},
      s.calls[k]? = some ⟨q, deadline, phase⟩ →
        q ∈ s.requests ++ (s.madeBy a).toList ∧ q ∉ s.requests.eraseIdx k := by
    intro k deadline phase hk
    have hget := LockSystem.requests_get? hk
    refine ⟨List.mem_append_left _ (List.mem_of_getElem? hget), ?_⟩
    intro hmem
    exact LockSystem.key_ne_of_mem_eraseIdx h.distinct hget hmem rfl
  cases heff with
  | taken r ty c timeout now q' hq' _ | joined r c timeout now q' lock hq' _ _
  | upgraded r c timeout now q' lock hq' _ _ =>
    obtain ⟨rfl, rfl⟩ : q = q' ∧ b = true := by simpa using hq
    subst hq'
    exact ⟨by simp [LockSystem.madeBy], hnew _ _ _ _⟩
  | pollTakes k now q' deadline hk _ | pollFinds k now q' deadline lock hk _ _ =>
    obtain ⟨rfl, rfl⟩ : q = q' ∧ b = true := by simpa using hq
    rw [LockSystem.requests_eraseIdx]
    exact hgone hk
  | gaveUp k q' deadline hk =>
    obtain ⟨rfl, rfl⟩ : q = q' ∧ b = false := by simpa using hq
    rw [LockSystem.requests_eraseIdx]
    exact hgone hk
  | tookAway a s' now out _ htook _ _ _ => cases LockSystem.isTaking_of_mem htook hq
  | _ => simp at hq

end Attributed

/-- The requests of a run, in the order of the calls. -/
def requestsMade (c : LockRun ρ κ) : List (Request ρ κ) :=
  c.1.filterMap (fun e => e.before.madeBy e.action)

@[simp] theorem requestsMade_push (c : LockRun ρ κ) (a : LockAction ρ κ) (s' : LockSystem ρ κ)
    (out : List (LockEvent ρ κ)) :
    requestsMade (c.push a s' out) = requestsMade c ++ (c.2.madeBy a).toList := by
  cases h : c.2.madeBy a <;> simp [requestsMade, h]

theorem attributed_of_leads {c : LockRun ρ κ}
    (h : LockSystem.machine.Leads Machine.always ([], LockSystem.init) c) :
    Attributed c.2 (requestsMade c) := by
  refine h.invariant (I := fun c => Attributed c.2 (requestsMade c)) Attributed.init ?_
  intro c a s' out _ ih _ hs
  rw [requestsMade_push]
  exact ih.step hs

end SyncSystem.Locks
