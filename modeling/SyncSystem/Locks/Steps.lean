/-
SyncSystem.Locks.Steps — what a step of the lock manager can do, said
once.

Three sections take locks away (a release, an expiry sweep, a deadlock
resolution) and hand each resource to its first waiter. `takenBy` is the
resources a step takes away, read off the state before it, and
`TakenAway` is what the tables are afterwards; `Effect` has these and
every way a call of `acquire_lock` can move.
-/
import SyncSystem.Locks.Waiting

namespace SyncSystem.Locks

open SyncSystem.Python

variable {ρ κ : Type} [DecidableEq ρ] [DecidableEq κ]

/-! ## Resources taken away -/

/-- `m'` is `m` after the resources `rids` have been taken from their
holders and handed to their first waiters, who are the only ones to get
a lock in it; `report` says what else the step puts out. -/
structure TakenAway (m m' : LockManager ρ κ) (rids : List ρ) (now : Rat)
    (report : LockEvent ρ κ → Prop) (events : List (LockEvent ρ κ)) : Prop where
  locks : ∀ r, m'.locks.get? r =
    if r ∈ rids then (m.waiters r).head?.map (fun w => w.lock r now) else m.locks.get? r
  waiters : ∀ r, m'.waiters r = if r ∈ rids then (m.waiters r).tail else m.waiters r
  events : ∀ e ∈ events,
    (∃ r ∈ rids, ∃ w ∈ (m.waiters r).head?, e = .recorded (w.lock r now)) ∨ report e

namespace LockManager

theorem get?_locks_processWaiting {m : LockManager ρ κ} {r : ρ} (hfree : m.locks.get? r = none)
    (now : Rat) (r' : ρ) : (m.processWaiting r now).1.locks.get? r' =
      if r = r' then (m.waiters r').head?.map (fun w => w.lock r' now) else m.locks.get? r' := by
  cases hw : m.waiters r with
  | nil =>
    rw [processWaiting_nil hw]
    split
    · next h => rw [← h, hw, hfree]; rfl
    · rfl
  | cons w ws =>
    rw [processWaiting_cons hw]
    by_cases h : r = r'
    · subst h
      simp [Dict.get?_set, hw]
    · simp [Dict.get?_set, h]

theorem mem_processWaiting {m : LockManager ρ κ} {r : ρ} {now : Rat} {e : LockEvent ρ κ}
    (h : e ∈ (m.processWaiting r now).2) :
    ∃ w ∈ (m.waiters r).head?, e = .recorded (w.lock r now) := by
  cases hw : m.waiters r with
  | nil =>
    rw [processWaiting_nil hw] at h
    cases h
  | cons w ws =>
    rw [processWaiting_cons hw, List.mem_singleton] at h
    exact ⟨w, rfl, h⟩

theorem waiters_free (m : LockManager ρ κ) (r r' : ρ) : (m.free r).waiters r' = m.waiters r' := rfl

theorem get?_locks_free (m : LockManager ρ κ) (r r' : ρ) :
    (m.free r).locks.get? r' = if r = r' then none else m.locks.get? r' := by
  simp [free, Dict.get?_del]

/-- Resources taken away one after the other. -/
theorem takenAway_takeAway (m : LockManager ρ κ) (event : Lock ρ κ → LockEvent ρ κ)
    (now : Rat) {rids : List ρ} (hnodup : rids.Nodup) :
    TakenAway m (m.takeAway event now rids).1 rids now
      (fun e => ∃ r ∈ rids, ∃ lock, m.locks.get? r = some lock ∧ e = event lock)
      (m.takeAway event now rids).2 := by
  induction rids generalizing m with
  | nil => constructor <;> simp [takeAway]
  | cons rid rest ih =>
    obtain ⟨hnot, hrest⟩ := List.nodup_cons.mp hnodup
    have hnext := ih ((m.free rid).processWaiting rid now).1 hrest
    have hwaiters : ∀ r, ((m.free rid).processWaiting rid now).1.waiters r =
        if rid = r then (m.waiters r).tail else m.waiters r := by
      intro r
      rw [waiters_processWaiting, waiters_free]
    have hgone : (m.free rid).locks.get? rid = none := by simp [get?_locks_free]
    have hlocks := get?_locks_processWaiting hgone now
    simp only [get?_locks_free, waiters_free] at hlocks
    -- the other resources are as they were
    have hother : ∀ r ∈ rest, ((m.free rid).processWaiting rid now).1.waiters r = m.waiters r ∧
        ((m.free rid).processWaiting rid now).1.locks.get? r = m.locks.get? r := by
      intro r hr
      have hne : rid ≠ r := by
        rintro rfl
        exact hnot hr
      simp [hwaiters, hlocks, hne]
    constructor
    · intro r
      show (((m.free rid).processWaiting rid now).1.takeAway event now rest).1.locks.get? r = _
      rw [hnext.locks, hlocks]
      by_cases hr : r ∈ rest
      · simp [hr, (hother r hr).1]
      · by_cases heq : rid = r
        · simp [hr, heq]
        · simp [hr, heq, Ne.symm heq]
    · intro r
      show (((m.free rid).processWaiting rid now).1.takeAway event now rest).1.waiters r = _
      rw [hnext.waiters, hwaiters]
      by_cases hr : r ∈ rest
      · have hne : rid ≠ r := fun heq => hnot (heq ▸ hr)
        simp [hr, hne]
      · by_cases heq : rid = r
        · simp [hr, heq]
        · simp [hr, heq, Ne.symm heq]
    · intro e he
      simp only [takeAway, List.mem_append, Option.mem_toList, Option.map_eq_some_iff] at he
      rcases he with (⟨lock, hl, heq⟩ | he) | he
      · exact Or.inr ⟨rid, List.mem_cons_self, lock, hl, heq.symm⟩
      · obtain ⟨w, hw, heq⟩ := mem_processWaiting he
        exact Or.inl ⟨rid, List.mem_cons_self, w, hw, heq⟩
      · rcases hnext.events e he with ⟨r, hr, w, hw, heq⟩ | ⟨r, hr, lock, hl, heq⟩
        · rw [(hother r hr).1] at hw
          exact Or.inl ⟨r, List.mem_cons_of_mem _ hr, w, hw, heq⟩
        · rw [(hother r hr).2] at hl
          exact Or.inr ⟨r, List.mem_cons_of_mem _ hr, lock, hl, heq⟩

omit [DecidableEq ρ] [DecidableEq κ] in
/-- A lock that a sweep finds expired is older than its ttl. -/
theorem mem_expiredIn {now : Rat} {entries : List (ρ × Lock ρ κ)} {rids : List ρ}
    (h : expiredIn now entries = .ok rids) : ∀ r ∈ rids, ∃ lock, (r, lock) ∈ entries ∧
      ∃ ttl, lock.ttl.num? = some ttl ∧ ttl < now - lock.createdAt := by
  induction entries generalizing rids with
  | nil => cases h; simp
  | cons e rest ih =>
    obtain ⟨rid, lock⟩ := e
    simp only [expiredIn, bind, Except.bind, pure, Except.pure] at h
    cases httl : lock.ttl.num with
    | error err => simp [httl] at h
    | ok ttl =>
      cases hrest : expiredIn now rest with
      | error err => simp [httl, hrest] at h
      | ok others =>
        simp only [httl, hrest, Except.ok.injEq] at h
        subst h
        have hothers : ∀ r ∈ others, ∃ lock', (r, lock') ∈ (rid, lock) :: rest ∧
            ∃ ttl, lock'.ttl.num? = some ttl ∧ ttl < now - lock'.createdAt := by
          intro r hr
          obtain ⟨lock', hmem, hold⟩ := ih hrest r hr
          exact ⟨lock', List.mem_cons_of_mem _ hmem, hold⟩
        intro r hr
        split at hr
        · next hold =>
          rcases List.mem_cons.mp hr with rfl | hr
          · exact ⟨lock, List.mem_cons_self, ttl, num_eq_ok httl, hold⟩
          · exact hothers r hr
        · exact hothers r hr

omit [DecidableEq ρ] [DecidableEq κ] in
/-- The resources that a sweep finds expired. -/
theorem expiredIn_sublist {now : Rat} {entries : List (ρ × Lock ρ κ)} {rids : List ρ}
    (h : expiredIn now entries = .ok rids) : rids.Sublist (entries.map (·.1)) := by
  induction entries generalizing rids with
  | nil => cases h; exact .slnil
  | cons e rest ih =>
    obtain ⟨rid, lock⟩ := e
    simp only [expiredIn, bind, Except.bind, pure, Except.pure] at h
    cases httl : lock.ttl.num with
    | error err => simp [httl] at h
    | ok ttl =>
      cases hrest : expiredIn now rest with
      | error err => simp [httl, hrest] at h
      | ok others =>
        simp only [httl, hrest, Except.ok.injEq] at h
        subst h
        split
        · exact (ih hrest).cons_cons rid
        · exact (ih hrest).cons rid

theorem holder_grant (m : LockManager ρ κ) (q : Request ρ κ) (now : Rat) (r : ρ) :
    (m.record (q.lock now)).holder r = if q.resourceId = r then some q.clientId else m.holder r :=
  m.holder_record (q.lock now) r

@[simp] theorem holder_dropWaiter (m : LockManager ρ κ) (q : Request ρ κ) (r : ρ) :
    (m.dropWaiter q).holder r = m.holder r := by
  simp [holder]

theorem nodup_keys (m : LockManager ρ κ) : (m.locks.entries.map (·.1)).Nodup := by
  have hdistinct := m.locks.distinct_keys
  rw [Dict.keys] at hdistinct
  exact hdistinct.imp (fun h => by simpa using h)

end LockManager

theorem TakenAway.waiters_subset {m m' : LockManager ρ κ} {rids : List ρ} {now : Rat}
    {report : LockEvent ρ κ → Prop} {events : List (LockEvent ρ κ)}
    (h : TakenAway m m' rids now report events) (r : ρ) : m'.waiters r ⊆ m.waiters r := by
  rw [h.waiters]
  split
  · exact (List.tail_sublist _).subset
  · exact List.Subset.refl _


/-- The events of the sections that take locks away. -/
def LockEvent.isTaking : LockEvent ρ κ → Bool
  | .recorded _ | .releaseCalled .. | .expired _ | .resolved _ => true
  | _ => false

/-- The sections that take locks away. -/
def LockAction.takes : LockAction ρ κ → Bool
  | .release .. | .sweep _ | .resolveDeadlock .. => true
  | _ => false

/-- The resources that a step takes from their holders. -/
def LockSystem.takenBy (s : LockSystem ρ κ) : LockAction ρ κ → List ρ
  | .release r c _ => if s.manager.holder r = some c then [r] else []
  | .sweep now =>
      if s.expiryRunning then
        (LockManager.expiredIn now s.manager.locks.entries).toOption.getD []
      else []
  | .resolveDeadlock victim _ =>
      (s.manager.locks.entries.filter (fun e => e.2.holderId == victim)).map (·.1)
  | _ => []

theorem LockManager.takenAway_releaseLock (m : LockManager ρ κ) (r : ρ) (c : κ) (now : Rat) :
    TakenAway m (m.releaseLock r c now).1 (if m.holder r = some c then [r] else []) now
      (fun e => ∃ result, e = .releaseCalled r c result) (m.releaseLock r c now).2 := by
  have hkept : ∀ result, TakenAway m m [] now (fun e => ∃ result, e = .releaseCalled r c result)
      [LockEvent.releaseCalled r c result] := by
    intro result
    constructor <;> simp
  unfold releaseLock
  split
  · next hnone => simpa [holder, hnone] using hkept .lockNotFound
  · next lock hsome =>
    have hholder := holder_of_get? hsome
    split
    · next hne =>
      have hother : lock.holderId ≠ c := by simpa using hne
      simpa [hholder, hother] using hkept .notHolder
    · next heq =>
      have hsame : lock.holderId = c := by simpa using heq
      rw [if_pos (by rw [hholder, hsame])]
      have hgone : ({ m with locks := m.locks.del r, sharedLocks := m.sharedLocks.del r } :
          LockManager ρ κ).locks.get? r = none := by simp [Dict.get?_del]
      constructor
      · intro r'
        refine (get?_locks_processWaiting hgone now r').trans ?_
        by_cases h : r = r'
        · subst h
          simp [waiters]
        · simp [h, Ne.symm h, Dict.get?_del]
      · intro r'
        refine (waiters_processWaiting _ r r' now).trans ?_
        by_cases h : r = r'
        · subst h
          simp [waiters]
        · simp [h, Ne.symm h, waiters]
      · intro e he
        rcases List.mem_cons.mp he with he | he
        · exact Or.inr ⟨_, he⟩
        · obtain ⟨w, hw, heq⟩ := mem_processWaiting he
          exact Or.inl ⟨r, by simp, w, hw, heq⟩

theorem LockManager.reports_releaseLock (m : LockManager ρ κ) (r : ρ) (c : κ) (now : Rat) :
    ∃ result, LockEvent.releaseCalled r c result ∈ (m.releaseLock r c now).2 := by
  unfold releaseLock
  split
  · exact ⟨_, List.mem_singleton_self _⟩
  · split
    · exact ⟨_, List.mem_singleton_self _⟩
    · exact ⟨_, List.mem_cons_self⟩

namespace LockSystem

/-! ## The calls in progress -/

/-- The requests of the calls in progress. -/
def requests (s : LockSystem ρ κ) : List (Request ρ κ) := s.calls.map Call.request

theorem requests_get? {s : LockSystem ρ κ} {k : Nat} {call : Call ρ κ}
    (h : s.calls[k]? = some call) : s.requests[k]? = some call.request := by
  simp [requests, h]

omit [DecidableEq ρ] [DecidableEq κ] in
theorem map_request_set {calls : List (Call ρ κ)} {k : Nat} {call : Call ρ κ}
    (h : calls[k]? = some call) (d : Rat) (p : Phase) :
    (calls.set k ⟨call.request, d, p⟩).map Call.request = calls.map Call.request := by
  have hk : (calls.map Call.request)[k]? = some call.request := by simp [h]
  obtain ⟨hlt, heq⟩ := List.getElem?_eq_some_iff.mp hk
  rw [List.map_set, ← heq, List.set_getElem_self]

/-- A call that moves on is the same call. -/
theorem requests_set {s : LockSystem ρ κ} {k : Nat} {call : Call ρ κ}
    (h : s.calls[k]? = some call) (m : LockManager ρ κ) (d : Rat) (p : Phase) :
    (s.after m (s.calls.set k ⟨call.request, d, p⟩)).requests = s.requests :=
  map_request_set h d p

/-- A call that is over. -/
theorem requests_eraseIdx (s : LockSystem ρ κ) (m : LockManager ρ κ) (k : Nat) :
    (s.after m (s.calls.eraseIdx k)).requests = s.requests.eraseIdx k :=
  (List.eraseIdx_map ..).symm

omit [DecidableEq ρ] [DecidableEq κ] in
theorem mem_eraseIdx_or_eq {α : Type} {xs : List α} {k : Nat} {x y : α} (hk : xs[k]? = some x)
    (hy : y ∈ xs) : y ∈ xs.eraseIdx k ∨ y = x := by
  obtain ⟨hlt, heq⟩ := List.getElem?_eq_some_iff.mp hk
  rcases List.mem_cons.mp ((List.getElem_cons_eraseIdx_perm hlt).mem_iff.mpr hy) with h | h
  · exact Or.inr (h.trans heq)
  · exact Or.inl h

omit [DecidableEq ρ] [DecidableEq κ] in
/-- A key that is never repeated tells the call that is over from those
that are left. -/
theorem key_ne_of_mem_eraseIdx {α β : Type} {key : α → β} {xs : List α} (h : (xs.map key).Nodup)
    {k : Nat} {x y : α} (hk : xs[k]? = some x) (hy : y ∈ xs.eraseIdx k) : key y ≠ key x := by
  obtain ⟨hlt, heq⟩ := List.getElem?_eq_some_iff.mp hk
  have hperm := (List.getElem_cons_eraseIdx_perm hlt).map key
  have hnodup := hperm.nodup_iff.mpr h
  rw [heq, List.map_cons, List.nodup_cons] at hnodup
  intro hsame
  exact hnodup.1 (hsame ▸ List.mem_map_of_mem hy)

/-! ## The effects of a step -/

/-- The request that an `acquire` makes. -/
def request (s : LockSystem ρ κ) (r : ρ) (lockType : LockType) (c : κ) (timeout : Json) :
    Request ρ κ :=
  ⟨r, lockType, c, timeout, s.nextRequest⟩

/-- The request that a step makes, if it is a call of `acquire_lock`. -/
def madeBy (s : LockSystem ρ κ) : LockAction ρ κ → Option (Request ρ κ)
  | .acquire r ty c timeout _ => some (s.request r ty c timeout)
  | _ => none

theorem madeBy_of_takes (s : LockSystem ρ κ) {a : LockAction ρ κ} (h : a.takes = true) :
    s.madeBy a = none := by
  cases a <;> first | rfl | cases h

/-- What a step that takes locks away outputs besides the hand-overs. -/
def Reports (s : LockSystem ρ κ) : LockAction ρ κ → LockEvent ρ κ → Prop
  | .release r c _, e => ∃ result, e = .releaseCalled r c result
  | .sweep now, e => ∃ r ∈ s.takenBy (.sweep now), ∃ lock, s.manager.locks.get? r = some lock ∧
      e = .expired lock
  | .resolveDeadlock victim now, e => ∃ r ∈ s.takenBy (.resolveDeadlock victim now),
      ∃ lock, s.manager.locks.get? r = some lock ∧ e = .resolved lock
  | _, _ => False

/-- No call of `acquire_lock` is answered where locks are taken away. -/
theorem isTaking_of_mem {s : LockSystem ρ κ} {a : LockAction ρ κ} {m' : LockManager ρ κ}
    {rids : List ρ} {now : Rat} {out : List (LockEvent ρ κ)}
    (h : TakenAway s.manager m' rids now (s.Reports a) out) {e : LockEvent ρ κ} (he : e ∈ out) :
    e.isTaking = true := by
  rcases h.events e he with ⟨_, _, _, _, rfl⟩ | hreport
  · rfl
  · cases a with
    | release r c now =>
      obtain ⟨_, rfl⟩ := hreport
      rfl
    | sweep now | resolveDeadlock victim now =>
      obtain ⟨_, _, _, _, rfl⟩ := hreport
      rfl
    | _ => exact hreport.elim

/-- What a step does to the tables and the calls, and what it outputs. -/
inductive Effect (s : LockSystem ρ κ) :
    LockAction ρ κ → LockSystem ρ κ → List (LockEvent ρ κ) → Prop where
  | taken (r : ρ) (ty : LockType) (c : κ) (timeout : Json) (now : Rat) (q : Request ρ κ) :
      q = s.request r ty c timeout → s.manager.locks.get? r = none →
      Effect s (.acquire r ty c timeout now)
        { s with manager := s.manager.record (q.lock now), nextRequest := s.nextRequest + 1 }
        [.recorded (q.lock now), .answered q true]
  | joined (r : ρ) (c : κ) (timeout : Json) (now : Rat) (q : Request ρ κ) (lock : Lock ρ κ) :
      q = s.request r .shared c timeout → s.manager.locks.get? r = some lock →
      lock.lockType = .shared →
      Effect s (.acquire r .shared c timeout now)
        { s with manager := s.manager.joinShared r c, nextRequest := s.nextRequest + 1 }
        [.answered q true]
  | upgraded (r : ρ) (c : κ) (timeout : Json) (now : Rat) (q : Request ρ κ) (lock : Lock ρ κ) :
      q = s.request r .exclusive c timeout → s.manager.locks.get? r = some lock →
      lock.holderId = c →
      Effect s (.acquire r .exclusive c timeout now)
        { s with manager := s.manager.record (q.lock now), nextRequest := s.nextRequest + 1 }
        [.recorded (q.lock now), .answered q true]
  | waits (r : ρ) (ty : LockType) (c : κ) (timeout : Json) (now : Rat) (q : Request ρ κ)
      (lock : Lock ρ κ) (deadline : Rat) :
      q = s.request r ty c timeout → s.manager.locks.get? r = some lock →
      (ty = .shared → lock.lockType = .exclusive) → (ty = .exclusive → lock.holderId ≠ c) →
      timeout.addTo now = .ok deadline →
      Effect s (.acquire r ty c timeout now)
        { s with
          manager := s.manager.enqueue q
          calls := s.calls ++ [⟨q, deadline, .test⟩]
          nextRequest := s.nextRequest + 1 }
        [.queued q]
  | raises (r : ρ) (ty : LockType) (c : κ) (timeout : Json) (now : Rat) (q : Request ρ κ)
      (lock : Lock ρ κ) (e : PyError) :
      q = s.request r ty c timeout → s.manager.locks.get? r = some lock →
      (ty = .shared → lock.lockType = .exclusive) → (ty = .exclusive → lock.holderId ≠ c) →
      timeout.addTo now = .error e →
      Effect s (.acquire r ty c timeout now)
        { s with manager := s.manager.enqueue q, nextRequest := s.nextRequest + 1 }
        [.queued q, .raised q e]
  | tested (k : Nat) (now : Rat) (q : Request ρ κ) (deadline : Rat) (phase : Phase) :
      s.calls[k]? = some ⟨q, deadline, .test⟩ → phase ≠ .test →
      Effect s (.test k now) (s.after s.manager (s.calls.set k ⟨q, deadline, phase⟩)) []
  | pollTakes (k : Nat) (now : Rat) (q : Request ρ κ) (deadline : Rat) :
      s.calls[k]? = some ⟨q, deadline, .asleep⟩ → s.manager.locks.get? q.resourceId = none →
      Effect s (.poll k now)
        (s.after ((s.manager.record (q.lock now)).dropWaiter q) (s.calls.eraseIdx k))
        [.recorded (q.lock now), .answered q true]
  | pollFinds (k : Nat) (now : Rat) (q : Request ρ κ) (deadline : Rat) (lock : Lock ρ κ) :
      s.calls[k]? = some ⟨q, deadline, .asleep⟩ →
      s.manager.locks.get? q.resourceId = some lock → lock.holderId = q.clientId →
      Effect s (.poll k now) (s.after s.manager (s.calls.eraseIdx k)) [.answered q true]
  | pollsOn (k : Nat) (now : Rat) (q : Request ρ κ) (deadline : Rat) (lock : Lock ρ κ) :
      s.calls[k]? = some ⟨q, deadline, .asleep⟩ →
      s.manager.locks.get? q.resourceId = some lock → lock.holderId ≠ q.clientId →
      Effect s (.poll k now) (s.after s.manager (s.calls.set k ⟨q, deadline, .test⟩)) []
  | gaveUp (k : Nat) (q : Request ρ κ) (deadline : Rat) :
      s.calls[k]? = some ⟨q, deadline, .timedOut⟩ →
      Effect s (.giveUp k) (s.after (s.manager.dropWaiter q) (s.calls.eraseIdx k))
        [.answered q false]
  | tookAway (a : LockAction ρ κ) (s' : LockSystem ρ κ) (now : Rat) (out : List (LockEvent ρ κ)) :
      a.takes = true → TakenAway s.manager s'.manager (s.takenBy a) now (s.Reports a) out →
      (∀ r c t, a = .release r c t → ∃ result, .releaseCalled r c result ∈ out) →
      s'.calls = s.calls → s'.nextRequest = s.nextRequest → Effect s a s' out

theorem acquire_effect (s : LockSystem ρ κ) (r : ρ) (ty : LockType) (c : κ) (timeout : Json)
    (now : Rat) :
    Effect s (.acquire r ty c timeout now) (s.acquire (s.request r ty c timeout) now).1
      (s.acquire (s.request r ty c timeout) now).2 := by
  unfold acquire LockManager.tryAcquire
  split
  · next hnone => exact .taken r ty c timeout now _ rfl hnone
  · next lock hsome =>
    split
    · next hshared =>
      obtain ⟨rfl, hlock⟩ : ty = .shared ∧ lock.lockType = .shared := hshared
      exact .joined r c timeout now _ lock rfl hsome hlock
    · next hshared =>
      split
      · next hheld =>
        obtain ⟨hholder, rfl⟩ : (lock.holderId == c) = true ∧ ty = .exclusive := hheld
        exact .upgraded r c timeout now _ lock rfl hsome (beq_iff_eq.mp hholder)
      · next hheld =>
        have hexclusive : ty = .shared → lock.lockType = .exclusive := by
          intro hty
          cases hlock : lock.lockType with
          | shared => exact absurd ⟨hty, hlock⟩ hshared
          | exclusive => rfl
        have hother : ty = .exclusive → lock.holderId ≠ c := by
          intro hty heq
          exact hheld ⟨beq_iff_eq.mpr heq, hty⟩
        simp only [Bool.false_eq_true, if_false]
        split
        · next e he => exact .raises r ty c timeout now _ lock e rfl hsome hexclusive hother he
        · next deadline hd =>
          exact .waits r ty c timeout now _ lock deadline rfl hsome hexclusive hother hd

theorem poll_effect {s : LockSystem ρ κ} {k : Nat} {q : Request ρ κ} {deadline : Rat}
    (hk : s.calls[k]? = some ⟨q, deadline, .asleep⟩) (now : Rat) :
    Effect s (.poll k now)
      (s.after (s.manager.poll q now).manager
        (if (s.manager.poll q now).returned then s.calls.eraseIdx k
          else s.calls.set k ⟨q, deadline, .test⟩))
      (s.manager.poll q now).events := by
  unfold LockManager.poll
  split
  · next hnone => exact .pollTakes k now q deadline hk hnone
  · next lock hsome =>
    split
    · next heq => exact .pollFinds k now q deadline lock hk hsome (beq_iff_eq.mp heq)
    · next hne => exact .pollsOn k now q deadline lock hk hsome (by simpa using hne)

theorem sweep_effect {s s' : LockSystem ρ κ} {now : Rat} {out : List (LockEvent ρ κ)}
    (h : s.step (.sweep now) = some (s', out)) : Effect s (.sweep now) s' out := by
  simp only [step] at h
  split at h
  · next hrunning =>
    unfold LockManager.sweep at h
    cases hex : LockManager.expiredIn now s.manager.locks.entries with
    | error e =>
      simp only [hex, bind, Except.bind] at h
      cases h
      have htaken : s.takenBy (.sweep now) = [] := by simp [takenBy, hrunning, hex, Except.toOption]
      refine .tookAway _ _ now _ rfl ?_ (by simp) rfl rfl
      constructor <;> simp [htaken]
    | ok rids =>
      simp only [hex, bind, Except.bind, pure, Except.pure] at h
      cases h
      have htaken : s.takenBy (.sweep now) = rids := by
        simp [takenBy, hrunning, hex, Except.toOption]
      have hnodup := s.manager.nodup_keys.sublist (LockManager.expiredIn_sublist hex)
      subst htaken
      exact .tookAway _ _ now _ rfl (s.manager.takenAway_takeAway .expired now hnodup) (by simp) rfl
        rfl
  · cases h

theorem step_effect {s s' : LockSystem ρ κ} {a : LockAction ρ κ} {out : List (LockEvent ρ κ)}
    (h : s.step a = some (s', out)) : Effect s a s' out := by
  cases a with
  | acquire r ty c timeout now =>
    have heff := s.acquire_effect r ty c timeout now
    rw [show s.acquire (s.request r ty c timeout) now = (s', out) from Option.some.inj h] at heff
    exact heff
  | test k now =>
    simp only [step] at h
    split at h
    · next q deadline hk =>
      cases h
      refine .tested k now q deadline _ hk ?_
      split <;> simp
    · cases h
  | poll k now =>
    simp only [step] at h
    split at h
    · next q deadline hk => cases h; exact poll_effect hk now
    · cases h
  | giveUp k =>
    simp only [step] at h
    split at h
    · next q deadline hk => cases h; exact .gaveUp k q deadline hk
    · cases h
  | release r c now =>
    cases h
    refine .tookAway _ _ now _ rfl (s.manager.takenAway_releaseLock r c now) ?_ rfl rfl
    rintro r' c' t ⟨⟩
    exact s.manager.reports_releaseLock r c now
  | sweep now => exact sweep_effect h
  | resolveDeadlock victim now =>
    cases h
    have hnodup : (s.takenBy (.resolveDeadlock victim now)).Nodup :=
      s.manager.nodup_keys.sublist (List.filter_sublist.map _)
    exact .tookAway _ _ now _ rfl (s.manager.takenAway_takeAway .resolved now hnodup) (by simp) rfl
      rfl

end LockSystem

end SyncSystem.Locks
