/-
SyncSystem.Locks.Expiry — whether a pass of the expiry checker gets
through.

A pass compares the age of every lock with its ttl before it deletes any
lock, so one ttl that is not a number makes the whole pass raise; if all
are numbers it deletes or hands over every lock that is over age
(`sweepWorks_iff`). A lock keeps the timeout of its request as its ttl,
and only a request that is granted at once can bring in one that is no
number (`numeric_step`): a request that waits has added its timeout to
the clock before.
-/
import SyncSystem.Locks.Steps

namespace SyncSystem.Locks

open SyncSystem.Python

variable {ρ κ : Type} [BEq ρ] [BEq κ]

namespace LockManager

/-! ## One pass -/

omit [BEq ρ] [BEq κ] in
theorem expiredIn_cons_ok {now ttl : Rat} {rid : ρ} {lock : Lock ρ κ} {rest : List (ρ × Lock ρ κ)}
    {others : List ρ} (httl : lock.ttl.num = .ok ttl) (hrest : expiredIn now rest = .ok others) :
    expiredIn now ((rid, lock) :: rest) =
      .ok (if now - lock.createdAt > ttl then rid :: others else others) := by
  simp [expiredIn, httl, hrest, bind, Except.bind, pure, Except.pure]

omit [BEq ρ] [BEq κ] in
/-- If every ttl is a number, the pass finds the locks that are over age. -/
theorem expiredIn_of_numbers (now : Rat) {entries : List (ρ × Lock ρ κ)}
    (h : ∀ e ∈ entries, e.2.ttl.isNumber = true) :
    ∃ rids, expiredIn now entries = .ok rids ∧
      ∀ e ∈ entries, ∀ ttl, e.2.ttl.num = .ok ttl → ttl < now - e.2.createdAt → e.1 ∈ rids := by
  induction entries with
  | nil => exact ⟨[], rfl, by simp⟩
  | cons e rest ih =>
    obtain ⟨rid, lock⟩ := e
    obtain ⟨ttl, httl⟩ := isNumber_iff.mp (h (rid, lock) List.mem_cons_self)
    obtain ⟨others, hrest, hothers⟩ := ih (fun e he => h e (List.mem_cons_of_mem _ he))
    refine ⟨_, expiredIn_cons_ok httl hrest, ?_⟩
    intro e he ttl' httl' hold
    rcases List.mem_cons.mp he with rfl | he
    · have hsame : ttl' = ttl := Except.ok.inj (httl'.symm.trans httl)
      subst hsame
      simp [hold]
    · have hmem := hothers e he ttl' httl' hold
      split
      · exact List.mem_cons_of_mem _ hmem
      · exact hmem

omit [BEq ρ] [BEq κ] in
/-- One ttl that is not a number makes the pass raise. -/
theorem expiredIn_raises (now : Rat) {entries : List (ρ × Lock ρ κ)} {e : ρ × Lock ρ κ}
    (he : e ∈ entries) (h : e.2.ttl.isNumber = false) :
    ∃ err, expiredIn now entries = .error err := by
  induction entries with
  | nil => cases he
  | cons e' rest ih =>
    obtain ⟨rid, lock⟩ := e'
    simp only [expiredIn, bind, Except.bind]
    cases httl : lock.ttl.num with
    | error err => exact ⟨err, rfl⟩
    | ok ttl =>
      have hrest : e ∈ rest := by
        rcases List.mem_cons.mp he with rfl | he
        · rw [isNumber_iff.mpr ⟨ttl, httl⟩] at h
          cases h
        · exact he
      obtain ⟨err, herr⟩ := ih hrest
      exact ⟨err, by simp [herr]⟩

/-- A pass at `now` does not raise, and every lock older than its ttl is
gone afterwards or replaced by one of the first waiter. -/
def SweepWorks (m : LockManager ρ κ) (now : Rat) : Prop :=
  ∃ m' events, m.sweep now = .ok (m', events) ∧
    ∀ r lock, (r, lock) ∈ m.locks.entries →
      ∀ ttl, lock.ttl.num = .ok ttl → ttl < now - lock.createdAt →
        m'.locks.get? r = none ∨
          ∃ w ws, m.waitingQueue.get? r = some (w :: ws) ∧ m'.locks.get? r = some (w.lock r now)

/-- The section of one resource: its lock goes, and its first waiter gets it. -/
def handOver (m : LockManager ρ κ) (rid : ρ) (now : Rat) : LockManager ρ κ :=
  (({ m with locks := m.locks.del rid } : LockManager ρ κ).processWaiting rid now).1

theorem takeAway_cons (m : LockManager ρ κ) (event : Lock ρ κ → LockEvent ρ κ) (now : Rat)
    (rid : ρ) (rest : List ρ) : (m.takeAway event now (rid :: rest)).1 =
      ((m.handOver rid now).takeAway event now rest).1 := rfl

variable [EquivBEq ρ]

/-- The other resources stay as they are. -/
theorem handOver_other {m : LockManager ρ κ} {rid r : ρ} (h : (rid == r) = false) (now : Rat) :
    (m.handOver rid now).locks.get? r = m.locks.get? r ∧
      (m.handOver rid now).waitingQueue.get? r = m.waitingQueue.get? r := by
  unfold handOver processWaiting
  split <;> simp [Dict.get?_set, Dict.get?_del, h]

theorem handOver_self (m : LockManager ρ κ) (rid : ρ) (now : Rat) :
    (m.handOver rid now).locks.get? rid = none ∨
      ∃ w ws, m.waitingQueue.get? rid = some (w :: ws) ∧
        (m.handOver rid now).locks.get? rid = some (w.lock rid now) := by
  unfold handOver processWaiting
  split
  · next w ws hq => exact Or.inr ⟨w, ws, hq, by simp [Dict.get?_set]⟩
  · exact Or.inl (m.locks.get?_del_self rid)

theorem get?_takeAway_other {m : LockManager ρ κ} {event : Lock ρ κ → LockEvent ρ κ} {now : Rat}
    {rids : List ρ} {r : ρ} (h : ∀ rid ∈ rids, (rid == r) = false) :
    (m.takeAway event now rids).1.locks.get? r = m.locks.get? r := by
  induction rids generalizing m with
  | nil => rfl
  | cons rid rest ih =>
    rw [takeAway_cons, ih (fun rid hr => h rid (List.mem_cons_of_mem _ hr)),
      (handOver_other (h rid List.mem_cons_self) now).1]

theorem get?_takeAway {m : LockManager ρ κ} {event : Lock ρ κ → LockEvent ρ κ} {now : Rat}
    {rids : List ρ} (hdistinct : rids.Pairwise (fun a b => (a == b) = false)) {r : ρ}
    (hr : r ∈ rids) :
    (m.takeAway event now rids).1.locks.get? r = none ∨
      ∃ w ws, m.waitingQueue.get? r = some (w :: ws) ∧
        (m.takeAway event now rids).1.locks.get? r = some (w.lock r now) := by
  induction rids generalizing m with
  | nil => cases hr
  | cons rid rest ih =>
    obtain ⟨hfirst, hrest⟩ := List.pairwise_cons.mp hdistinct
    rw [takeAway_cons]
    rcases List.mem_cons.mp hr with rfl | hr
    · -- its own section decides; the others leave it alone
      rw [get?_takeAway_other (fun x hx => BEq.comm.trans (hfirst x hx))]
      exact m.handOver_self r now
    · rw [← (handOver_other (hfirst r hr) now).2]
      exact ih hrest hr

/-- **A pass gets through** exactly if every ttl is a number. -/
theorem sweepWorks_iff (m : LockManager ρ κ) (now : Rat) :
    m.SweepWorks now ↔ ∀ lock ∈ m.locks.values, lock.ttl.isNumber = true := by
  constructor
  · intro ⟨m', events, hsweep, _⟩ lock hlock
    by_contra hnot
    obtain ⟨e, he, rfl⟩ := List.mem_map.mp hlock
    obtain ⟨err, herr⟩ := expiredIn_raises now he (by simpa using hnot)
    simp [sweep, herr, bind, Except.bind] at hsweep
  · intro hnumbers
    obtain ⟨rids, hrids, hold⟩ := expiredIn_of_numbers now
      (fun e (he : e ∈ m.locks.entries) => hnumbers e.2 (List.mem_map_of_mem he))
    have hsweep : m.sweep now = .ok (m.takeAway .expired now rids) := by
      simp [sweep, hrids, bind, Except.bind, pure, Except.pure]
    refine ⟨_, _, hsweep, ?_⟩
    intro r lock hmem ttl httl hlt
    exact get?_takeAway (m.locks.distinct_keys.sublist (expiredIn_sublist hrids))
      (hold (r, lock) hmem ttl httl hlt)

/-! ## Where a ttl comes from -/

/-- A request for the resource is granted in the first section of the
call, with a lock of its own. -/
def grantsAtOnce (m : LockManager ρ κ) (r : ρ) (lockType : LockType) (c : κ) : Bool :=
  match m.locks.get? r with
  | none => true
  | some existing => existing.holderId == c && decide (lockType = .exclusive)

omit [EquivBEq ρ] in
theorem tryAcquire_granted {m : LockManager ρ κ} {q : Request ρ κ}
    (h : m.grantsAtOnce q.resourceId q.lockType q.clientId = true) (now : Rat) :
    (m.tryAcquire q now).manager = m.record (q.lock now) ∧ (m.tryAcquire q now).returned = true := by
  cases hget : m.locks.get? q.resourceId with
  | none => simp [tryAcquire, hget]
  | some existing =>
    simp only [grantsAtOnce, hget, Bool.and_eq_true, decide_eq_true_eq] at h
    simp [tryAcquire, hget, h.1, h.2]

omit [EquivBEq ρ] in
/-- Any other request records no lock. -/
theorem tryAcquire_not_granted {m : LockManager ρ κ} {q : Request ρ κ}
    (h : m.grantsAtOnce q.resourceId q.lockType q.clientId = false) (now : Rat) :
    (m.tryAcquire q now).manager.locks = m.locks := by
  cases hget : m.locks.get? q.resourceId with
  | none => simp [grantsAtOnce, hget] at h
  | some existing =>
    simp only [grantsAtOnce, hget] at h
    simp only [tryAcquire, hget]
    split
    · rfl
    · split
      · next hheld => simp [hheld.1, hheld.2] at h
      · rfl

/-- Whoever is handed a lock gets it for 30 seconds. -/
theorem ttl_processWaiting {m : LockManager ρ κ} {r : ρ} {now : Rat}
    (h : ∀ lock ∈ m.locks.values, lock.ttl.isNumber = true) :
    ∀ lock ∈ (m.processWaiting r now).1.locks.values, lock.ttl.isNumber = true := by
  intro lock hlock
  unfold processWaiting at hlock
  split at hlock
  · rcases Dict.mem_values_set hlock with rfl | hlock
    · rfl
    · exact h lock hlock
  · exact h lock hlock

theorem ttl_takeAway {m : LockManager ρ κ} {event : Lock ρ κ → LockEvent ρ κ} {now : Rat}
    {rids : List ρ} (h : ∀ lock ∈ m.locks.values, lock.ttl.isNumber = true) :
    ∀ lock ∈ (m.takeAway event now rids).1.locks.values, lock.ttl.isNumber = true := by
  refine takeAway_keeps (P := fun m' => ∀ lock ∈ m'.locks.values, lock.ttl.isNumber = true) ?_ h
    event rids
  intro m' r h'
  exact ttl_processWaiting (fun lock hlock => h' lock (Dict.mem_values_del hlock))

theorem ttl_releaseLock {m : LockManager ρ κ} {r : ρ} {c : κ} {now : Rat}
    (h : ∀ lock ∈ m.locks.values, lock.ttl.isNumber = true) :
    ∀ lock ∈ (m.releaseLock r c now).1.locks.values, lock.ttl.isNumber = true := by
  unfold releaseLock
  split
  · exact h
  · split
    · exact h
    · exact ttl_processWaiting (fun lock hlock => h lock (Dict.mem_values_del hlock))

theorem ttl_poll {m : LockManager ρ κ} {q : Request ρ κ} {now : Rat}
    (h : ∀ lock ∈ m.locks.values, lock.ttl.isNumber = true) (hq : q.timeout.isNumber = true) :
    ∀ lock ∈ (m.poll q now).manager.locks.values, lock.ttl.isNumber = true := by
  unfold poll
  split
  · intro lock hlock
    rw [dropWaiter_locks] at hlock
    rcases Dict.mem_values_set hlock with rfl | hlock
    · exact hq
    · exact h lock hlock
  · split
    · exact h
    · exact h

end LockManager

namespace LockSystem

/-- Every lock has a number for its ttl, and every call in progress for
its timeout. -/
structure Numbers (s : LockSystem ρ κ) : Prop where
  locks : ∀ lock ∈ s.manager.locks.values, lock.ttl.isNumber = true
  calls : ∀ call ∈ s.calls, call.request.timeout.isNumber = true

/-- A request that is granted at once asks for a number of seconds. -/
def NumberIfGranted (s : LockSystem ρ κ) (r : ρ) (lockType : LockType) (c : κ) (timeout : Json) :
    Prop :=
  s.manager.grantsAtOnce r lockType c = true → timeout.isNumber = true

theorem acquire_granted {s : LockSystem ρ κ} {q : Request ρ κ}
    (h : s.manager.grantsAtOnce q.resourceId q.lockType q.clientId = true) (now : Rat) :
    (s.acquire q now).1.manager = s.manager.record (q.lock now) := by
  obtain ⟨hrecord, hreturned⟩ := LockManager.tryAcquire_granted h now
  simp [acquire, hrecord, hreturned]

variable [EquivBEq ρ] {s s' : LockSystem ρ κ}

theorem Numbers.acquire (h : s.Numbers) {q : Request ρ κ}
    (hok : s.NumberIfGranted q.resourceId q.lockType q.clientId q.timeout) (now : Rat) :
    (s.acquire q now).1.Numbers := by
  have hlocks : ∀ lock ∈ (s.manager.tryAcquire q now).manager.locks.values,
      lock.ttl.isNumber = true := by
    cases hgrant : s.manager.grantsAtOnce q.resourceId q.lockType q.clientId with
    | true =>
      rw [(LockManager.tryAcquire_granted hgrant now).1]
      intro lock hlock
      rcases Dict.mem_values_set hlock with rfl | hlock
      · exact hok hgrant
      · exact h.locks lock hlock
    | false =>
      rw [LockManager.tryAcquire_not_granted hgrant now]
      exact h.locks
  unfold LockSystem.acquire
  simp only
  split
  · exact ⟨hlocks, h.calls⟩
  · split
    · exact ⟨hlocks, h.calls⟩
    · next deadline hadd =>
      refine ⟨hlocks, ?_⟩
      intro call hcall
      rcases List.mem_append.mp hcall with hcall | hcall
      · exact h.calls call hcall
      · rw [List.mem_singleton.mp hcall]
        exact isNumber_of_addTo hadd

omit [EquivBEq ρ] in
/-- A call that moves on keeps its timeout. -/
theorem Numbers.calls_set (h : s.Numbers) {k : Nat} {call call' : Call ρ κ}
    (hk : s.calls[k]? = some call) (hsame : call'.request = call.request) :
    ∀ x ∈ s.calls.set k call', x.request.timeout.isNumber = true := by
  intro x hx
  rcases List.mem_or_eq_of_mem_set hx with hx | rfl
  · exact h.calls x hx
  · rw [hsame]
    exact h.calls call (List.mem_of_getElem? hk)

theorem Numbers.step (h : s.Numbers) {a : LockAction ρ κ} {out : List (LockEvent ρ κ)}
    (hok : ∀ r ty c timeout now, a = .acquire r ty c timeout now →
      s.NumberIfGranted r ty c timeout)
    (hs : s.step a = some (s', out)) : s'.Numbers := by
  cases a with
  | acquire r ty c timeout now =>
    have hnumbers := h.acquire (q := ⟨r, ty, c, timeout, s.nextRequest⟩)
      (hok r ty c timeout now rfl) now
    rw [Option.some.inj hs] at hnumbers
    exact hnumbers
  | test k now =>
    simp only [LockSystem.step] at hs
    split at hs
    · next hk => cases hs; exact ⟨h.locks, h.calls_set hk rfl⟩
    · cases hs
  | poll k now =>
    simp only [LockSystem.step] at hs
    split at hs
    · next q deadline hk =>
      cases hs
      refine ⟨LockManager.ttl_poll h.locks (h.calls _ (List.mem_of_getElem? hk)), ?_⟩
      show ∀ call ∈ (if (s.manager.poll q now).returned then s.calls.eraseIdx k
        else s.calls.set k ⟨q, deadline, .test⟩), _
      split
      · exact fun call hcall => h.calls call (List.mem_of_mem_eraseIdx hcall)
      · exact h.calls_set hk rfl
    · cases hs
  | giveUp k =>
    simp only [LockSystem.step] at hs
    split at hs
    · next q deadline hk =>
      cases hs
      refine ⟨?_, fun call hcall => h.calls call (List.mem_of_mem_eraseIdx hcall)⟩
      show ∀ lock ∈ (s.manager.dropWaiter q).locks.values, _
      rw [LockManager.dropWaiter_locks]
      exact h.locks
    · cases hs
  | release r c now => cases hs; exact ⟨LockManager.ttl_releaseLock h.locks, h.calls⟩
  | sweep now =>
    simp only [LockSystem.step] at hs
    split at hs
    · split at hs
      · next hsweep =>
        cases hs
        obtain ⟨expired, heq⟩ := LockManager.sweep_eq hsweep
        obtain ⟨rfl, rfl⟩ := Prod.mk.inj heq
        exact ⟨LockManager.ttl_takeAway h.locks, h.calls⟩
      · cases hs; exact ⟨h.locks, h.calls⟩
    · cases hs
  | resolveDeadlock victim now => cases hs; exact ⟨LockManager.ttl_takeAway h.locks, h.calls⟩

end LockSystem

end SyncSystem.Locks
