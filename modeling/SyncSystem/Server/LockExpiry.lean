/-
SyncSystem.Server.LockExpiry — the lock manager behind a server, and
whether requests can stop the expiry of locks.

A lock request is passed on with whatever JSON values it carries. The
resource is a dictionary key and the client, where it joins a SHARED
lock, an element of a set, so a list or a dict raises there; the timeout
is not looked at when a lock is granted at once. It becomes the ttl, and
if it is no number the next sweep raises, and that is the end of the
expiry checker (`timeout_stops_expiry`). So expiry works in every state
of a run exactly if no request brings such a lock in
(`expiry_works_iff`).
-/
import SyncSystem.Locks.Expiry
import SyncSystem.Python.Key
import SyncSystem.Server.Request

namespace SyncSystem.Locks

open SyncSystem.Python

/-! ## Lock requests with any JSON values -/

/-- The request joins a SHARED lock. -/
def LockManager.joinsShared (m : LockManager Key Json) (r : Key) (lockType : LockType) : Bool :=
  match m.locks.get? r with
  | none => false
  | some existing => decide (lockType = .shared ∧ existing.lockType = .shared)

namespace LockSystem

/-- `acquire_lock`. An unhashable resource raises at the first look into
`locks`, an unhashable client at `add`, when the set is there already. -/
def acquireCall (s : LockSystem Key Json) (resource : Json) (lockType : LockType)
    (clientId timeout : Json) (now : Rat) : LockSystem Key Json × List (LockEvent Key Json) :=
  match resource.key with
  | .error _ => (s, [])
  | .ok r =>
      let q : Request Key Json := ⟨r, lockType, clientId, timeout, s.nextRequest⟩
      if s.manager.joinsShared r lockType && !clientId.key.toBool then
        let sharers := (s.manager.sharedLocks.get? r).getD []
        ({ s with
            manager := { s.manager with sharedLocks := s.manager.sharedLocks.set r sharers }
            nextRequest := s.nextRequest + 1 },
          [.raised q .typeError])
      else s.acquire q now

/-- `release_lock`. -/
def releaseCall (s : LockSystem Key Json) (resource clientId : Json) (now : Rat) :
    LockSystem Key Json × List (LockEvent Key Json) :=
  match resource.key with
  | .error _ => (s, [])
  | .ok r =>
      let (m, events) := s.manager.releaseLock r clientId now
      (s.after m s.calls, events)

end LockSystem

end SyncSystem.Locks

namespace SyncSystem.Server

open SyncSystem.Python
open SyncSystem.Locks

/-! ## The lock manager behind a server -/

/-- What a call of the server does to the lock manager: the other calls
read it or are for other components. -/
def serveLocks (s : LockSystem Key Json) (now : Rat) :
    ServerCall → LockSystem Key Json × List (LockEvent Key Json)
  | .acquireLock resource lockType clientId timeout =>
      s.acquireCall resource lockType clientId timeout now
  | .releaseLock resource clientId => s.releaseCall resource clientId now
  | _ => (s, [])

structure LockServer where
  server : NodeServer
  locks : LockSystem Key Json

inductive LockServerAction where
  /-- `process_request` is called and runs up to the first suspension. -/
  | request (request : Obj) (now : Rat)
  /-- A call that waits, or a task of the lock manager, goes on. -/
  | background (a : LockAction Key Json)

namespace LockServer

/-- A request calls the lock manager first or not at all
(`lockFree_later`). -/
def step (s : LockServer) :
    LockServerAction → Option (LockServer × List (LockEvent Key Json))
  | .request request now =>
      match processRequest s.server request with
      | .done served => some ({ s with server := served.server }, [])
      | .call c _ =>
          let (locks, events) := serveLocks s.locks now c
          some ({ s with locks := locks }, events)
  | .background (.acquire ..) => none
  | .background (.release ..) => none
  | .background a => (s.locks.step a).map fun (locks, events) => ({ s with locks := locks }, events)

def machine : Machine LockServer LockServerAction (List (LockEvent Key Json)) := ⟨step⟩

end LockServer

abbrev LockServerRun := Config LockServer LockServerAction (List (LockEvent Key Json))

/-- The call leaves the lock manager as it is. -/
def LockFree : ServerCall → Prop
  | .acquireLock .. => False
  | .releaseLock .. => False
  | _ => True

/-- What a part of a request calls after its first call. -/
def LaterLockFree {ρ : Type} : Program components ρ → Prop
  | .done _ => True
  | .call _ k => ∀ a, (k a).Calls LockFree

theorem laterLockFree_invoke {c : ServerCall} {k : c.Result → Action}
    (h : ∀ r, (k r).Calls LockFree) : LaterLockFree (invoke c k) := by
  intro a
  cases a with
  | error e => trivial
  | ok r => exact h r

theorem laterLockFree_ite {ρ : Type} {c : Prop} [Decidable c] {p q : Program components ρ}
    (hp : LaterLockFree p) (hq : LaterLockFree q) : LaterLockFree (if c then p else q) := by
  by_cases h : c
  · rw [if_pos h]; exact hp
  · rw [if_neg h]; exact hq

theorem laterLockFree_performAction (s : NodeServer) (request : Obj) :
    LaterLockFree (performAction s request) := by
  have hcacheRead : LaterLockFree (cacheRead request) := by
    refine laterLockFree_invoke fun data => ?_
    split <;> trivial
  have hcacheWrite : LaterLockFree (cacheWrite request) := by
    simp only [cacheWrite]
    split
    · exact laterLockFree_invoke fun _ => trivial
    · trivial
  have hgetStatus : LaterLockFree (getStatus s) := by
    refine laterLockFree_invoke fun _ => ⟨trivial, ?_⟩
    intro a
    cases a with
    | error e => trivial
    | ok stats =>
      refine ⟨trivial, ?_⟩
      intro a
      cases a <;> trivial
  -- the other actions answer with what their one call returns
  have hrest : ∀ {c : ServerCall} {k : c.Result → Action}, (∀ r, ∃ x, k r = .done x) →
      LaterLockFree (invoke c k) := by
    intro c k h
    refine laterLockFree_invoke fun r => ?_
    obtain ⟨x, hx⟩ := h r
    rw [hx]
    trivial
  unfold performAction
  iterate 8 refine laterLockFree_ite (hrest fun _ => ⟨_, rfl⟩) ?_
  refine laterLockFree_ite hcacheRead (laterLockFree_ite hcacheWrite ?_)
  refine laterLockFree_ite (hrest fun _ => ⟨_, rfl⟩) (laterLockFree_ite hgetStatus ?_)
  exact laterLockFree_ite trivial trivial

/-- After its first call a request leaves the lock manager as it is. -/
theorem lockFree_later {s : NodeServer} {request : Obj} {c : ServerCall}
    {k : components.Answer c → Program components Served}
    (h : processRequest s request = .call (I := components) c k) : ∀ a, (k a).Calls LockFree := by
  unfold processRequest at h
  split at h
  · cases h
  · have hlater := laterLockFree_performAction s request
    cases hp : performAction s request with
    | done r =>
      rw [hp] at h
      cases h
    | call c' k' =>
      rw [hp] at h hlater
      cases h
      exact fun a => (hlater a).map _

/-! ## What requests can bring in -/

/-- The call asks for a number of seconds, if it is granted at once. -/
def asksNumber (s : LockSystem Key Json) : ServerCall → Bool
  | .acquireLock resource lockType clientId timeout =>
      match resource.key with
      | .error _ => true
      | .ok r => !s.manager.grantsAtOnce r lockType clientId || timeout.isNumber
  | _ => true

namespace LockServer

/-- No request is granted a lock for a timeout that is not a number. -/
def asksNumber (s : LockServer) : LockServerAction → Bool
  | .request request _ =>
      match processRequest s.server request with
      | .done _ => true
      | .call c _ => Server.asksNumber s.locks c
  | .background _ => true

/-- The expiry checker is running, and a pass of it, at any time, does not
raise and removes or hands over every lock that is over age. -/
structure ExpiryWorks (s : LockServer) : Prop where
  running : s.locks.expiryRunning = true
  sweeps : ∀ now, s.locks.manager.SweepWorks now

end LockServer

/-! ## Steps -/

/-- Nothing a call does stops the checker. -/
theorem acquire_running (s : LockSystem Key Json) (q : Request Key Json) (now : Rat) :
    (s.acquire q now).1.expiryRunning = s.expiryRunning := by
  unfold LockSystem.acquire
  simp only
  split
  · rfl
  · split <;> rfl

theorem serveLocks_running (s : LockSystem Key Json) (now : Rat) (c : ServerCall) :
    (serveLocks s now c).1.expiryRunning = s.expiryRunning := by
  cases c with
  | acquireLock resource ty clientId timeout =>
    simp only [serveLocks, LockSystem.acquireCall]
    split
    · rfl
    · split
      · rfl
      · exact acquire_running ..
  | releaseLock resource clientId =>
    simp only [serveLocks, LockSystem.releaseCall]
    split <;> rfl
  | _ => rfl

theorem numbers_serveLocks {s : LockSystem Key Json} (h : s.Numbers) {c : ServerCall}
    (hok : asksNumber s c = true) (now : Rat) : (serveLocks s now c).1.Numbers := by
  cases c with
  | acquireLock resource ty clientId timeout =>
    simp only [asksNumber] at hok
    simp only [serveLocks, LockSystem.acquireCall]
    split
    · exact h
    · next r hr =>
      simp only [hr, Bool.or_eq_true, Bool.not_eq_true'] at hok
      split
      · exact ⟨h.locks, h.calls⟩
      · refine h.acquire ?_ now
        intro hgrant
        rcases hok with hok | hok
        · rw [hgrant] at hok
          cases hok
        · exact hok
  | releaseLock resource clientId =>
    simp only [serveLocks, LockSystem.releaseCall]
    split
    · exact h
    · exact ⟨LockManager.ttl_releaseLock h.locks, h.calls⟩
  | _ => exact h

/-- With numbers only, no pass raises. -/
theorem running_step {s s' : LockSystem Key Json} (h : s.Numbers) (hrun : s.expiryRunning = true)
    {a : LockAction Key Json} {out : List (LockEvent Key Json)} (hs : s.step a = some (s', out)) :
    s'.expiryRunning = true := by
  cases a with
  | acquire r ty c timeout now =>
    have hkeep := acquire_running s ⟨r, ty, c, timeout, s.nextRequest⟩ now
    rw [Option.some.inj hs] at hkeep
    exact hkeep.trans hrun
  | sweep now =>
    obtain ⟨m', events, hsweep, _⟩ := (LockManager.sweepWorks_iff _ now).mpr h.locks
    simp only [LockSystem.step, hrun, if_true, hsweep] at hs
    cases hs
    exact hrun
  | test k now | poll k now | giveUp k =>
    simp only [LockSystem.step] at hs
    split at hs
    · cases hs; exact hrun
    · cases hs
  | release r c now => cases hs; exact hrun
  | resolveDeadlock victim now => cases hs; exact hrun

/-- Any other timeout that is granted is in the table as a ttl. -/
theorem bad_ttl {s : LockSystem Key Json} {c : ServerCall} (h : asksNumber s c = false) (now : Rat) :
    ∃ lock ∈ (serveLocks s now c).1.manager.locks.values, lock.ttl.isNumber = false := by
  cases c with
  | acquireLock resource ty clientId timeout =>
    simp only [asksNumber] at h
    split at h
    · cases h
    · next r hr =>
      simp only [Bool.or_eq_false_iff, Bool.not_eq_false'] at h
      obtain ⟨hgrant, hnumber⟩ := h
      -- a request that is granted at once joins no lock
      have hjoin : s.manager.joinsShared r ty = false := by
        unfold LockManager.grantsAtOnce at hgrant
        unfold LockManager.joinsShared
        split at hgrant
        · next hnone => simp [hnone]
        · next existing hsome =>
          simp only [Bool.and_eq_true, decide_eq_true_eq] at hgrant
          simp [hsome, hgrant.2]
      simp only [serveLocks, LockSystem.acquireCall, hr, hjoin, Bool.false_and, Bool.false_eq_true,
        if_false]
      rw [LockSystem.acquire_granted (q := ⟨r, ty, clientId, timeout, s.nextRequest⟩) hgrant now]
      exact ⟨_, Dict.mem_values_set_self .., hnumber⟩
  | _ => cases h

namespace LockServer

theorem numbers_step {s s' : LockServer} {a : LockServerAction} {out : List (LockEvent Key Json)}
    (h : s.locks.Numbers ∧ s.locks.expiryRunning = true) (hok : s.asksNumber a = true)
    (hs : s.step a = some (s', out)) : s'.locks.Numbers ∧ s'.locks.expiryRunning = true := by
  obtain ⟨hnumbers, hrun⟩ := h
  cases a with
  | request request now =>
    simp only [step] at hs
    simp only [asksNumber] at hok
    split at hs
    · cases hs
      exact ⟨hnumbers, hrun⟩
    · next c k hcall =>
      rw [hcall] at hok
      cases hs
      exact ⟨numbers_serveLocks hnumbers hok now, (serveLocks_running ..).trans hrun⟩
  | background a =>
    have hown : ∀ {l : LockSystem Key Json}, (∀ r ty c timeout now, a ≠ .acquire r ty c timeout now) →
        s.locks.step a = some (l, out) → l.Numbers ∧ l.expiryRunning = true := by
      intro l hne hl
      refine ⟨hnumbers.step ?_ hl, running_step hnumbers hrun hl⟩
      exact fun r ty c timeout now heq => absurd heq (hne r ty c timeout now)
    cases a with
    | acquire r ty c timeout now => cases hs
    | release r c now => cases hs
    | _ =>
      simp only [step, Option.map_eq_some_iff] at hs
      obtain ⟨⟨l, events⟩, hl, heq⟩ := hs
      cases heq
      exact hown (by simp) hl

theorem numbers_of_leads {server : NodeServer} {c : LockServerRun}
    (h : machine.Leads (fun d a => d.2.asksNumber a = true) ([], ⟨server, .init⟩) c) :
    c.2.locks.Numbers ∧ c.2.locks.expiryRunning = true := by
  refine h.invariant (I := fun c => c.2.locks.Numbers ∧ c.2.locks.expiryRunning = true) ?_ ?_
  · refine ⟨⟨?_, ?_⟩, rfl⟩
    · intro lock hlock
      cases hlock
    · intro call hcall
      cases hcall
  · intro c a s' out _ ih hok hs
    exact numbers_step ih hok hs

/-- **Lock expiry works** in every state of a run exactly when no request
is granted a lock for a timeout that is not a number. -/
theorem expiry_works_iff {server : NodeServer} {c : LockServerRun}
    (h : machine.Leads Machine.always ([], ⟨server, .init⟩) c) :
    (∀ s ∈ c.visited, s.ExpiryWorks) ↔
      EveryStep (fun before a _ => before.2.asksNumber a = true) c.1 := by
  refine h.visited_iff (fun c hreach => ?_) ?_
  · obtain ⟨hnumbers, hrun⟩ := numbers_of_leads hreach
    exact ⟨hrun, fun now => (LockManager.sweepWorks_iff _ now).mpr hnumbers.locks⟩
  · intro c a s' out _ hok hs hworks
    cases a with
    | background a => exact hok rfl
    | request request now =>
      simp only [asksNumber] at hok
      simp only [machine, step] at hs
      split at hs
      · next served hdone =>
        rw [hdone] at hok
        exact hok rfl
      · next c' k hcall =>
        rw [hcall] at hok
        cases hs
        obtain ⟨lock, hlock, hnumber⟩ := bad_ttl (by simpa using hok) now
        have hall := (LockManager.sweepWorks_iff _ 0).mp (hworks.sweeps 0)
        rw [hall lock hlock] at hnumber
        cases hnumber

def bareServer : NodeServer where
  nodeId := "node_1"
  nodeType := "lock_manager"
  raft := .init "node_1" [] 8001
  failureDetector := .init "node_1" [] 30 0

/-- A `lock_acquire` request for `r`. -/
def lockRequest (client : String) (timeout : Json) : Obj :=
  [("action", .str "lock_acquire"), ("resource", .str "r"), ("client_id", .str client),
   ("timeout", timeout)]

/-- `c1` asks for `True` seconds, `c2` for a list of them; both leases end. -/
def shortRun : List LockServerAction :=
  [.request (lockRequest "c1" (.bool true)) 0, .request (lockRequest "c2" (.arr [])) 0,
   .background (.sweep 2), .background (.sweep 40)]

theorem expiry_works_iff_shortRun :
    ∃ c, machine.Leads Machine.always ([], ⟨bareServer, .init⟩) c ∧
      c.1.length = 4 ∧ c.2.locks.manager.locks.size = 0 ∧ ∀ s ∈ c.visited, s.ExpiryWorks := by
  obtain ⟨c, hc, hp⟩ := Machine.exists_leads_of_exec machine Machine.always
    ([], ⟨bareServer, .init⟩) shortRun
    (fun c => decide (c.1.length = 4 ∧ c.2.locks.manager.locks.size = 0 ∧
      EveryStep (fun (before : LockServerRun) a _ => before.2.asksNumber a = true) c.1))
    (by decide +kernel)
  obtain ⟨hlen, hsize, hok⟩ := of_decide_eq_true hp
  exact ⟨c, hc, hlen, hsize, (expiry_works_iff hc).mpr hok⟩

/-- `c1` asks for `"soon"`, and a sweep comes. -/
def soonRun : List LockServerAction :=
  [.request (lockRequest "c1" (.str "soon")) 0, .background (.sweep 100)]

theorem timeout_stops_expiry :
    ∃ c, machine.Leads Machine.always ([], ⟨bareServer, .init⟩) c ∧
      c.2.locks.expiryRunning = false ∧
      (c.2.locks.manager.locks.values.any fun lock => !lock.ttl.isNumber) = true ∧
      ¬ c.2.ExpiryWorks := by
  obtain ⟨c, hc, hp⟩ := Machine.exists_leads_of_exec machine Machine.always
    ([], ⟨bareServer, .init⟩) soonRun
    (fun c => decide (c.2.locks.expiryRunning = false ∧
      (c.2.locks.manager.locks.values.any fun lock => !lock.ttl.isNumber) = true))
    (by decide +kernel)
  obtain ⟨hstopped, hbad⟩ := of_decide_eq_true hp
  refine ⟨c, hc, hstopped, hbad, ?_⟩
  intro hworks
  rw [hworks.running] at hstopped
  cases hstopped

end LockServer

end SyncSystem.Server
