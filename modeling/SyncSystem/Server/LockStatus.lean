/-
SyncSystem.Server.LockStatus — what the clients of a server are told about
its locks.

`lock_status`, `get_all_locks` and the `locks_held` of `get_status` read
one table at one moment each. Whatever requests and tasks came before,
the three tell the same: for a resource, the lock that the last event
about it recorded, if no later event took it away (`lock_queries_told`).
-/
import SyncSystem.Locks.Status
import SyncSystem.Server.LockExpiry
import SyncSystem.Server.Queries

namespace SyncSystem.Locks

open SyncSystem.Python

/-! ## Requests as events -/

namespace LockSystem

theorem replay_acquireCall {s : LockSystem Key Json} (hfiled : Filed s.manager.locks)
    (resource : Json) (lockType : LockType) (clientId timeout : Json) (now : Rat) :
    (s.acquireCall resource lockType clientId timeout now).2.foldl LockEvent.replay
        s.manager.locks =
      (s.acquireCall resource lockType clientId timeout now).1.manager.locks := by
  unfold acquireCall
  split
  · rfl
  · next r _ =>
    split
    · rfl
    · have htables : TableStep s (.acquire r lockType clientId timeout now) _ _ :=
        step_tables (s := s) rfl
      exact htables.replay hfiled

theorem replay_releaseCall (s : LockSystem Key Json) (resource clientId : Json) (now : Rat) :
    (s.releaseCall resource clientId now).2.foldl LockEvent.replay s.manager.locks =
      (s.releaseCall resource clientId now).1.manager.locks := by
  unfold releaseCall
  split
  · rfl
  · exact LockManager.replay_releaseLock ..

end LockSystem

end SyncSystem.Locks

namespace SyncSystem.Server

open SyncSystem.Python
open SyncSystem.Locks

theorem replay_serveLocks {s : LockSystem Key Json} (hfiled : Filed s.manager.locks) (now : Rat)
    (c : ServerCall) : (serveLocks s now c).2.foldl LockEvent.replay s.manager.locks =
      (serveLocks s now c).1.manager.locks := by
  cases c with
  | acquireLock => exact LockSystem.replay_acquireCall hfiled ..
  | releaseLock => exact LockSystem.replay_releaseCall ..
  | _ => rfl

namespace LockServer

theorem replay_step {s s' : LockServer} {a : LockServerAction} {out : List (LockEvent Key Json)}
    (hfiled : Filed s.locks.manager.locks) (h : s.step a = some (s', out)) :
    out.foldl LockEvent.replay s.locks.manager.locks = s'.locks.manager.locks := by
  cases a with
  | request request now =>
    simp only [step] at h
    split at h
    · cases h
      rfl
    · next c k _ =>
      cases h
      exact replay_serveLocks hfiled now c
  | background a =>
    have hown : ∀ {l : LockSystem Key Json}, s.locks.step a = some (l, out) →
        out.foldl LockEvent.replay s.locks.manager.locks = l.manager.locks :=
      fun hl => (LockSystem.step_tables hl).replay hfiled
    cases a with
    | acquire r ty c timeout now => cases h
    | release r c now => cases h
    | _ =>
      simp only [step, Option.map_eq_some_iff] at h
      obtain ⟨⟨l, events⟩, hl, heq⟩ := h
      cases heq
      exact hown hl

/-- The lock table of a server is the replay of what its lock manager has
done. -/
theorem locks_of_leads {server : NodeServer} {c : LockServerRun}
    (h : machine.Leads Machine.always ([], ⟨server, .init⟩) c) :
    c.track LockEvent.replay .empty = c.2.locks.manager.locks := by
  refine h.invariant
    (I := fun c => c.track LockEvent.replay .empty = c.2.locks.manager.locks) rfl ?_
  intro c a s' out _ ih _ hs
  have hempty : Filed (.empty : Dict Key (Lock Key Json)) := by
    intro r lock hlock
    cases hlock
  rw [Config.track_push, ih]
  refine replay_step ?_ hs
  rw [← ih]
  exact filed_foldl_replay hempty _

/-! ## The answers -/

variable {ω : Type}

/-- The calls that read the locks; the others do anything. -/
def lockQueries (other : Handler components ω) : Handler components (LockManager Key Json × ω)
  | .getLockStatus resource, s => (s.1.getLockStatus resource, s)
  | .getAllLocks, s => (.ok s.1.getAllLocks, s)
  | .locksHeld, s => (.ok s.1.locks.size, s)
  | c, s => ((other c s.2).1, (s.1, (other c s.2).2))

/-- What `process_request` returns, if it does not raise. -/
def response (other : Handler components ω) (s : LockServer) (rest : ω) (request : Obj) :
    Option Obj :=
  ((processRequest s.server request).run (lockQueries other) (s.locks.manager, rest)).1.reply

/-- The lock of a resource as the events of a run tell it. -/
def lastTold (c : LockServerRun) (r : Key) : Option (Lock Key Json) :=
  ((c.1.flatMap Event.output).reverse.findSome? (LockEvent.leaves r)).getD none

/-- The three queries tell of the locks that the events of the run do:
`entries` are these, each resource once. -/
structure QueriesTold (other : Handler components ω) (c : LockServerRun)
    (entries : List (Key × Lock Key Json)) : Prop where
  distinct : entries.Pairwise (fun e e' => (e.1 == e'.1) = false)
  told : ∀ r lock, lastTold c r = some lock ↔ ∃ e ∈ entries, (e.1 == r) = true ∧ e.2 = lock
  status : ∀ rest request, isFor "lock_status" request = true →
    c.2.response other rest request =
      (Obj.get request "resource" (.str "")).key.toOption.map fun r =>
        statusOf (Obj.get request "resource" (.str "")) (lastTold c r)
  all : ∀ rest request, isFor "get_all_locks" request = true →
    c.2.response other rest request = some [("locks", .arr (entries.map lockEntry))]
  held : ∀ rest request status, isFor "get_status" request = true →
    c.2.response other rest request = some status →
      Obj.get status "locks_held" .null = .int entries.length

theorem run_lockStatus (other : Handler components ω) (request : Obj) (m : LockManager Key Json)
    (rest : ω) : ((lockStatus request).run (lockQueries other) (m, rest)).1 =
      m.getLockStatus (Obj.get request "resource" (.str "")) := by
  refine (congrArg Prod.fst (run_invoke ..)).trans ?_
  simp only [lockQueries]
  cases m.getLockStatus (Obj.get request "resource" (.str "")) <;> rfl

theorem held_of_getStatus {other : Handler components ω} {s : NodeServer}
    {m : LockManager Key Json} {rest : ω} {status : Obj}
    (h : ((getStatus s).run (lockQueries other) (m, rest)).1 = .ok status) :
    Obj.get status "locks_held" .null = .int m.locks.size := by
  obtain ⟨queueStats, _, h⟩ := exists_of_invoke .getQueueStats h
  obtain ⟨cacheStats, _, h⟩ := exists_of_invoke .getCacheStats h
  cases h
  rfl

/-- **The lock queries tell the history.** In every state of a server,
whatever requests with whatever JSON values and whichever tasks came
before, `lock_status` answers with the lock that the last event about the
resource recorded, if none took it away since; `get_all_locks` lists
these locks, each resource once; and `locks_held` is their number. -/
theorem lock_queries_told (other : Handler components ω) {server : NodeServer} {c : LockServerRun}
    (h : machine.Leads Machine.always ([], ⟨server, .init⟩) c) :
    QueriesTold other c c.2.locks.manager.locks.entries := by
  have htold : ∀ r, lastTold c r = c.2.locks.manager.locks.get? r := by
    intro r
    rw [← locks_of_leads h, Config.track, LockEvent.get?_foldl_replay]
    rfl
  refine ⟨c.2.locks.manager.locks.distinct, ?_, ?_, ?_, ?_⟩
  · intro r lock
    rw [htold, Dict.get?_eq_some_iff]
  · intro rest request hfor
    obtain ⟨heq, haction⟩ := reply_of_isFor c.2.server hfor (lockQueries other)
      (c.2.locks.manager, rest)
    have hperform : performAction c.2.server request = lockStatus request := by
      simp [performAction, haction]
    rw [response, heq, hperform, run_lockStatus, LockManager.getLockStatus]
    simp only [htold]
    cases (Obj.get request "resource" (.str "")).key <;> rfl
  · intro rest request hfor
    obtain ⟨heq, haction⟩ := reply_of_isFor c.2.server hfor (lockQueries other)
      (c.2.locks.manager, rest)
    have hperform : performAction c.2.server request = allLocks := by
      simp [performAction, haction]
    rw [response, heq, hperform]
    rfl
  · intro rest request status hfor hstatus
    obtain ⟨heq, haction⟩ := reply_of_isFor c.2.server hfor (lockQueries other)
      (c.2.locks.manager, rest)
    have hperform : performAction c.2.server request = getStatus c.2.server := by
      simp [performAction, haction]
    rw [response, heq, hperform] at hstatus
    cases hrun : ((getStatus c.2.server).run (lockQueries other) (c.2.locks.manager, rest)).1 with
    | error e =>
      rw [hrun] at hstatus
      cases hstatus
    | ok answer =>
      rw [hrun] at hstatus
      cases hstatus
      exact held_of_getStatus hrun

/-- `c1` takes `r`, `c2` asks for it, and `c1` gives it back. -/
def handedRun : List LockServerAction :=
  [.request (lockRequest "c1" (.int 5)) 0, .request (lockRequest "c2" (.int 5)) 1,
   .request [("action", .str "lock_release"), ("resource", .str "r"), ("client_id", .str "c1")] 2]

def statusRequest : Obj := [("action", .str "lock_status"), ("resource", .str "r")]

theorem lock_queries_told_handedRun :
    ∃ c, machine.Leads Machine.always ([], ⟨bareServer, .init⟩) c ∧
      c.2.response (fun _ calls => (.error .typeError, calls)) () statusRequest =
        some [("resource", .str "r"), ("locked", .bool true), ("lock_type", .str "exclusive"),
          ("holder", .str "c2")] := by
  obtain ⟨c, hc, hp⟩ := Machine.exists_leads_of_exec machine Machine.always
    ([], ⟨bareServer, .init⟩) handedRun
    (fun c => (lastTold c ⟨.str "r", rfl⟩).any fun (lock : Lock Key Json) =>
      decide (lock.lockType = .exclusive) && lock.holderId.pyEq (.str "c2")) (by decide +kernel)
  obtain ⟨lock, hlast, hlock⟩ := (Option.any_eq_true _ _).mp hp
  obtain ⟨htype, hholder⟩ := Bool.and_eq_true_iff.mp hlock
  refine ⟨c, hc, ((lock_queries_told _ hc).status () statusRequest rfl).trans ?_⟩
  have hkey : (Obj.get statusRequest "resource" (.str "")).key = .ok ⟨.str "r", rfl⟩ := rfl
  rw [hkey]
  simp only [Except.toOption, Option.map_some, hlast, statusOf, of_decide_eq_true htype,
    pyEq_str_right.mp hholder]
  rfl

end LockServer

end SyncSystem.Server
