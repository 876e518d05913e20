/-
SyncSystem.Locks.DeadlockDetection — what the deadlock detector can see.

Translated from `_deadlock_detector` and `_detect_cycles` in
`src/nodes/lock_manager.py`. The detector looks for pairs in
`wait_graph`: what it returns are closed walks of the graph, but a cycle
without a pair is not found (`sound_and_complete_iff`).

The graph is not kept: no method writes `wait_graph`, so it is empty for
ever (`waitGraph_of_leads`), whoever waits for whom. The detector finds
no deadlock (`deadlocks_undetected`) and resolves none
(`deadlockPass_idle`).
-/
import SyncSystem.Graphs.Walks
import SyncSystem.Locks.Waiting
import Mathlib.Data.List.Cycle

namespace SyncSystem.Locks

open SyncSystem.Python
open SyncSystem.Graphs

variable {ρ κ : Type} [DecidableEq ρ] [DecidableEq κ]

/-! ## The detector -/

namespace LockManager

/-- `self.wait_graph.get(client, [])`. -/
def waitsOf (m : LockManager ρ κ) (client : κ) : List κ := (m.waitGraph.get? client).getD []

/-- `_detect_cycles`. -/
def detectCycles (m : LockManager ρ κ) : List (List κ) :=
  m.waitGraph.keys.flatMap fun waiter =>
    ((m.waitsOf waiter).filter fun holder =>
      m.waitGraph.contains holder && (m.waitsOf holder).contains waiter).map fun holder =>
    [waiter, holder, waiter]

/-- The body of the loop of `_deadlock_detector`: each cycle is resolved. -/
def deadlockPass (m : LockManager ρ κ) (now : Rat) : LockManager ρ κ × List (LockEvent ρ κ) :=
  m.detectCycles.foldl (fun acc cycle =>
    match cycle with
    | [] => acc
    | victim :: _ =>
        let (m', events) := acc.1.resolveDeadlock victim now
        (m', acc.2 ++ events)) (m, [])

/-! ## Cycles of the graph -/

/-- An edge of `wait_graph`. -/
def WaitEdge (m : LockManager ρ κ) (a b : κ) : Prop :=
  ∃ holders, m.waitGraph.get? a = some holders ∧ b ∈ holders

theorem mem_waitsOf {m : LockManager ρ κ} {a b : κ} : b ∈ m.waitsOf a ↔ m.WaitEdge a b := by
  unfold waitsOf WaitEdge
  cases m.waitGraph.get? a <;> simp

theorem WaitEdge.mem_keys {m : LockManager ρ κ} {a b : κ} (h : m.WaitEdge a b) :
    a ∈ m.waitGraph.keys := by
  obtain ⟨holders, hget, _⟩ := h
  exact Dict.mem_keys.mpr ⟨holders, hget⟩

/-- The detector returns the pairs of the graph. -/
theorem mem_detectCycles {m : LockManager ρ κ} {walk : List κ} :
    walk ∈ m.detectCycles ↔
      ∃ a b, walk = [a, b, a] ∧ m.WaitEdge a b ∧ m.WaitEdge b a := by
  simp only [detectCycles, List.mem_flatMap, List.mem_map, List.mem_filter, Bool.and_eq_true,
    List.contains_iff_mem, mem_waitsOf]
  constructor
  · intro ⟨a, _, b, ⟨hab, _, hba⟩, hwalk⟩
    exact ⟨a, b, hwalk.symm, hab, hba⟩
  · intro ⟨a, b, hwalk, hab, hba⟩
    have hkey : m.waitGraph.contains b = true := by
      obtain ⟨holders, hget, _⟩ := hba
      exact Dict.contains_eq_true.mpr ⟨holders, hget⟩
    exact ⟨a, hab.mem_keys, b, ⟨hab, hkey, hba⟩, hwalk.symm⟩

theorem detectCycles_ne_nil {m : LockManager ρ κ} :
    m.detectCycles ≠ [] ↔ ∃ a b, m.WaitEdge a b ∧ m.WaitEdge b a := by
  constructor
  · intro hne
    obtain ⟨walk, hwalk⟩ := List.exists_mem_of_ne_nil _ hne
    obtain ⟨a, b, _, hab, hba⟩ := mem_detectCycles.mp hwalk
    exact ⟨a, b, hab, hba⟩
  · intro ⟨a, b, hab, hba⟩
    exact List.ne_nil_of_mem (mem_detectCycles.mpr ⟨a, b, rfl, hab, hba⟩)

theorem closedWalk_of_detected {m : LockManager ρ κ} {walk : List κ}
    (h : walk ∈ m.detectCycles) : ClosedWalk m.WaitEdge walk := by
  obtain ⟨a, b, rfl, hab, hba⟩ := mem_detectCycles.mp h
  exact closedWalk_pair hab hba

/-- **Cycle detection is sound and complete** exactly on the graphs that
have no cycle at all or one of length one or two. -/
theorem sound_and_complete_iff (m : LockManager ρ κ) :
    ((m.detectCycles ≠ [] ↔ HasCycle m.WaitEdge) ∧
        ∀ walk ∈ m.detectCycles, ClosedWalk m.WaitEdge walk) ↔
      (HasCycle m.WaitEdge → ∃ a b, m.WaitEdge a b ∧ m.WaitEdge b a) := by
  constructor
  · intro ⟨hcomplete, _⟩ hcycle
    exact detectCycles_ne_nil.mp (hcomplete.mpr hcycle)
  · intro hpair
    refine ⟨⟨?_, fun hcycle => detectCycles_ne_nil.mpr (hpair hcycle)⟩,
      fun walk hwalk => closedWalk_of_detected hwalk⟩
    intro hne
    obtain ⟨a, b, hab, hba⟩ := detectCycles_ne_nil.mp hne
    exact (closedWalk_pair hab hba).hasCycle

end LockManager

/-- Three clients that wait for each other in a ring. -/
def ringOfThree : LockManager String String :=
  { (LockManager.init : LockManager String String) with
    waitGraph := ((Dict.empty.set "c1" ["c2"]).set "c2" ["c3"]).set "c3" ["c1"] }

theorem ring_not_found : HasCycle ringOfThree.WaitEdge ∧ ringOfThree.detectCycles = [] := by
  have h₁ : ringOfThree.WaitEdge "c1" "c2" := ⟨["c2"], by decide, by decide⟩
  have h₂ : ringOfThree.WaitEdge "c2" "c3" := ⟨["c3"], by decide, by decide⟩
  have h₃ : ringOfThree.WaitEdge "c3" "c1" := ⟨["c1"], by decide, by decide⟩
  exact ⟨⟨"c1", .head h₁ (.head h₂ (.single h₃))⟩, by decide⟩

/-! ## The graph is not kept -/

namespace LockManager

@[simp] theorem waitGraph_dropWaiter (m : LockManager ρ κ) (q : Request ρ κ) :
    (m.dropWaiter q).waitGraph = m.waitGraph := by
  unfold dropWaiter
  split <;> rfl

@[simp] theorem waitGraph_processWaiting (m : LockManager ρ κ) (r : ρ) (now : Rat) :
    (m.processWaiting r now).1.waitGraph = m.waitGraph := by
  unfold processWaiting
  split <;> rfl

@[simp] theorem waitGraph_takeAway (m : LockManager ρ κ) (event : Lock ρ κ → LockEvent ρ κ)
    (now : Rat) (rids : List ρ) : (m.takeAway event now rids).1.waitGraph = m.waitGraph := by
  refine takeAway_keeps (P := fun m' => m'.waitGraph = m.waitGraph) ?_ rfl event rids
  intro m' r h
  rw [waitGraph_processWaiting]
  exact h

@[simp] theorem waitGraph_tryAcquire (m : LockManager ρ κ) (q : Request ρ κ) (now : Rat) :
    (m.tryAcquire q now).manager.waitGraph = m.waitGraph := by
  unfold tryAcquire
  split
  · rfl
  · split
    · rfl
    · split <;> rfl

@[simp] theorem waitGraph_poll (m : LockManager ρ κ) (q : Request ρ κ) (now : Rat) :
    (m.poll q now).manager.waitGraph = m.waitGraph := by
  unfold poll
  split
  · rw [waitGraph_dropWaiter]
    rfl
  · split <;> rfl

@[simp] theorem waitGraph_releaseLock (m : LockManager ρ κ) (r : ρ) (c : κ) (now : Rat) :
    (m.releaseLock r c now).1.waitGraph = m.waitGraph := by
  unfold releaseLock
  split
  · rfl
  · split
    · rfl
    · exact waitGraph_processWaiting ..

end LockManager

/-- No step writes `wait_graph`. -/
theorem LockSystem.waitGraph_step {s s' : LockSystem ρ κ} {a : LockAction ρ κ}
    {out : List (LockEvent ρ κ)} (hs : s.step a = some (s', out)) :
    s'.manager.waitGraph = s.manager.waitGraph := by
  have htables := step_tables hs
  generalize s'.manager = m' at htables ⊢
  cases htables with
  | resolved victim now => exact LockManager.waitGraph_takeAway ..
  | _ => simp

theorem waitGraph_of_leads {c : LockRun ρ κ}
    (h : LockSystem.machine.Leads Machine.always ([], LockSystem.init) c) :
    c.2.manager.waitGraph = .empty := by
  refine h.invariant (I := fun c => c.2.manager.waitGraph = .empty) rfl ?_
  intro c a s' out _ ih _ hs
  exact (LockSystem.waitGraph_step hs).trans ih

theorem detectCycles_of_leads {c : LockRun ρ κ}
    (h : LockSystem.machine.Leads Machine.always ([], LockSystem.init) c) :
    c.2.manager.detectCycles = [] := by
  rw [LockManager.detectCycles, waitGraph_of_leads h]
  rfl

/-- A pass of the detector resolves nothing. -/
theorem deadlockPass_idle {c : LockRun ρ κ}
    (h : LockSystem.machine.Leads Machine.always ([], LockSystem.init) c) (now : Rat) :
    c.2.manager.deadlockPass now = (c.2.manager, []) := by
  rw [LockManager.deadlockPass, detectCycles_of_leads h]
  rfl

/-! ## Deadlocks -/

/-- `a` has an entry in the queue of a resource that `b` holds. -/
def LockManager.WaitsFor (m : LockManager ρ κ) (a b : κ) : Prop :=
  ∃ r, (∃ w ∈ m.waiters r, w.clientId = a) ∧ m.holder r = some b

/-- Two or more different clients, each of which waits for the next one
and the last for the first. -/
structure Deadlock (m : LockManager ρ κ) (clients : Cycle κ) : Prop where
  distinct : clients.Nodup
  several : clients.Nontrivial
  waits : clients.Chain m.WaitsFor

/-- `_detect_cycles` returns a cycle made of these clients. -/
def Detected (m : LockManager ρ κ) (clients : Cycle κ) : Prop :=
  ∃ walk ∈ m.detectCycles, ∀ x ∈ walk, x ∈ clients

/-- **No deadlock is visible to the detector**, in any state of any run. -/
theorem deadlocks_undetected {c : LockRun ρ κ}
    (h : LockSystem.machine.Leads Machine.always ([], LockSystem.init) c) :
    ∀ clients, Deadlock c.2.manager clients → ¬ Detected c.2.manager clients := by
  intro clients _ ⟨walk, hwalk, _⟩
  rw [detectCycles_of_leads h] at hwalk
  cases hwalk

/-- Each of three clients has a resource and asks for that of the next. -/
def ringRun : List (LockAction String String) :=
  [.acquire "r1" .exclusive "c1" (.int 30) 0, .acquire "r2" .exclusive "c2" (.int 30) 0,
   .acquire "r3" .exclusive "c3" (.int 30) 0, .acquire "r2" .exclusive "c1" (.int 30) 1,
   .acquire "r3" .exclusive "c2" (.int 30) 1, .acquire "r1" .exclusive "c3" (.int 30) 1]

theorem deadlocks_undetected_ringRun :
    ∃ c : LockRun String String,
      LockSystem.machine.Leads Machine.always ([], LockSystem.init) c ∧
      Deadlock c.2.manager (["c1", "c2", "c3"] : List String) ∧
      ¬ Detected c.2.manager (["c1", "c2", "c3"] : List String) := by
  obtain ⟨c, hc, hp⟩ := Machine.exists_leads_of_exec LockSystem.machine Machine.always
    ([], LockSystem.init) ringRun
    (fun c => decide (
      ((∃ w ∈ c.2.manager.waiters "r2", w.clientId = "c1") ∧ c.2.manager.holder "r2" = some "c2") ∧
      ((∃ w ∈ c.2.manager.waiters "r3", w.clientId = "c2") ∧ c.2.manager.holder "r3" = some "c3") ∧
      (∃ w ∈ c.2.manager.waiters "r1", w.clientId = "c3") ∧ c.2.manager.holder "r1" = some "c1"))
    (by decide +kernel)
  obtain ⟨h₁, h₂, h₃⟩ := of_decide_eq_true hp
  have hdeadlock : Deadlock c.2.manager (["c1", "c2", "c3"] : List String) := by
    refine ⟨by decide, ⟨"c1", "c2", by decide, by decide, by decide⟩, ?_⟩
    rw [Cycle.chain_coe_cons]
    simpa using ⟨⟨_, h₁⟩, ⟨_, h₂⟩, ⟨_, h₃⟩⟩
  exact ⟨c, hc, hdeadlock, deadlocks_undetected hc _ hdeadlock⟩

/-- `c1` and `c2` have a resource each and ask for the other one. -/
def crossRun : List (LockAction String String) :=
  [.acquire "r1" .exclusive "c1" (.int 30) 0, .acquire "r2" .exclusive "c2" (.int 30) 0,
   .acquire "r2" .exclusive "c1" (.int 30) 1, .acquire "r1" .exclusive "c2" (.int 30) 1]

theorem cross_undetected :
    ∃ c : LockRun String String,
      LockSystem.machine.Leads Machine.always ([], LockSystem.init) c ∧
      Deadlock c.2.manager (["c1", "c2"] : List String) ∧ c.2.manager.detectCycles = [] ∧
      ¬ Detected c.2.manager (["c1", "c2"] : List String) := by
  obtain ⟨c, hc, hp⟩ := Machine.exists_leads_of_exec LockSystem.machine Machine.always
    ([], LockSystem.init) crossRun
    (fun c => decide (
      ((∃ w ∈ c.2.manager.waiters "r2", w.clientId = "c1") ∧ c.2.manager.holder "r2" = some "c2") ∧
      ((∃ w ∈ c.2.manager.waiters "r1", w.clientId = "c2") ∧ c.2.manager.holder "r1" = some "c1") ∧
      c.2.manager.detectCycles = []))
    (by decide +kernel)
  obtain ⟨h₁, h₂, hnone⟩ := of_decide_eq_true hp
  refine ⟨c, hc, ⟨by decide, ⟨"c1", "c2", by decide, by decide, by decide⟩, ?_⟩, hnone, ?_⟩
  · rw [Cycle.chain_coe_cons]
    simpa using ⟨⟨_, h₁⟩, ⟨_, h₂⟩⟩
  · intro ⟨walk, hwalk, _⟩
    rw [hnone] at hwalk
    cases hwalk

end SyncSystem.Locks
