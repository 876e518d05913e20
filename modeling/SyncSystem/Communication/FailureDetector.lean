/-
SyncSystem.Communication.FailureDetector — the records a node keeps about
its peers.

Translated from `src/communication/failure_detector.py`: the constructor,
what a heartbeat does, the reset and the queries. The rounds of
heartbeats that the node sends itself are in `Communication.Heartbeats`.
-/
import SyncSystem.Python.Json
import SyncSystem.Python.Dict

namespace SyncSystem.Communication

open SyncSystem.Python

structure NodeStatus where
  nodeId : String
  isAlive : Bool
  lastHeartbeat : Rat
  consecutiveFailures : Nat
  isSuspected : Bool

structure FailureDetector where
  nodeId : String
  peers : List String
  timeout : Rat
  nodeStatus : Dict String NodeStatus
  suspectedNodes : List String
  deadNodes : List String

namespace FailureDetector

/-- `FailureDetector.__init__`: all peers are alive. -/
def init (nodeId : String) (peers : List String) (timeout now : Rat) : FailureDetector where
  nodeId := nodeId
  peers := peers
  timeout := timeout
  nodeStatus := peers.foldl (fun d peer => d.set peer ⟨peer, true, now, 0, false⟩) .empty
  suspectedNodes := []
  deadNodes := []

/-- The message of `_send_heartbeat`. -/
def heartbeatMsg (d : FailureDetector) : Obj :=
  [("type", .str "fd_heartbeat"), ("sender", .str d.nodeId)]

/-- `_mark_alive`. -/
def markAlive (d : FailureDetector) (peer : String) (now : Rat) : FailureDetector :=
  match d.nodeStatus.get? peer with
  | none => d
  | some status =>
      { d with
        nodeStatus := d.nodeStatus.set peer { status with
          isAlive := true
          lastHeartbeat := now
          consecutiveFailures := 0
          isSuspected := false }
        suspectedNodes := d.suspectedNodes.filter (· ≠ peer)
        deadNodes := d.deadNodes.filter (· ≠ peer) }

/-- `handle_heartbeat`. A list or a dict is no key; what is not a string
is not a peer. -/
def handleHeartbeat (d : FailureDetector) (sender : Json) (now : Rat) :
    Except PyError FailureDetector :=
  match sender with
  | .str peer => .ok (d.markAlive peer now)
  | .arr _ => .error .typeError
  | .obj _ => .error .typeError
  | _ => .ok d

/-- `is_alive`. -/
def isAlive (d : FailureDetector) (peer : String) : Bool :=
  ((d.nodeStatus.get? peer).map NodeStatus.isAlive).getD false

/-- `is_suspected`. -/
def isSuspected (d : FailureDetector) (peer : String) : Bool := decide (peer ∈ d.suspectedNodes)

/-- `is_dead`. -/
def isDead (d : FailureDetector) (peer : String) : Bool := decide (peer ∈ d.deadNodes)

/-- `reset_dead_node`. -/
def resetDeadNode (d : FailureDetector) (peer : String) : FailureDetector :=
  let d' := { d with deadNodes := d.deadNodes.filter (· ≠ peer) }
  match d.nodeStatus.get? peer with
  | none => d'
  | some status =>
      { d' with nodeStatus := d.nodeStatus.set peer { status with
          isAlive := true
          consecutiveFailures := 0
          isSuspected := false } }

/-- `get_quorum`. -/
def getQuorum (d : FailureDetector) (required : Option Int) : List String :=
  let alive := d.peers.filter d.isAlive
  if (alive.length : Int) ≥ required.getD ((d.peers.length + 1) / 2 : Nat) then alive else []

/-- `get_all_status`. -/
def getAllStatus (d : FailureDetector) : Obj :=
  d.nodeStatus.entries.map fun e => (e.1, .obj
    [("is_alive", .bool e.2.isAlive), ("last_heartbeat", .float e.2.lastHeartbeat),
     ("is_suspected", .bool e.2.isSuspected)])

/-- `get_stats`. -/
def getStats (d : FailureDetector) : Obj :=
  [("node_id", .str d.nodeId),
   ("total_peers", .int d.peers.length),
   ("alive", .int (d.peers.filter d.isAlive).length),
   ("suspected", .int d.suspectedNodes.length),
   ("dead", .int d.deadNodes.length)]

/-- Every peer starts with the same record. -/
theorem get?_init (nodeId : String) (peers : List String) (timeout now : Rat) (p : String) :
    (init nodeId peers timeout now).nodeStatus.get? p =
      if p ∈ peers then some ⟨p, true, now, 0, false⟩ else none := by
  have hfold : ∀ (ps : List String) (table : Dict String NodeStatus),
      (ps.foldl (fun d peer => d.set peer ⟨peer, true, now, 0, false⟩) table).get? p =
        if p ∈ ps then some ⟨p, true, now, 0, false⟩ else table.get? p := by
    intro ps
    induction ps with
    | nil => intro table; rfl
    | cons q rest ih =>
      intro table
      rw [List.foldl_cons, ih, Dict.get?_set]
      by_cases hrest : p ∈ rest
      · simp [hrest]
      · by_cases hq : q = p
        · simp [hq]
        · simp [hrest, hq, Ne.symm hq]
  exact hfold peers .empty

end FailureDetector

end SyncSystem.Communication
