/-
SyncSystem.Server.HeartbeatNames — under which name a heartbeat arrives.

A detector keeps its records by the addresses in its list of peers, and
signs its own heartbeats with its node id. The receiver looks the sender
up in its records as it is signed, so a heartbeat counts for the record
of the sending server exactly where the id of that server is the address
the receiver has for it (`heard_iff`).
-/
import SyncSystem.Communication.Records
import SyncSystem.Server.Request

namespace SyncSystem.Communication.FailureDetector

open SyncSystem.Python

/-- The record of `peer` says alive and heard from at `now`, and neither
set has it. -/
structure Hears (d : FailureDetector) (peer : String) (now : Rat) : Prop where
  record : ∃ status, d.nodeStatus.get? peer = some status ∧ status.isAlive = true ∧
    status.lastHeartbeat = now
  suspected : peer ∉ d.suspectedNodes
  dead : peer ∉ d.deadNodes

variable {d : FailureDetector} {peer : String} {now : Rat}

theorem hears_markAlive (h : d.nodeStatus.contains peer = true) :
    (d.markAlive peer now).Hears peer now := by
  obtain ⟨status, hget⟩ := Option.isSome_iff_exists.mp h
  refine ⟨⟨_, get?_markAlive hget, rfl, rfl⟩, ?_, ?_⟩
  · simp [suspectedNodes_markAlive hget]
  · simp [deadNodes_markAlive hget]

/-- Marking another peer alive makes no difference. -/
theorem hears_markAlive_ne {other : String} (hne : other ≠ peer) :
    (d.markAlive other now).Hears peer now ↔ d.Hears peer now := by
  have hrecord : (d.markAlive other now).nodeStatus.get? peer = d.nodeStatus.get? peer :=
    get?_markAlive_ne hne
  have hsuspected : peer ∈ (d.markAlive other now).suspectedNodes ↔ peer ∈ d.suspectedNodes := by
    unfold markAlive
    split <;> simp [Ne.symm hne]
  have hdead : peer ∈ (d.markAlive other now).deadNodes ↔ peer ∈ d.deadNodes := by
    unfold markAlive
    split <;> simp [Ne.symm hne]
  constructor
  · intro h
    exact ⟨hrecord ▸ h.record, mt hsuspected.mpr h.suspected, mt hdead.mpr h.dead⟩
  · intro h
    exact ⟨hrecord.symm ▸ h.record, mt hsuspected.mp h.suspected, mt hdead.mp h.dead⟩

/-- A detector has a record of each of its peers, in any run. -/
theorem contains_of_leads {nodeId : String} {peers : List String} {timeout start : Rat}
    {c : HeartbeatRun} (h : HeartbeatSystem.machine.Leads Machine.always
      ([], .init nodeId peers timeout start) c) (hp : peer ∈ c.2.detector.peers) :
    c.2.detector.nodeStatus.contains peer = true := by
  have halive := allAlive_of_leads h peer hp
  by_contra hc
  have hnone : c.2.detector.nodeStatus.get? peer = none := by simpa [Dict.contains] using hc
  simp [isAlive, hnone] at halive

end SyncSystem.Communication.FailureDetector

namespace SyncSystem.Server

open SyncSystem.Python
open SyncSystem.Communication
open SyncSystem.Raft (peerPort)

/-- A heartbeat goes past the token check to the failure detector. -/
theorem handleRequest_heartbeat (keys : Keys) (a b : NodeServer) (now : Rat) :
    handleRequest keys a now b.failureDetector.heartbeatMsg = .done
      ⟨{ a with
          failureDetector := a.failureDetector.markAlive b.failureDetector.nodeId now },
        [], some [("fd_ok", .bool true)]⟩ := by
  rfl

/-- After `a` has processed a heartbeat of `b`, the record it has under
`addr` says so. -/
def HeardAs (keys : Keys) (a b : NodeServer) (addr : String) (now : Rat) : Prop :=
  ∃ served, handleRequest keys a now b.failureDetector.heartbeatMsg = .done served ∧
    served.server.failureDetector.Hears addr now

/-- **A heartbeat of `b` counts for the record under `addr`** exactly if
there is one and `addr` is the node id of `b`, or if the record says so
already. -/
theorem heardAs_iff (keys : Keys) (a b : NodeServer) (addr : String) (now : Rat) :
    HeardAs keys a b addr now ↔
      (a.failureDetector.nodeStatus.contains addr = true ∧ b.failureDetector.nodeId = addr) ∨
        a.failureDetector.Hears addr now := by
  have hmarked : HeardAs keys a b addr now ↔
      (a.failureDetector.markAlive b.failureDetector.nodeId now).Hears addr now := by
    simp [HeardAs, handleRequest_heartbeat]
  rw [hmarked]
  by_cases hname : b.failureDetector.nodeId = addr
  · subst hname
    constructor
    · intro h
      cases hknown : a.failureDetector.nodeStatus.contains b.failureDetector.nodeId with
      | true => exact Or.inl ⟨rfl, rfl⟩
      | false =>
        right
        rwa [FailureDetector.markAlive_unknown (by simpa [Dict.contains] using hknown)] at h
    · intro h
      cases hknown : a.failureDetector.nodeStatus.contains b.failureDetector.nodeId with
      | true => exact FailureDetector.hears_markAlive hknown
      | false =>
        rw [FailureDetector.markAlive_unknown (by simpa [Dict.contains] using hknown)]
        exact h.resolve_left (by simp [hknown])
  · rw [FailureDetector.hears_markAlive_ne hname]
    simp [hname]

/-- The peers of a server without `PEERS`. -/
def defaultPeers (port : Nat) : List String :=
  ([8001, 8002, 8003].filter (· ≠ port)).map fun p => "127.0.0.1:" ++ toString p

/-- `NodeServer.__init__` without `PEERS`. -/
def NodeServer.init (nodeId : String) (port : Nat) (nodeType : String) (now : Rat) : NodeServer where
  nodeId := nodeId
  nodeType := nodeType
  raft := .init nodeId (defaultPeers port) port
  failureDetector := .init nodeId (defaultPeers port) 30 now

/-- Two servers as they are started. -/
theorem heartbeat_of_node_2 :
    let a := NodeServer.init "node_1" 8001 "lock_manager" 0
    let b := NodeServer.init "node_2" 8002 "lock_manager" 0
    let keys : Keys := ⟨"admin", "producer", "consumer"⟩
    "127.0.0.1:8002" ∈ a.failureDetector.peers ∧ peerPort "127.0.0.1:8002" = some 8002 ∧
      "127.0.0.1:8001" ∈ b.failureDetector.peers ∧ peerPort "127.0.0.1:8001" = some 8001 ∧
      ¬ HeardAs keys a b "127.0.0.1:8002" 10 := by
  intro a b keys
  refine ⟨by decide, by decide, by decide, by decide, ?_⟩
  intro h
  obtain ⟨served, hserved, hears⟩ := h
  rw [handleRequest_heartbeat] at hserved
  cases hserved
  obtain ⟨status, hget, _, hnow⟩ := hears.record
  have hstart : ((a.failureDetector.markAlive "node_2" 10).nodeStatus.get? "127.0.0.1:8002").map
      NodeStatus.lastHeartbeat = some 0 := by decide +kernel
  have hten : some status.lastHeartbeat = some 0 := by
    rw [← hstart]
    exact (congrArg (Option.map NodeStatus.lastHeartbeat) hget).symm
  rw [hnow] at hten
  exact absurd hten (by decide)

end SyncSystem.Server
