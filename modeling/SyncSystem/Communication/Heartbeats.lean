/-
SyncSystem.Communication.Heartbeats — a failure detector over time.

The sender wakes every `heartbeat_interval` seconds and starts one
`_send_heartbeat` task for each peer; a task gets through and marks its
peer alive, or fails and is forgotten. Heartbeats of the peers come in,
and a peer can be reset. The times at which all this happens are free.

A peer that has been silent for longer than `timeout` should be reported
as not alive (`Detects`). Nothing in the class compares a time with
`timeout` or clears `is_alive`, so every peer is alive for ever
(`allAlive_of_leads`), and the reports are right exactly as long as no
peer is overdue (`detects_iff`).
-/
import SyncSystem.Communication.FailureDetector
import SyncSystem.Machine.Runs

namespace SyncSystem.Communication

open SyncSystem.Python

structure HeartbeatSystem where
  detector : FailureDetector
  running : Bool
  /-- The peers of the `_send_heartbeat` tasks in progress. -/
  sends : List String

inductive HeartbeatAction where
  | start
  | stop
  /-- A round of `_heartbeat_sender`. -/
  | round (now : Rat)
  /-- The `k`-th task in progress gets its heartbeat through. -/
  | sent (k : Nat) (now : Rat)
  /-- The `k`-th task in progress fails. -/
  | failed (k : Nat)
  | receive (sender : Json) (now : Rat)
  | reset (peer : String)

namespace HeartbeatSystem

def init (nodeId : String) (peers : List String) (timeout now : Rat) : HeartbeatSystem :=
  ⟨.init nodeId peers timeout now, false, []⟩

def step (s : HeartbeatSystem) : HeartbeatAction → Option (HeartbeatSystem × Unit)
  | .start => some ({ s with running := s.running || !s.detector.peers.isEmpty }, ())
  | .stop => some ({ s with running := false }, ())
  | .round _ =>
      if s.running then some ({ s with sends := s.sends ++ s.detector.peers }, ()) else none
  | .sent k now =>
      s.sends[k]?.map fun peer =>
        ({ s with detector := s.detector.markAlive peer now, sends := s.sends.eraseIdx k }, ())
  | .failed k => s.sends[k]?.map fun _ => ({ s with sends := s.sends.eraseIdx k }, ())
  | .receive sender now =>
      match s.detector.handleHeartbeat sender now with
      | .ok detector => some ({ s with detector := detector }, ())
      | .error _ => some (s, ())
  | .reset peer => some ({ s with detector := s.detector.resetDeadNode peer }, ())

def machine : Machine HeartbeatSystem HeartbeatAction Unit := ⟨step⟩

end HeartbeatSystem

abbrev HeartbeatRun := Config HeartbeatSystem HeartbeatAction Unit

/-! ## What should be reported -/

namespace FailureDetector

/-- The last heartbeat of `peer` is more than `timeout` old. -/
def overdue (d : FailureDetector) (peer : String) (now : Rat) : Bool :=
  (d.nodeStatus.get? peer).any (fun status => now - status.lastHeartbeat > d.timeout)

/-- Peers that are overdue are reported as not alive, and not counted. -/
structure Detects (d : FailureDetector) (now : Rat) : Prop where
  reported : ∀ p ∈ d.peers, d.overdue p now = true → d.isAlive p = false
  stats : Obj.get d.getStats "alive" .null =
    .int (d.peers.filter (fun p => d.isAlive p && !d.overdue p now)).length
  quorum : ∀ p ∈ d.peers, d.overdue p now = true → ∀ required, p ∉ d.getQuorum required

/-- Every peer has a record, and it says alive. -/
def AllAlive (d : FailureDetector) : Prop := ∀ p ∈ d.peers, d.isAlive p = true

theorem isAlive_set (d : FailureDetector) (peer : String) (status : NodeStatus) (p : String) :
    { d with nodeStatus := d.nodeStatus.set peer status }.isAlive p =
      if peer = p then status.isAlive else d.isAlive p := by
  by_cases h : peer = p <;> simp [isAlive, Dict.get?_set, h]

theorem allAlive_init (nodeId : String) (peers : List String) (timeout now : Rat) :
    AllAlive (.init nodeId peers timeout now) := by
  intro p hp
  have hin : p ∈ peers := hp
  simp [isAlive, get?_init, hin]

/-- Marking a peer alive makes no other one less so. -/
theorem AllAlive.markAlive {d : FailureDetector} (h : d.AllAlive) (peer : String) (now : Rat) :
    (d.markAlive peer now).AllAlive := by
  unfold FailureDetector.markAlive
  split
  · exact h
  · next status _ =>
    intro p hp
    have hset := d.isAlive_set peer { status with
      isAlive := true, lastHeartbeat := now, consecutiveFailures := 0, isSuspected := false } p
    refine hset.trans ?_
    split
    · rfl
    · exact h p hp

theorem AllAlive.resetDeadNode {d : FailureDetector} (h : d.AllAlive) (peer : String) :
    (d.resetDeadNode peer).AllAlive := by
  unfold FailureDetector.resetDeadNode
  split
  · exact h
  · next status _ =>
    intro p hp
    have hset := d.isAlive_set peer { status with
      isAlive := true, consecutiveFailures := 0, isSuspected := false } p
    refine hset.trans ?_
    split
    · rfl
    · exact h p hp

/-- A heartbeat marks its sender alive, or does nothing. -/
theorem handleHeartbeat_cases {d d' : FailureDetector} {sender : Json} {now : Rat}
    (hd : d.handleHeartbeat sender now = .ok d') :
    d' = d ∨ ∃ peer, d' = d.markAlive peer now := by
  unfold FailureDetector.handleHeartbeat at hd
  split at hd
  · next peer => cases hd; exact Or.inr ⟨peer, rfl⟩
  · cases hd
  · cases hd
  · cases hd; exact Or.inl rfl

/-- Where every peer is alive, the reports are right if no peer is overdue. -/
theorem AllAlive.detects {d : FailureDetector} (h : d.AllAlive) (now : Rat) :
    d.Detects now ↔ ∀ p ∈ d.peers, d.overdue p now = false := by
  constructor
  · intro hdetects p hp
    by_contra hc
    have hdead := hdetects.reported p hp (by simpa using hc)
    rw [h p hp] at hdead
    cases hdead
  · intro hnone
    have hcount : d.peers.filter d.isAlive =
        d.peers.filter (fun p => d.isAlive p && !d.overdue p now) := by
      refine List.filter_congr ?_
      intro p hp
      simp [hnone p hp]
    constructor
    · intro p hp hover
      rw [hnone p hp] at hover
      cases hover
    · rw [← hcount]
      rfl
    · intro p hp hover
      rw [hnone p hp] at hover
      cases hover

end FailureDetector

/-! ## Runs -/

/-- What a step can do to the detector. -/
theorem detector_step {s s' : HeartbeatSystem} {a : HeartbeatAction} {u : Unit}
    (hs : s.step a = some (s', u)) :
    s'.detector = s.detector ∨ (∃ peer now, s'.detector = s.detector.markAlive peer now) ∨
      ∃ peer, s'.detector = s.detector.resetDeadNode peer := by
  cases a with
  | start => cases hs; exact Or.inl rfl
  | stop => cases hs; exact Or.inl rfl
  | round now =>
    simp only [HeartbeatSystem.step] at hs
    split at hs
    · cases hs; exact Or.inl rfl
    · cases hs
  | sent k now =>
    obtain ⟨peer, _, heq⟩ := Option.map_eq_some_iff.mp hs
    cases heq
    exact Or.inr (Or.inl ⟨peer, now, rfl⟩)
  | failed k =>
    obtain ⟨peer, _, heq⟩ := Option.map_eq_some_iff.mp hs
    cases heq
    exact Or.inl rfl
  | receive sender now =>
    simp only [HeartbeatSystem.step] at hs
    split at hs
    · next detector hd =>
      cases hs
      cases FailureDetector.handleHeartbeat_cases hd with
      | inl h => exact Or.inl h
      | inr h =>
        obtain ⟨peer, h⟩ := h
        exact Or.inr (Or.inl ⟨peer, now, h⟩)
    · cases hs; exact Or.inl rfl
  | reset peer => cases hs; exact Or.inr (Or.inr ⟨peer, rfl⟩)

theorem allAlive_step {s s' : HeartbeatSystem} {a : HeartbeatAction} {u : Unit}
    (h : s.detector.AllAlive) (hs : s.step a = some (s', u)) : s'.detector.AllAlive := by
  rcases detector_step hs with heq | ⟨peer, now, heq⟩ | ⟨peer, heq⟩ <;> rw [heq]
  · exact h
  · exact h.markAlive peer now
  · exact h.resetDeadNode peer

theorem allAlive_of_leads {nodeId : String} {peers : List String} {timeout start : Rat}
    {c : HeartbeatRun} (h : HeartbeatSystem.machine.Leads Machine.always
      ([], .init nodeId peers timeout start) c) : c.2.detector.AllAlive :=
  h.invariant (I := fun c => c.2.detector.AllAlive)
    (FailureDetector.allAlive_init nodeId peers timeout start)
    (fun _ _ _ _ _ ih _ hs => allAlive_step ih hs)

/-- **The failure detector detects**, at any time in any run and so after
every round, exactly if no peer is overdue then. -/
theorem detects_iff {nodeId : String} {peers : List String} {timeout start : Rat}
    {c : HeartbeatRun} (h : HeartbeatSystem.machine.Leads Machine.always
      ([], .init nodeId peers timeout start) c) (now : Rat) :
    c.2.detector.Detects now ↔ ∀ p ∈ c.2.detector.peers, c.2.detector.overdue p now = false :=
  (allAlive_of_leads h).detects now

/-- A round whose heartbeat gets through. -/
def answeredRun : List HeartbeatAction := [.start, .round 10, .sent 0 11, .round 20]

theorem detects_iff_answeredRun :
    ∃ c, HeartbeatSystem.machine.Leads Machine.always
        ([], .init "node_1" ["127.0.0.1:8002"] 30 0) c ∧
      c.2.detector.peers = ["127.0.0.1:8002"] ∧ c.2.detector.Detects 20 := by
  obtain ⟨c, hc, hp⟩ := Machine.exists_leads_of_exec HeartbeatSystem.machine Machine.always
    ([], .init "node_1" ["127.0.0.1:8002"] 30 0) answeredRun
    (fun c => decide (c.2.detector.peers = ["127.0.0.1:8002"] ∧
      ∀ p ∈ c.2.detector.peers, c.2.detector.overdue p 20 = false)) (by decide +kernel)
  obtain ⟨hpeers, hnone⟩ := of_decide_eq_true hp
  exact ⟨c, hc, hpeers, (detects_iff hc 20).mpr hnone⟩

/-- No heartbeat gets through, and none comes in. -/
def silentRun : List HeartbeatAction :=
  [.start, .round 10, .failed 0, .round 20, .failed 0, .round 100]

theorem silent_peer_alive :
    ∃ c, HeartbeatSystem.machine.Leads Machine.always
        ([], .init "node_1" ["127.0.0.1:8002"] 30 0) c ∧
      c.1.getLast?.any (fun e => e.action matches .round 100) = true ∧
      c.2.detector.overdue "127.0.0.1:8002" 100 = true ∧
      c.2.detector.isAlive "127.0.0.1:8002" = true ∧
      c.2.detector.getQuorum none = ["127.0.0.1:8002"] ∧ ¬ c.2.detector.Detects 100 := by
  obtain ⟨c, hc, hp⟩ := Machine.exists_leads_of_exec HeartbeatSystem.machine Machine.always
    ([], .init "node_1" ["127.0.0.1:8002"] 30 0) silentRun
    (fun c => decide (c.1.getLast?.any (fun e => e.action matches .round 100) = true ∧
      c.2.detector.overdue "127.0.0.1:8002" 100 = true ∧
      c.2.detector.isAlive "127.0.0.1:8002" = true ∧
      c.2.detector.getQuorum none = ["127.0.0.1:8002"] ∧
      c.2.detector.peers = ["127.0.0.1:8002"])) (by decide +kernel)
  obtain ⟨hround, hover, halive, hquorum, hpeers⟩ := of_decide_eq_true hp
  refine ⟨c, hc, hround, hover, halive, hquorum, ?_⟩
  intro hdetects
  have hdead := hdetects.reported _ (by simp [hpeers]) hover
  rw [halive] at hdead
  cases hdead

end SyncSystem.Communication
