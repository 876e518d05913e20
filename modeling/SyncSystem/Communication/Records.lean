/-
SyncSystem.Communication.Records — the copies of a peer's status.

That a peer is suspected is kept in its record and in `suspected_nodes`,
that it is dead in `dead_nodes`, and each accessor reads one of the
copies. The accessors agree where the copies do
(`Consistent.reportsAgree`). `_mark_alive` brings all copies in line.
`reset_dead_node` clears the flags of the record and takes the peer out
of `dead_nodes`, but leaves it in `suspected_nodes`, so it keeps the
records consistent exactly for a peer that is not in there.
-/
import SyncSystem.Communication.Heartbeats

namespace SyncSystem.Communication

open SyncSystem.Python

namespace FailureDetector

/-! ## Consistency -/

/-- The copies agree for every known peer. -/
structure Consistent (d : FailureDetector) : Prop where
  suspected : ∀ p status, d.nodeStatus.get? p = some status →
    (status.isSuspected = true ↔ p ∈ d.suspectedNodes)
  alive : ∀ p status, d.nodeStatus.get? p = some status → status.isAlive = true →
    p ∉ d.suspectedNodes ∧ p ∉ d.deadNodes

/-- The accessors do not contradict each other. -/
structure ReportsAgree (d : FailureDetector) : Prop where
  status : ∀ p, d.nodeStatus.contains p = true → ∃ heard : Rat,
    Obj.get d.getAllStatus p .null = .obj
      [("is_alive", .bool (d.isAlive p)), ("last_heartbeat", .float heard),
       ("is_suspected", .bool (d.isSuspected p))]
  alive : ∀ p, d.isAlive p = true → d.isSuspected p = false ∧ d.isDead p = false
  stats : ∃ alive total : Int, Obj.get d.getStats "alive" .null = .int alive ∧
    Obj.get d.getStats "total_peers" .null = .int total ∧
    alive + (d.peers.filter fun p => d.isSuspected p || d.isDead p).length ≤ total

theorem lookup_entries {ν : Type} (d : Dict String ν) (f : ν → Json) (k : String) :
    (d.entries.map fun e => (e.1, f e.2)).lookup k = (d.get? k).map f := by
  unfold Dict.get?
  induction d.entries with
  | nil => rfl
  | cons e rest ih =>
    by_cases h : e.1 = k
    · simp [h]
    · have hne : (k == e.1) = false := by simpa using Ne.symm h
      simp [List.lookup_cons, hne, h, ih]

theorem isAlive_of_get? {d : FailureDetector} {p : String} {status : NodeStatus}
    (h : d.nodeStatus.get? p = some status) : d.isAlive p = status.isAlive := by
  simp [isAlive, h]

variable {d : FailureDetector} {peer : String} {now : Rat}

/-- Where the copies agree, so do the accessors that read them. -/
theorem Consistent.reportsAgree (h : d.Consistent) : d.ReportsAgree := by
  have halive : ∀ p, d.isAlive p = true → d.isSuspected p = false ∧ d.isDead p = false := by
    intro p hp
    cases hget : d.nodeStatus.get? p with
    | none => simp [isAlive, hget] at hp
    | some status =>
      rw [isAlive_of_get? hget] at hp
      simpa [isSuspected, isDead] using h.alive p status hget hp
  refine ⟨?_, halive, ?_⟩
  · intro p hp
    obtain ⟨status, hget⟩ := Option.isSome_iff_exists.mp hp
    have hflag : status.isSuspected = d.isSuspected p := by
      have hiff := h.suspected p status hget
      by_cases hin : p ∈ d.suspectedNodes <;> simp_all [isSuspected]
    refine ⟨status.lastHeartbeat, ?_⟩
    simp only [Obj.get, getAllStatus]
    rw [lookup_entries d.nodeStatus fun s : NodeStatus => Json.obj
      [("is_alive", .bool s.isAlive), ("last_heartbeat", .float s.lastHeartbeat),
       ("is_suspected", .bool s.isSuspected)]]
    rw [hget, isAlive_of_get? hget, ← hflag]
    rfl
  · refine ⟨_, _, rfl, rfl, ?_⟩
    have hle : (d.peers.filter fun p => d.isSuspected p || d.isDead p).length ≤
        (d.peers.filter fun p => !d.isAlive p).length := by
      simp only [← List.countP_eq_length_filter]
      refine List.countP_mono_left ?_
      intro p _ hp
      by_contra hc
      have hp' := halive p (by simpa using hc)
      simp [hp'.1, hp'.2] at hp
    have hsum := List.length_eq_length_filter_add (l := d.peers) d.isAlive
    omega

theorem consistent_iff_entries :
    d.Consistent ↔ ∀ e ∈ d.nodeStatus.entries,
      (e.2.isSuspected = true ↔ e.1 ∈ d.suspectedNodes) ∧
        (e.2.isAlive = true → e.1 ∉ d.suspectedNodes ∧ e.1 ∉ d.deadNodes) := by
  constructor
  · intro h e he
    have hget := Dict.get?_of_mem he
    exact ⟨h.suspected e.1 e.2 hget, h.alive e.1 e.2 hget⟩
  · intro h
    have hmem : ∀ p status, d.nodeStatus.get? p = some status →
        (p, status) ∈ d.nodeStatus.entries := by
      intro p status hget
      obtain ⟨e, he, rfl⟩ := Option.map_eq_some_iff.mp hget
      have hkey : e.1 = p := by simpa using List.find?_some he
      rw [← hkey]
      exact List.mem_of_find?_eq_some he
    constructor
    · intro p status hget
      exact (h _ (hmem p status hget)).1
    · intro p status hget
      exact (h _ (hmem p status hget)).2

instance : Decidable d.Consistent := decidable_of_iff' _ consistent_iff_entries

/-- The copies agree, and so do the accessors. -/
def Sound (d : FailureDetector) : Prop := d.Consistent ∧ d.ReportsAgree

theorem sound_iff : d.Sound ↔ d.Consistent :=
  ⟨fun h => h.1, fun h => ⟨h, h.reportsAgree⟩⟩

/-! ## Recovery -/

theorem markAlive_unknown (h : d.nodeStatus.get? peer = none) : d.markAlive peer now = d := by
  simp [markAlive, h]

theorem get?_markAlive_ne {p : String} (h : peer ≠ p) :
    (d.markAlive peer now).nodeStatus.get? p = d.nodeStatus.get? p := by
  unfold markAlive
  split
  · rfl
  · simp [Dict.get?_set, h]

theorem get?_resetDeadNode_ne {p : String} (h : peer ≠ p) :
    (d.resetDeadNode peer).nodeStatus.get? p = d.nodeStatus.get? p := by
  unfold resetDeadNode
  split
  · rfl
  · simp [Dict.get?_set, h]

section Known

variable {status : NodeStatus}

theorem get?_markAlive (h : d.nodeStatus.get? peer = some status) :
    (d.markAlive peer now).nodeStatus.get? peer = some { status with
      isAlive := true, lastHeartbeat := now, consecutiveFailures := 0, isSuspected := false } := by
  simp [markAlive, h, Dict.get?_set]

theorem get?_resetDeadNode (h : d.nodeStatus.get? peer = some status) :
    (d.resetDeadNode peer).nodeStatus.get? peer = some { status with
      isAlive := true, consecutiveFailures := 0, isSuspected := false } := by
  simp [resetDeadNode, h, Dict.get?_set]

theorem suspectedNodes_markAlive (h : d.nodeStatus.get? peer = some status) :
    (d.markAlive peer now).suspectedNodes = d.suspectedNodes.filter (· ≠ peer) := by
  simp [markAlive, h]

theorem deadNodes_markAlive (h : d.nodeStatus.get? peer = some status) :
    (d.markAlive peer now).deadNodes = d.deadNodes.filter (· ≠ peer) := by
  simp [markAlive, h]

end Known

theorem suspectedNodes_resetDeadNode : (d.resetDeadNode peer).suspectedNodes = d.suspectedNodes := by
  unfold resetDeadNode
  split <;> rfl

theorem deadNodes_resetDeadNode :
    (d.resetDeadNode peer).deadNodes = d.deadNodes.filter (· ≠ peer) := by
  unfold resetDeadNode
  split <;> rfl

/-- What clears all copies for one peer and leaves the others alone keeps
the records consistent. -/
theorem Consistent.of_cleared {d' : FailureDetector} (h : d.Consistent) (peer : String)
    (hother : ∀ p, peer ≠ p → d'.nodeStatus.get? p = d.nodeStatus.get? p)
    (hflag : ∀ status, d'.nodeStatus.get? peer = some status → status.isSuspected = false)
    (hsuspected : d'.suspectedNodes = d.suspectedNodes.filter (· ≠ peer))
    (hdead : d'.deadNodes = d.deadNodes.filter (· ≠ peer)) : d'.Consistent := by
  constructor
  · intro p status hget
    rw [hsuspected]
    by_cases hp : peer = p
    · subst hp
      simp [hflag status hget]
    · rw [hother p hp] at hget
      simp [h.suspected p status hget, Ne.symm hp]
  · intro p status hget halive
    rw [hsuspected, hdead]
    by_cases hp : peer = p
    · subst hp
      simp
    · rw [hother p hp] at hget
      have hclear := h.alive p status hget halive
      simp [hclear.1, hclear.2]

/-- `_mark_alive` keeps the records consistent. -/
theorem Consistent.markAlive (h : d.Consistent) (peer : String) (now : Rat) :
    (d.markAlive peer now).Consistent := by
  cases hget : d.nodeStatus.get? peer with
  | none =>
    rw [markAlive_unknown hget]
    exact h
  | some status =>
    refine h.of_cleared peer (fun p hp => get?_markAlive_ne hp) ?_
      (suspectedNodes_markAlive hget) (deadNodes_markAlive hget)
    intro status' hget'
    rw [get?_markAlive hget] at hget'
    cases hget'
    rfl

/-- For a peer that is not known `reset_dead_node` touches no record. -/
theorem Consistent.resetDeadNode_unknown (h : d.Consistent)
    (hget : d.nodeStatus.get? peer = none) : (d.resetDeadNode peer).Consistent := by
  have hstatus : (d.resetDeadNode peer).nodeStatus = d.nodeStatus := by
    simp [resetDeadNode, hget]
  constructor
  · intro p status hp
    rw [suspectedNodes_resetDeadNode]
    exact h.suspected p status (by rwa [hstatus] at hp)
  · intro p status hp halive
    have hclear := h.alive p status (by rwa [hstatus] at hp) halive
    rw [suspectedNodes_resetDeadNode, deadNodes_resetDeadNode]
    exact ⟨hclear.1, fun hin => hclear.2 (List.mem_filter.mp hin).1⟩

/-- `reset_dead_node` keeps the records consistent exactly for a peer that
is not suspected, or not known. -/
theorem Consistent.resetDeadNode_iff (h : d.Consistent) :
    (d.resetDeadNode peer).Consistent ↔
      (d.nodeStatus.contains peer = true → peer ∉ d.suspectedNodes) := by
  cases hget : d.nodeStatus.get? peer with
  | none =>
    have hunknown : d.nodeStatus.contains peer = false := by simp [Dict.contains, hget]
    rw [hunknown]
    exact iff_of_true (h.resetDeadNode_unknown hget) (by intro hc; cases hc)
  | some status =>
    have hknown : d.nodeStatus.contains peer = true := by simp [Dict.contains, hget]
    constructor
    · intro hreset _
      have hclear := hreset.alive peer _ (get?_resetDeadNode hget) rfl
      rw [suspectedNodes_resetDeadNode] at hclear
      exact hclear.1
    · intro hnot
      have hnot := hnot hknown
      refine h.of_cleared peer (fun p hp => get?_resetDeadNode_ne hp) ?_ ?_
        deadNodes_resetDeadNode
      · intro status' hget'
        rw [get?_resetDeadNode hget] at hget'
        cases hget'
        rfl
      · rw [suspectedNodes_resetDeadNode]
        symm
        rw [List.filter_eq_self]
        intro p hin
        have hne : p ≠ peer := fun heq => hnot (heq ▸ hin)
        simpa using hne

/-! ## Runs -/

theorem consistent_init (nodeId : String) (peers : List String) (timeout start : Rat) :
    (init nodeId peers timeout start).Consistent := by
  constructor
  · intro p status hget
    rw [get?_init] at hget
    split at hget
    · cases hget
      simp [init]
    · cases hget
  · intro p status _ _
    simp [init]

/-- Nothing in the class suspects a peer, so in a run the copies never get
to differ. -/
theorem sound_of_leads {nodeId : String} {peers : List String} {timeout start : Rat}
    {c : HeartbeatRun} (h : HeartbeatSystem.machine.Leads Machine.always
      ([], .init nodeId peers timeout start) c) : c.2.detector.Sound := by
  have hrun : c.2.detector.suspectedNodes = [] ∧ c.2.detector.Consistent := by
    refine h.invariant
      (I := fun c => c.2.detector.suspectedNodes = [] ∧ c.2.detector.Consistent)
      ⟨rfl, consistent_init nodeId peers timeout start⟩ ?_
    intro c a s' u _ ih _ hs
    obtain ⟨hnone, hconsistent⟩ := ih
    show s'.detector.suspectedNodes = [] ∧ s'.detector.Consistent
    rcases detector_step hs with heq | ⟨peer, now, heq⟩ | ⟨peer, heq⟩ <;> rw [heq]
    · exact ⟨hnone, hconsistent⟩
    · refine ⟨?_, hconsistent.markAlive peer now⟩
      unfold FailureDetector.markAlive
      split <;> simp [hnone]
    · rw [suspectedNodes_resetDeadNode]
      exact ⟨hnone, hconsistent.resetDeadNode_iff.mpr (by simp [hnone])⟩
  exact sound_iff.mpr hrun.2

/-! ## Every recovery -/

/-- Each way in which a peer recovers, by its name, leaves the records and
the reports in agreement. -/
structure Recovers (d : FailureDetector) (peer : String) (now : Rat) : Prop where
  marked : (d.markAlive peer now).Sound
  heard : ∃ d', d.handleHeartbeat (.str peer) now = .ok d' ∧ d'.Sound
  reset : (d.resetDeadNode peer).Sound

/-- **A peer recovers** from consistent records, in every way, exactly if
it is not in `suspected_nodes`, or has no record. -/
theorem recovers_iff (h : d.Consistent) (peer : String) (now : Rat) :
    d.Recovers peer now ↔ (d.nodeStatus.contains peer = true → peer ∉ d.suspectedNodes) := by
  constructor
  · intro hrecovers
    exact h.resetDeadNode_iff.mp hrecovers.reset.1
  · intro hnot
    have hmarked : (d.markAlive peer now).Sound := sound_iff.mpr (h.markAlive peer now)
    exact ⟨hmarked, ⟨_, rfl, hmarked⟩, sound_iff.mpr (h.resetDeadNode_iff.mpr hnot)⟩

/-- A detector with one peer in the given status. -/
def onePeer (isAlive isSuspected : Bool) (suspectedNodes deadNodes : List String) :
    FailureDetector where
  nodeId := "node_1"
  peers := ["localhost:8002"]
  timeout := 30
  nodeStatus := Dict.empty.set "localhost:8002" ⟨"localhost:8002", isAlive, 0, 0, isSuspected⟩
  suspectedNodes := suspectedNodes
  deadNodes := deadNodes

/-- A dead peer recovers. -/
theorem recovers_iff_dead :
    (onePeer false false [] ["localhost:8002"]).Recovers "localhost:8002" 40 :=
  (recovers_iff (by decide) "localhost:8002" 40).mpr (by decide)

/-- A suspected peer does not: after the reset it is alive and suspected. -/
theorem suspected_peer_reset :
    let d := onePeer false true ["localhost:8002"] []
    let d' := d.resetDeadNode "localhost:8002"
    d.Consistent ∧ d'.isAlive "localhost:8002" = true ∧ d'.isSuspected "localhost:8002" = true ∧
      ¬ d'.Consistent ∧ ¬ d'.ReportsAgree ∧ ¬ d.Recovers "localhost:8002" 40 := by
  intro d d'
  have halive : d'.isAlive "localhost:8002" = true := by decide
  have hsuspected : d'.isSuspected "localhost:8002" = true := by decide
  have hconsistent : ¬ d'.Consistent := by decide
  refine ⟨by decide, halive, hsuspected, hconsistent, ?_, fun h => hconsistent h.reset.1⟩
  intro h
  have hfalse := (h.alive _ halive).1
  rw [hsuspected] at hfalse
  cases hfalse

end FailureDetector

end SyncSystem.Communication
