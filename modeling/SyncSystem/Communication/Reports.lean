/-
SyncSystem.Communication.Reports — what a failure detector reports after
any hearings.

A hearing is a peer and a time: a heartbeat that has got through to the
peer, or one that has come in under its name. A detector that was never
reset by hand is told by its hearings alone, down to every field of every
record (`Told`); so its reports are what `Reports` says: all peers are
alive, with the time of their last hearing, and none is suspected or dead.
-/
import SyncSystem.Communication.Records

namespace SyncSystem.Communication

open SyncSystem.Python

abbrev Hearing := String × Rat

/-- When `peer` was last heard from; at `start` if it never was. -/
def lastHeard (start : Rat) (hearings : List Hearing) (peer : String) : Rat :=
  ((hearings.reverse.find? fun h => h.1 == peer).map Prod.snd).getD start

theorem lastHeard_append (start : Rat) (hearings : List Hearing) (p : String) (now : Rat)
    (peer : String) : lastHeard start (hearings ++ [(p, now)]) peer =
      if p = peer then now else lastHeard start hearings peer := by
  by_cases h : p = peer <;> simp [lastHeard, h]

namespace FailureDetector

/-- The detector as its hearings tell it. -/
structure Told (d : FailureDetector) (nodeId : String) (peers : List String) (start : Rat)
    (hearings : List Hearing) : Prop where
  name : d.nodeId = nodeId
  list : d.peers = peers
  keys : d.nodeStatus.keys = peers.foldl addOnce []
  records : ∀ p, d.nodeStatus.get? p =
    if p ∈ peers then some ⟨p, true, lastHeard start hearings p, 0, false⟩ else none
  suspected : d.suspectedNodes = []
  dead : d.deadNodes = []

variable {d : FailureDetector} {nodeId : String} {peers : List String} {start : Rat}
  {hearings : List Hearing}

theorem told_init (nodeId : String) (peers : List String) (timeout start : Rat) :
    (init nodeId peers timeout start).Told nodeId peers start [] := by
  have hkeys : ∀ (ps : List String) (table : Dict String NodeStatus),
      (ps.foldl (fun d peer => d.set peer ⟨peer, true, start, 0, false⟩) table).keys =
        ps.foldl addOnce table.keys := by
    intro ps
    induction ps with
    | nil => intro table; rfl
    | cons p rest ih => intro table; simp [ih, Dict.keys_set]
  exact ⟨rfl, rfl, hkeys peers .empty, get?_init nodeId peers timeout start, rfl, rfl⟩

/-- A hearing of a peer, or of anything else. -/
theorem Told.markAlive (h : d.Told nodeId peers start hearings) (p : String) (now : Rat) :
    (d.markAlive p now).Told nodeId peers start (hearings ++ [(p, now)]) := by
  cases hp : d.nodeStatus.get? p with
  | none =>
    have hout : p ∉ peers := by
      intro hin
      simp [h.records p, hin] at hp
    rw [markAlive_unknown hp]
    refine ⟨h.name, h.list, h.keys, ?_, h.suspected, h.dead⟩
    intro q
    rw [h.records q, lastHeard_append]
    by_cases hq : p = q
    · simp [← hq, hout]
    · simp [hq]
  | some status =>
    have hin : p ∈ peers := by
      by_contra hout
      simp [h.records p, hout] at hp
    have hstatus := h.records p
    rw [hp, if_pos hin] at hstatus
    have hname : status.nodeId = p := by rw [Option.some.inj hstatus]
    refine ⟨?_, ?_, ?_, ?_, ?_, ?_⟩
    · simpa [FailureDetector.markAlive, hp] using h.name
    · simpa [FailureDetector.markAlive, hp] using h.list
    · have hkeys := Dict.keys_set_present (Dict.contains_eq_true.mpr ⟨status, hp⟩) { status with
        isAlive := true, lastHeartbeat := now, consecutiveFailures := 0, isSuspected := false }
      simpa [FailureDetector.markAlive, hp, hkeys] using h.keys
    · intro q
      rw [lastHeard_append]
      by_cases hq : p = q
      · subst hq
        rw [get?_markAlive hp, if_pos hin, if_pos rfl, hname]
      · rw [get?_markAlive_ne hq, h.records q, if_neg hq]
    · rw [suspectedNodes_markAlive hp, h.suspected]
      rfl
    · rw [deadNodes_markAlive hp, h.dead]
      rfl

/-! ## The reports -/

/-- The answers of the accessors. -/
structure Reports (d : FailureDetector) (nodeId : String) (peers : List String) (start : Rat)
    (hearings : List Hearing) : Prop where
  alive : ∀ p, d.isAlive p = decide (p ∈ peers)
  suspected : ∀ p, d.isSuspected p = false
  dead : ∀ p, d.isDead p = false
  status : d.getAllStatus = (peers.foldl addOnce []).map fun p => (p, .obj
    [("is_alive", .bool true), ("last_heartbeat", .float (lastHeard start hearings p)),
     ("is_suspected", .bool false)])
  stats : d.getStats =
    [("node_id", .str nodeId), ("total_peers", .int peers.length), ("alive", .int peers.length),
     ("suspected", .int 0), ("dead", .int 0)]
  quorum : ∀ required : Option Int, d.getQuorum required =
    if required.all (fun r => decide (r ≤ (peers.length : Int))) then peers else []

theorem Told.reports (h : d.Told nodeId peers start hearings) :
    d.Reports nodeId peers start hearings := by
  have halive : ∀ p, d.isAlive p = decide (p ∈ peers) := by
    intro p
    by_cases hp : p ∈ peers <;> simp [isAlive, h.records p, hp]
  have hall : peers.filter d.isAlive = peers := by
    rw [List.filter_eq_self]
    intro p hp
    simp [halive, hp]
  refine ⟨halive, ?_, ?_, ?_, ?_, ?_⟩
  · simp [isSuspected, h.suspected]
  · simp [isDead, h.dead]
  · rw [← h.keys, Dict.keys, List.map_map]
    refine List.map_congr_left ?_
    intro e he
    have hrecord := Dict.get?_of_mem he
    have hkey : e.1 ∈ peers := by
      by_contra hout
      rw [h.records, if_neg hout] at hrecord
      cases hrecord
    rw [h.records, if_pos hkey] at hrecord
    simp only [Function.comp, ← Option.some.inj hrecord]
  · simp [getStats, hall, h.name, h.list, h.suspected, h.dead]
  · intro required
    simp only [getQuorum, h.list, hall]
    cases required with
    | none =>
      have hhalf : ((peers.length + 1) / 2 : Nat) ≤ peers.length := by omega
      simp only [Option.getD_none, Option.all_none, if_true]
      rw [if_pos (by exact_mod_cast hhalf)]
    | some r => simp

end FailureDetector

end SyncSystem.Communication
