/-
SyncSystem.Communication.Quorum — quorums of alive peers.

`get_quorum` asks for half of the cluster, rounded down, and counts the
peers without the node itself. A Raft candidate needs one more than half
of the cluster, rounded down, and counts its own vote. So the two ask
for the same number of nodes (`getQuorum_ne_nil_iff`), and two nodes
that each see a quorum, whatever they hold of their peers, have a node
in common.
-/
import SyncSystem.Communication.FailureDetector
import SyncSystem.Consensus.Ballot
import SyncSystem.Raft.Node

namespace SyncSystem.Communication

open SyncSystem.Python
open SyncSystem.Consensus
open SyncSystem.Raft (RaftNode)

/-- Each node of the cluster has the others as its peers. -/
structure FullMesh (cluster : Finset String) (detector : String → FailureDetector) : Prop where
  nodup : ∀ a ∈ cluster, (detector a).peers.Nodup
  others : ∀ a ∈ cluster, ∀ p, p ∈ (detector a).peers ↔ p ∈ cluster ∧ p ≠ a

namespace FailureDetector

variable {cluster : Finset String} {detector : String → FailureDetector} {a b : String}

/-- A node with the peers it sees a quorum of. -/
def quorumOf (d : FailureDetector) (a : String) : Finset String :=
  insert a (d.getQuorum none).toFinset

theorem length_peers (h : FullMesh cluster detector) (ha : a ∈ cluster) :
    (detector a).peers.length + 1 = cluster.card := by
  have hpeers : (detector a).peers.toFinset = cluster.erase a := by
    ext p
    rw [List.mem_toFinset, h.others a ha, Finset.mem_erase, and_comm]
  rw [← List.toFinset_card_of_nodup (h.nodup a ha), hpeers, Finset.card_erase_add_one ha]

/-- The default requirement. -/
theorem getQuorum_none (d : FailureDetector) :
    d.getQuorum none = if (d.peers.length + 1) / 2 ≤ (d.peers.filter d.isAlive).length then
      d.peers.filter d.isAlive else [] := by
  simp only [getQuorum, Option.getD_none, ge_iff_le, Int.ofNat_le]

theorem getQuorum_sublist (d : FailureDetector) : (d.getQuorum none).Sublist d.peers := by
  rw [getQuorum_none]
  split
  · exact List.filter_sublist
  · exact List.nil_sublist _

theorem getQuorum_ne_nil {d : FailureDetector} (hpeers : d.peers ≠ []) :
    d.getQuorum none ≠ [] ↔ (d.peers.length + 1) / 2 ≤ (d.peers.filter d.isAlive).length := by
  have hlength : 0 < d.peers.length := List.length_pos_iff.mpr hpeers
  rw [getQuorum_none]
  split
  · next hle =>
    have hpos : 0 < (d.peers.filter d.isAlive).length := by omega
    exact iff_of_true (List.length_pos_iff.mp hpos) hle
  · next hlt => exact iff_of_false (by simp) hlt

/-- A quorum is at least as large as required. -/
theorem length_getQuorum {d : FailureDetector} (h : d.getQuorum none ≠ []) :
    (d.peers.length + 1) / 2 ≤ (d.getQuorum none).length := by
  rw [getQuorum_none] at h ⊢
  split
  · assumption
  · next hlt => exact absurd (if_neg hlt) h

/-- `get_quorum` and `_check_election_winner` ask for the same number. -/
theorem getQuorum_ne_nil_iff {d : FailureDetector} {raft : RaftNode} (hpeers : d.peers ≠ [])
    (hraft : raft.peers = d.peers) :
    d.getQuorum none ≠ [] ↔ raft.majority ≤ 1 + (d.peers.filter d.isAlive).length := by
  rw [getQuorum_ne_nil hpeers, RaftNode.majority, hraft]
  omega

/-- A node that sees a quorum sees more than half of the cluster. -/
theorem card_quorumOf (h : FullMesh cluster detector) (ha : a ∈ cluster)
    (hquorum : (detector a).getQuorum none ≠ []) :
    cluster.card < 2 * ((detector a).quorumOf a).card := by
  have hsub := getQuorum_sublist (detector a)
  have hself : a ∉ ((detector a).getQuorum none).toFinset := by
    intro hin
    exact ((h.others a ha a).mp (hsub.subset (List.mem_toFinset.mp hin))).2 rfl
  have hcard : ((detector a).quorumOf a).card = ((detector a).getQuorum none).length + 1 := by
    rw [quorumOf, Finset.card_insert_of_notMem hself,
      List.toFinset_card_of_nodup (hsub.nodup (h.nodup a ha))]
  have hlength := length_getQuorum hquorum
  have hall := length_peers h ha
  omega

theorem quorumOf_subset (h : FullMesh cluster detector) (ha : a ∈ cluster) :
    (detector a).quorumOf a ⊆ cluster := by
  refine Finset.insert_subset ha ?_
  intro p hp
  have hin := (getQuorum_sublist (detector a)).subset (List.mem_toFinset.mp hp)
  exact ((h.others a ha p).mp hin).1

/-- **Quorums intersect**, and a node sees one exactly if it would win an
election with the votes of its alive peers. -/
theorem quorums_intersect {n : Nat} (hn : 1 ≤ n) (hcard : cluster.card = n + 1)
    (h : FullMesh cluster detector) (raft : String → RaftNode)
    (hraft : ∀ a ∈ cluster, (raft a).peers = (detector a).peers) :
    (∀ a ∈ cluster, ∀ b ∈ cluster,
      (detector a).getQuorum none ≠ [] → (detector b).getQuorum none ≠ [] →
      ∃ s, s ∈ (detector a).quorumOf a ∧ s ∈ (detector b).quorumOf b) ∧
    ∀ a ∈ cluster, (detector a).getQuorum none ≠ [] ↔
      (raft a).majority ≤ 1 + ((detector a).peers.filter (detector a).isAlive).length := by
  constructor
  · intro a ha b hb hqa hqb
    have hcarda := card_quorumOf h ha hqa
    have hcardb := card_quorumOf h hb hqb
    exact exists_common_of_card (quorumOf_subset h ha) (quorumOf_subset h hb) (by omega)
  · intro a ha
    have hlength := length_peers h ha
    have hpeers : (detector a).peers ≠ [] := List.length_pos_iff.mp (by omega)
    exact getQuorum_ne_nil_iff hpeers (hraft a ha)

/-- Three nodes that see nobody but the second of them alive. -/
def threeNames : List String := ["node_1", "node_2", "node_3"]

def seesSecond (a : String) : FailureDetector :=
  { init a (threeNames.filter (· ≠ a)) 30 0 with
    nodeStatus := threeNames.foldl
      (fun table p => table.set p ⟨p, p = "node_2", 0, 0, false⟩) .empty }

theorem fullMesh_seesSecond : FullMesh threeNames.toFinset seesSecond := by
  constructor
  · intro a _
    have hnames : threeNames.Nodup := by decide
    exact hnames.sublist List.filter_sublist
  · intro a _ p
    simp [seesSecond, init]

theorem quorums_intersect_seesSecond :
    (seesSecond "node_1").getQuorum none = ["node_2"] ∧
      (seesSecond "node_3").getQuorum none = ["node_2"] ∧
      ∃ s, s ∈ (seesSecond "node_1").quorumOf "node_1" ∧
        s ∈ (seesSecond "node_3").quorumOf "node_3" := by
  have h₁ : (seesSecond "node_1").getQuorum none = ["node_2"] := by decide +kernel
  have h₃ : (seesSecond "node_3").getQuorum none = ["node_2"] := by decide +kernel
  refine ⟨h₁, h₃, ?_⟩
  exact (quorums_intersect (n := 2) (by decide) (by decide) fullMesh_seesSecond
    (fun a => .init a (seesSecond a).peers 8001) (fun _ _ => rfl)).1
    "node_1" (by decide) "node_3" (by decide) (by simp [h₁]) (by simp [h₃])

end FailureDetector

end SyncSystem.Communication
