/-
SyncSystem.Queue.Routing — whether the nodes of a cluster agree on the
node of a topic.

`DistributedQueue.__init__` builds the ring of a node from the addresses
of its peers and from its own id. So a node is on the rings of the
others by its address and on its own ring by its id, and these are
hashed to different positions. The rings agree on every topic only where
the id of a node is the address the others have for it
(`topics_agree`); under a hash with collisions not even there.
-/
import SyncSystem.Queue.Membership
import SyncSystem.Raft.Cluster

namespace SyncSystem.Queue

open SyncSystem.Python
open SyncSystem.Hashing
open SyncSystem.Raft
open ConsistentHashRing

/-- `self.ring` of `DistributedQueue.__init__`. -/
def queueRing (hash : String → Nat) (nodeId : String) (peers : List String) :
    ConsistentHashRing :=
  .init hash (peers ++ [nodeId]) 150

variable {N : Nat}

/-- What the ring of node `i` says of a topic. -/
def nodeOf (C : ClusterConfig N) (hash : String → Nat) (i : Fin N) (topic : String) :
    Except PyError (Option String) :=
  (queueRing hash (C.nodeId i) (C.peers i)).getNode hash topic

/-- On the ring of node `i`, `s` stands for node `k`: as the id of `i`
itself, or as the address of a peer. -/
def Denotes (C : ClusterConfig N) (i : Fin N) (s : String) (k : Fin N) : Prop :=
  (s = C.nodeId i ∧ k = i) ∨ (s ∈ C.peers i ∧ peerPort s = some (C.port k))

/-- The rings of `i` and `j` map the topic to one physical node. -/
def Agree (C : ClusterConfig N) (hash : String → Nat) (topic : String) (i j : Fin N) : Prop :=
  ∃ k s t, nodeOf C hash i topic = .ok (some s) ∧ nodeOf C hash j topic = .ok (some t) ∧
    (∀ l, Denotes C i s l ↔ l = k) ∧ ∀ l, Denotes C j t l ↔ l = k

variable {C : ClusterConfig N} {hash : String → Nat} {topic : String}

theorem queueRing_eq (hash : String → Nat) (nodeId : String) (peers : List String) :
    queueRing hash nodeId peers = after hash 150 (peers ++ [nodeId]) [] := rfl

/-- Rings that answer with the ids of two different nodes do not agree. -/
theorem not_agree_of_ids {i j : Fin N} (hij : i ≠ j)
    (hi : nodeOf C hash i topic = .ok (some (C.nodeId i)))
    (hj : nodeOf C hash j topic = .ok (some (C.nodeId j))) : ¬ Agree C hash topic i j := by
  rintro ⟨k, s, t, hs, ht, hnames, hnames'⟩
  rw [hi] at hs
  rw [hj] at ht
  cases hs
  cases ht
  have hik := (hnames i).mp (Or.inl ⟨rfl, rfl⟩)
  have hjk := (hnames' j).mp (Or.inl ⟨rfl, rfl⟩)
  exact hij (hik.trans hjk.symm)

/-! ## Hashes with collisions -/

/-- Where the node's own positions are the only ones, or hide those of
its peers, every topic is its own. -/
theorem nodeOf_self {i : Fin N}
    (h : ∀ m ∈ C.peers i, ∀ q, PositionOf hash 150 m q → PositionOf hash 150 (C.nodeId i) q)
    (topic : String) : nodeOf C hash i topic = .ok (some (C.nodeId i)) := by
  have howner : ∀ q v, (queueRing hash (C.nodeId i) (C.peers i)).ring.get? q = some v ↔
      PositionOf hash 150 (C.nodeId i) q ∧ v = C.nodeId i := by
    intro q v
    rw [queueRing, init, buildRing, withRing_ring, List.foldl_append, List.foldl_cons,
      List.foldl_nil, get?_assign]
    refine or_iff_left ?_
    rintro ⟨hq, hv⟩
    obtain ⟨hmem, hpos⟩ := mem_of_get?_build hv
    exact hq (h v hmem q hpos)
  obtain ⟨v, hv, hroutes⟩ := getNode_routes hash
    (consistent_after 150 (C.peers i ++ [C.nodeId i]) []) topic
  rw [nodeOf, queueRing_eq, hv]
  rw [← queueRing_eq] at hroutes
  cases v with
  | none =>
    have hsome := (howner _ (C.nodeId i)).mpr
      ⟨positionOf_first hash (by decide) (C.nodeId i), rfl⟩
    rw [hroutes] at hsome
    cases hsome
  | some v =>
    obtain ⟨q, _, hq⟩ := hroutes
    rw [((howner q v).mp hq).2]

theorem nodeOf_of_constant (C : ClusterConfig N) (p : Nat) (i : Fin N) (topic : String) :
    nodeOf C (fun _ => p) i topic = .ok (some (C.nodeId i)) := by
  refine nodeOf_self ?_ topic
  rintro m _ q ⟨_, _, hq⟩
  exact ⟨0, by decide, hq⟩

/-- A node alone has no other node to disagree with. -/
theorem agree_of_alone (hN : N ≤ 1) (hash : String → Nat) (topic : String) (i j : Fin N) :
    Agree C hash topic i j := by
  have hsub : Subsingleton (Fin N) := Fin.subsingleton_iff_le_one.mpr hN
  obtain rfl : i = j := Subsingleton.elim i j
  have hnone : C.peers i = [] := by
    have hlen := peers_length (C := C) i
    exact List.eq_nil_of_length_eq_zero (by omega)
  have hself : nodeOf C hash i topic = .ok (some (C.nodeId i)) :=
    nodeOf_self (by simp [hnone]) topic
  have hnames : ∀ l, Denotes C i (C.nodeId i) l ↔ l = i := fun l =>
    ⟨fun _ => Subsingleton.elim l i, fun hl => Or.inl ⟨rfl, hl⟩⟩
  exact ⟨i, _, _, hself, hself, hnames, hnames⟩

/-! ## Hashes without collisions -/

/-- These texts first, then all others. -/
def listedFirst (first : List String) (s : String) : Nat :=
  first.idxOf s + if s ∈ first then 0 else textNumber s

theorem listedFirst_injective (first : List String) : Function.Injective (listedFirst first) := by
  have hlisted : ∀ {s t : String}, s ∈ first → t ∉ first →
      listedFirst first s < listedFirst first t := by
    intro s t hs ht
    have hlt := List.idxOf_lt_length_of_mem hs
    have hge := List.idxOf_eq_length ht
    simp only [listedFirst, if_pos hs]
    omega
  intro s t h
  by_cases hs : s ∈ first <;> by_cases ht : t ∈ first
  · simp only [listedFirst, if_pos hs, if_pos ht, Nat.add_zero] at h
    exact (List.idxOf_inj hs).mp h
  · exact absurd h (hlisted hs ht).ne
  · exact absurd h (hlisted ht hs).ne'
  · simp only [listedFirst, if_neg hs, if_neg ht, List.idxOf_eq_length hs,
      List.idxOf_eq_length ht] at h
    exact textNumber_injective (Nat.add_left_cancel h)

/-- A listed text comes before all that are not listed before it. -/
theorem listedFirst_le (before : List String) {rest : List String} {a s : String}
    (hs : s ∉ before) :
    listedFirst (before ++ a :: rest) a ≤ listedFirst (before ++ a :: rest) s := by
  have hmem : a ∈ before ++ a :: rest := by simp
  have hidx : (before ++ a :: rest).idxOf a ≤ before.length := by
    by_cases hbefore : a ∈ before
    · rw [List.idxOf_append_of_mem hbefore]
      exact (List.idxOf_lt_length_of_mem hbefore).le
    · simp [List.idxOf_append_of_notMem hbefore]
  simp only [listedFirst, if_pos hmem, List.idxOf_append_of_notMem hs]
  omega

theorem vnodeLabel_ne_empty (node : String) (i : Nat) : vnodeLabel node i ≠ "" := by
  intro h
  have hlist := congrArg String.toList h
  rw [vnodeLabel_toList] at hlist
  simp at hlist

/-- A node that is not on the ring of another by its id is a different
node there for some topic. -/
theorem not_agree_of_not_mem {i j : Fin N} (hij : i ≠ j) (hmem : C.nodeId i ∉ C.peers j) :
    ¬ Agree C (listedFirst ["", vnodeLabel (C.nodeId i) 0, vnodeLabel (C.nodeId j) 0]) "" i j := by
  have hinj := listedFirst_injective ["", vnodeLabel (C.nodeId i) 0, vnodeLabel (C.nodeId j) 0]
  refine not_agree_of_ids hij ?_ ?_
  · rw [nodeOf, queueRing_eq]
    refine getNode_of_least hinj (by decide) (by simp [members]) ?_
      (listedFirst_le [] (by simp))
    intro m _ k
    exact listedFirst_le [""] (by simp [vnodeLabel_ne_empty])
  · rw [nodeOf, queueRing_eq]
    refine getNode_of_least hinj (by decide) (by simp [members]) ?_
      (listedFirst_le [] (by simp))
    intro m hm k
    refine listedFirst_le ["", vnodeLabel (C.nodeId i) 0] ?_
    have hne : vnodeLabel m k ≠ vnodeLabel (C.nodeId i) 0 := by
      intro heq
      obtain rfl := (vnodeLabel_inj heq).1
      have hon : C.nodeId i = C.nodeId j ∨ C.nodeId i ∈ C.peers j := by
        simpa [members] using hm
      exact hon.elim (fun hid => hij (C.nodeId_injective hid)) hmem
    simp [vnodeLabel_ne_empty, hne]

/-! ### Ids that are addresses -/

/-- Every node is known to the others by its id. -/
def KnownById (C : ClusterConfig N) : Prop := ∀ i j, i ≠ j → C.nodeId i ∈ C.peers j

/-- The peers of a node are then the ids of the others. -/
theorem mem_peers_iff (h : KnownById C) {i : Fin N} {s : String} :
    s ∈ C.peers i ↔ ∃ k, k ≠ i ∧ s = C.nodeId k := by
  constructor
  · intro hs
    have hnodup : (((List.finRange N).filter (· ≠ i)).map C.nodeId).Nodup :=
      ((List.nodup_finRange N).filter _).map C.nodeId_injective
    have hsub : ((List.finRange N).filter (· ≠ i)).map C.nodeId ⊆ C.peers i := by
      intro t ht
      obtain ⟨k, hk, rfl⟩ := List.mem_map.mp ht
      exact h k i (by simpa using (List.mem_filter.mp hk).2)
    have hlen : (C.peers i).length = (((List.finRange N).filter (· ≠ i)).map C.nodeId).length := by
      simpa using (C.peers_others i).length_eq
    have hperm := (List.subperm_of_subset hnodup hsub).perm_of_length_le hlen.le
    obtain ⟨k, hk, heq⟩ := List.mem_map.mp (hperm.mem_iff.mpr hs)
    exact ⟨k, by simpa using (List.mem_filter.mp hk).2, heq.symm⟩
  · rintro ⟨k, hk, rfl⟩
    exact h k i hk

/-- The port of an entry of the peers is that of another node. -/
theorem port_of_mem_peers {i : Fin N} {s : String} (hs : s ∈ C.peers i) :
    ∃ k, k ≠ i ∧ peerPort s = some (C.port k) := by
  obtain ⟨k, hk, heq⟩ := List.mem_map.mp ((C.peers_others i).mem_iff.mp (List.mem_map_of_mem hs))
  exact ⟨k, by simpa using (List.mem_filter.mp hk).2, heq.symm⟩

/-- An id that is an address is the address of its own node. -/
theorem peerPort_nodeId (h : KnownById C) {k l : Fin N}
    (hport : peerPort (C.nodeId k) = some (C.port l)) : l = k := by
  by_contra hlk
  obtain ⟨l', hl', hport'⟩ := port_of_mem_peers (h k l (Ne.symm hlk))
  rw [hport] at hport'
  exact hl' (C.port_injective (Option.some.inj hport')).symm

theorem denotes_nodeId (h : KnownById C) (i k l : Fin N) :
    Denotes C i (C.nodeId k) l ↔ l = k := by
  constructor
  · rintro (⟨hid, rfl⟩ | ⟨_, hport⟩)
    · exact (C.nodeId_injective hid).symm
    · exact peerPort_nodeId h hport
  · rintro rfl
    rcases eq_or_ne l i with rfl | hli
    · exact Or.inl ⟨rfl, rfl⟩
    · obtain ⟨l', _, hport⟩ := port_of_mem_peers (h l i hli)
      refine Or.inr ⟨h l i hli, ?_⟩
      rw [hport, peerPort_nodeId h hport]

/-- All rings have the same members. -/
theorem members_queueRing (h : KnownById C) (i : Fin N) :
    members (C.peers i ++ [C.nodeId i]) [] = Finset.univ.image C.nodeId := by
  ext s
  simp only [members, List.foldl_nil, List.mem_toFinset, List.mem_append, List.mem_singleton,
    mem_peers_iff h, Finset.mem_image, Finset.mem_univ, true_and]
  constructor
  · rintro (⟨k, _, rfl⟩ | rfl)
    · exact ⟨k, rfl⟩
    · exact ⟨i, rfl⟩
  · rintro ⟨k, rfl⟩
    rcases eq_or_ne k i with rfl | hk
    · exact Or.inr rfl
    · exact Or.inl ⟨k, hk, rfl⟩

theorem agree_of_knownById (h : KnownById C) (hinj : Function.Injective hash) (topic : String)
    (i j : Fin N) : Agree C hash topic i j := by
  have hsame : nodeOf C hash j topic = nodeOf C hash i topic := by
    rw [nodeOf, queueRing_eq, nodeOf, queueRing_eq]
    exact lookup_congr hinj (by rw [members_queueRing h, members_queueRing h]) topic
  have hrouted := lookup_routed hinj (n := 150) (by decide) (C.peers i ++ [C.nodeId i]) [] topic
  rw [members_queueRing h] at hrouted
  obtain ⟨m, hm, _, _, _, hnode⟩ := hrouted.2 ⟨C.nodeId i, by simp⟩
  obtain ⟨k, _, rfl⟩ := Finset.mem_image.mp hm
  exact ⟨k, _, _, hnode, hsame.trans hnode, denotes_nodeId h i k, denotes_nodeId h j k⟩

/-! ## Agreement -/

/-- **The nodes agree on the node of every topic** under every hash only
if there is one node, and under every hash without collisions exactly if
every node is known to the others by its id. -/
theorem topics_agree (C : ClusterConfig N) :
    ((∀ hash topic i j, Agree C hash topic i j) ↔ N ≤ 1) ∧
      ((∀ hash, Function.Injective hash → ∀ topic i j, Agree C hash topic i j) ↔
        ∀ i j, i ≠ j → C.nodeId i ∈ C.peers j) := by
  refine ⟨⟨?_, fun hN => agree_of_alone hN⟩, ⟨?_, fun h hash hinj => agree_of_knownById h hinj⟩⟩
  · intro hall
    by_contra hN
    have hij : (⟨0, by omega⟩ : Fin N) ≠ ⟨1, by omega⟩ := by simp
    exact not_agree_of_ids hij (nodeOf_of_constant C 0 _ "") (nodeOf_of_constant C 0 _ "")
      (hall (fun _ => 0) "" _ _)
  · intro hall i j hij
    by_contra hmem
    exact not_agree_of_not_mem hij hmem (hall _ (listedFirst_injective _) "" i j)

/-- Two of the three default nodes, under a hash without collisions. -/
theorem default_nodes_disagree :
    ∃ hash topic i j, Function.Injective hash ∧ ¬ Agree threeNodes hash topic i j :=
  ⟨_, "", 0, 1, listedFirst_injective _,
    not_agree_of_not_mem (by decide) (by decide +kernel)⟩

end SyncSystem.Queue
