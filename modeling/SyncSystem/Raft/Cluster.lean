/-
SyncSystem.Raft.Cluster — nodes that hear only each other.

The network keeps every packet that was ever written, and a delivery
hands one of them to the node that listens on its port: so a packet may
be delayed, reordered, duplicated or lost, but not forged. Addresses are
strings, as in the code; that a response finds the node that asked is
the fact that `peerPort` reads back the port `address` prints.
-/
import SyncSystem.Raft.TermTheorems
import Mathlib.Data.List.FinRange
import Mathlib.Logic.Function.Basic

namespace SyncSystem.Raft

open SyncSystem.Python

/-- The configuration of a cluster: different ids, different ports, and
at every node the addresses of all the others as its peers. -/
structure ClusterConfig (N : Nat) where
  nodeId : Fin N → String
  port : Fin N → Nat
  peers : Fin N → List String
  nodeId_injective : Function.Injective nodeId
  port_injective : Function.Injective port
  peers_others : ∀ i, ((peers i).map peerPort).Perm
    (((List.finRange N).filter (· ≠ i)).map (fun j => some (port j)))

/-- `node_1`, `node_2` and `node_3` on ports 8001 to 8003. -/
def threeNodes : ClusterConfig 3 where
  nodeId i := "node_" ++ (i.val + 1).repr
  port i := 8001 + i.val
  peers i := ((List.finRange 3).filter (· ≠ i)).map (fun j => address (8001 + j.val))
  nodeId_injective := by decide +kernel
  port_injective := by decide +kernel
  peers_others := by decide +kernel

structure Cluster (N : Nat) where
  procs : Fin N → RaftProcess
  net : List Packet

inductive ClusterAction (N : Nat) where
  /-- An atomic section of node `i` other than the receipt of a message. -/
  | act (i : Fin N) (a : NodeAction)
  /-- The `k`-th packet of the network reaches node `i`. -/
  | deliver (i : Fin N) (k : Nat)

variable {N : Nat}

namespace Cluster

def init (C : ClusterConfig N) : Cluster N where
  procs i := RaftProcess.init (C.nodeId i) (C.peers i) (C.port i)
  net := []

/-- Node `i` performs `a`; what it writes goes to the network. -/
def perform (s : Cluster N) (i : Fin N) (a : NodeAction) : Option (Cluster N × Unit) :=
  match (s.procs i).step a with
  | some (p, out) => some (⟨Function.update s.procs i p, s.net ++ out⟩, ())
  | none => none

def step (s : Cluster N) : ClusterAction N → Option (Cluster N × Unit)
  | .act _ (.receive _) => none
  | .act i a => s.perform i a
  | .deliver i k =>
      match s.net[k]? with
      | some pkt =>
          if pkt.port = (s.procs i).node.port then s.perform i (.receive pkt.msg) else none
      | none => none

def machine (N : Nat) : Machine (Cluster N) (ClusterAction N) Unit := ⟨step⟩

/-- The action is `a` at node `i`, with a received message from the network. -/
inductive Performs (s : Cluster N) : ClusterAction N → Fin N → NodeAction → Prop where
  | act (i : Fin N) (a : NodeAction) : (∀ msg, a ≠ .receive msg) → Performs s (.act i a) i a
  | deliver (i : Fin N) (k : Nat) (pkt : Packet) : s.net[k]? = some pkt →
      pkt.port = (s.procs i).node.port → Performs s (.deliver i k) i (.receive pkt.msg)

/-- Every step of the cluster is a step of one node. -/
theorem step_cases {s s' : Cluster N} {a : ClusterAction N} {u : Unit}
    (h : (machine N).step s a = some (s', u)) :
    ∃ i b p out, Performs s a i b ∧ (s.procs i).step b = some (p, out) ∧
      s' = ⟨Function.update s.procs i p, s.net ++ out⟩ := by
  have hperform : ∀ i b, Performs s a i b → s.perform i b = some (s', u) →
      ∃ i b p out, Performs s a i b ∧ (s.procs i).step b = some (p, out) ∧
        s' = ⟨Function.update s.procs i p, s.net ++ out⟩ := by
    intro i b hp hs
    unfold perform at hs
    split at hs
    · next p out hstep => cases hs; exact ⟨i, b, p, out, hp, hstep, rfl⟩
    · cases hs
  cases a with
  | act i b =>
    cases b with
    | receive msg => cases h
    | _ => exact hperform i _ (.act i _ (by simp)) h
  | deliver i k =>
    simp only [machine, step] at h
    split at h
    · next pkt hpkt =>
      split at h
      · next hport => exact hperform i _ (.deliver i k pkt hpkt hport) h
      · cases h
    · cases h

end Cluster

abbrev ClusterRun (N : Nat) := Config (Cluster N) (ClusterAction N) Unit

/-! ## What every run keeps -/

/-- The nodes have the configured identities, and the network carries
only messages that some node has built. -/
structure WellFormed (C : ClusterConfig N) (s : Cluster N) : Prop where
  nodeId : ∀ i, (s.procs i).node.nodeId = C.nodeId i
  port : ∀ i, (s.procs i).node.port = C.port i
  peers : ∀ i, (s.procs i).node.peers = C.peers i
  honest : ∀ pkt ∈ s.net, BuiltBy (fun n => ∃ i, n.nodeId = C.nodeId i) pkt.msg

theorem BuiltBy.mono {P Q : RaftNode → Prop} {msg : Obj} (h : BuiltBy P msg)
    (hPQ : ∀ n, P n → Q n) : BuiltBy Q msg := by
  cases h with
  | requestVote n i t hn => exact .requestVote n i t (hPQ n hn)
  | heartbeat n hn => exact .heartbeat n (hPQ n hn)
  | voteResponse n granted hn => exact .voteResponse n granted (hPQ n hn)

theorem RaftProcess.NodeEffect.sameIdentity {n n' : RaftNode} {a : NodeAction}
    (h : NodeEffect n a n') : SameIdentity n n' := by
  cases h with
  | elected => exact ⟨rfl, rfl, rfl⟩
  | received msg r hr => exact hr.sameIdentity
  | submitted command data => exact sameIdentity_submitCommand n command data
  | same => exact ⟨rfl, rfl, rfl⟩

theorem wellFormed_init (C : ClusterConfig N) : WellFormed C (Cluster.init C) where
  nodeId _ := rfl
  port _ := rfl
  peers _ := rfl
  honest := by intro pkt h; cases h

theorem wellFormed_step {C : ClusterConfig N} {s s' : Cluster N} {a : ClusterAction N} {u : Unit}
    (hw : WellFormed C s) (h : (Cluster.machine N).step s a = some (s', u)) :
    WellFormed C s' := by
  obtain ⟨i, b, p, out, _, hstep, rfl⟩ := Cluster.step_cases h
  obtain ⟨hid, hport, hpeers⟩ := (RaftProcess.step_node hstep).sameIdentity
  refine ⟨?_, ?_, ?_, ?_⟩
  · exact (Function.forall_update_iff _ fun j (q : RaftProcess) => q.node.nodeId = C.nodeId j).mpr
      ⟨hid.trans (hw.nodeId i), fun j _ => hw.nodeId j⟩
  · exact (Function.forall_update_iff _ fun j (q : RaftProcess) => q.node.port = C.port j).mpr
      ⟨hport.trans (hw.port i), fun j _ => hw.port j⟩
  · exact (Function.forall_update_iff _ fun j (q : RaftProcess) => q.node.peers = C.peers j).mpr
      ⟨hpeers.trans (hw.peers i), fun j _ => hw.peers j⟩
  · intro pkt hpkt
    rcases List.mem_append.mp hpkt with hpkt | hpkt
    · exact hw.honest pkt hpkt
    · obtain ⟨k, t, rfl, _, hmem⟩ := RaftProcess.output_step hstep hpkt
      refine (SendTask.builtBy hmem).mono ?_
      rintro n rfl
      exact ⟨i, hw.nodeId i⟩

/-- What every process and every packet keeps, if the node that moves
keeps it. -/
theorem Cluster.forall_step {P : RaftProcess → Prop} {R : Packet → Prop} {s s' : Cluster N}
    {a : ClusterAction N} {u : Unit} (h : (Cluster.machine N).step s a = some (s', u))
    (hprocs : ∀ i, P (s.procs i)) (hnet : ∀ pkt ∈ s.net, R pkt)
    (hmoves : ∀ i b p out, Cluster.Performs s a i b → (s.procs i).step b = some (p, out) →
      P p ∧ ∀ pkt ∈ out, R pkt) :
    (∀ i, P (s'.procs i)) ∧ ∀ pkt ∈ s'.net, R pkt := by
  obtain ⟨i, b, p, out, hperf, hstep, rfl⟩ := Cluster.step_cases h
  obtain ⟨hp, hout⟩ := hmoves i b p out hperf hstep
  refine ⟨?_, ?_⟩
  · exact (Function.forall_update_iff _ fun _ (q : RaftProcess) => P q).mpr
      ⟨hp, fun j _ => hprocs j⟩
  · intro pkt hpkt
    rcases List.mem_append.mp hpkt with hpkt | hpkt
    · exact hnet pkt hpkt
    · exact hout pkt hpkt

theorem wellFormed_of_leads {ok : Config (Cluster N) (ClusterAction N) Unit → ClusterAction N → Prop}
    {C : ClusterConfig N} {c : Config (Cluster N) (ClusterAction N) Unit}
    (h : (Cluster.machine N).Leads ok ([], Cluster.init C) c) : WellFormed C c.2 :=
  h.invariant (I := fun c => WellFormed C c.2) (wellFormed_init C)
    (fun _ _ _ _ _ ih _ hs => wellFormed_step ih hs)

/-- A message a node receives in a run names its candidate by a string. -/
theorem stringCandidate_of_performs {C : ClusterConfig N} {s : Cluster N} {a : ClusterAction N}
    {i : Fin N} {b : NodeAction} (hw : WellFormed C s) (h : Cluster.Performs s a i b) :
    ∀ msg, b = .receive msg → stringCandidate msg = true := by
  rintro msg rfl
  cases h with
  | act _ _ hne => exact absurd rfl (hne msg)
  | deliver _ k pkt hk _ => exact (hw.honest pkt (List.mem_of_getElem? hk)).stringCandidate

/-- Along a run of the cluster no node's ballot goes down. -/
theorem ballot_cluster_step {C : ClusterConfig N} {s s' : Cluster N} {a : ClusterAction N}
    {u : Unit} (hw : WellFormed C s) (h : (Cluster.machine N).step s a = some (s', u))
    (j : Fin N) : (s.procs j).node.ballot ≤ (s'.procs j).node.ballot := by
  obtain ⟨i, b, p, out, hperf, hstep, rfl⟩ := Cluster.step_cases h
  rcases eq_or_ne j i with rfl | hj
  · simp only [Function.update_self]
    exact ballot_step (stringCandidate_of_performs hw hperf) hstep
  · simp only [Function.update_of_ne hj]
    exact le_rfl

theorem peers_length {C : ClusterConfig N} (i : Fin N) : (C.peers i).length + 1 = N := by
  have hperm := (C.peers_others i).length_eq
  have hfilter : ((List.finRange N).filter (· ≠ i)).length = N - 1 := by
    have herase := (List.nodup_finRange N).erase_eq_filter i
    have hlen := List.length_erase_of_mem (List.mem_finRange i)
    rw [herase, List.length_finRange] at hlen
    convert hlen using 3
    funext j
    by_cases hj : j = i <;> simp [hj]
  simp only [List.length_map] at hperm
  have := i.pos
  omega

end SyncSystem.Raft
