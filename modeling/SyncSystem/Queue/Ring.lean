/-
SyncSystem.Queue.Ring — `ConsistentHashRing` of `src/nodes/queue_node.py`.

The ring is a dictionary from positions to nodes and, kept beside it,
the sorted list of its keys. The hash is a parameter, so what holds for
every hash holds for MD5. `Consistent` is that the two agree; it is all
the lookup needs to be the routing of `Hashing.Circle` for the owners in
the dictionary (`getNode_routes`).
-/
import SyncSystem.Queue.Node
import SyncSystem.Hashing.Circle
import Mathlib.Data.List.Induction

namespace SyncSystem.Queue

open SyncSystem.Python
open SyncSystem.Hashing

structure ConsistentHashRing where
  virtualNodes : Int
  ring : Dict Nat String
  sortedKeys : List Nat

/-- `f"{node}:vn{i}"`. -/
def vnodeLabel (node : String) (i : Nat) : String := node ++ ":vn" ++ i.repr

namespace ConsistentHashRing

/-- The positions of `node` assigned to it, in a ring with `n` virtual nodes. -/
def assign (hash : String → Nat) (n : Int) (d : Dict Nat String) (node : String) :
    Dict Nat String :=
  (List.range n.toNat).foldl (fun d i => d.set (hash (vnodeLabel node i)) node) d

/-- A new dictionary, with `sorted(self.ring.keys())` beside it. -/
def withRing (r : ConsistentHashRing) (d : Dict Nat String) : ConsistentHashRing :=
  { r with ring := d, sortedKeys := d.keys.insertionSort (· ≤ ·) }

/-- `_build_ring`. -/
def buildRing (hash : String → Nat) (r : ConsistentHashRing) (nodes : List String) :
    ConsistentHashRing :=
  r.withRing (nodes.foldl (assign hash r.virtualNodes) .empty)

/-- `__init__`. -/
def init (hash : String → Nat) (nodes : List String) (virtualNodes : Int) : ConsistentHashRing :=
  buildRing hash ⟨virtualNodes, .empty, []⟩ nodes

/-- `self.ring[k]`. -/
def owner (r : ConsistentHashRing) (k : Nat) : Except PyError (Option String) :=
  match r.ring.get? k with
  | some node => .ok (some node)
  | none => .error .keyError

/-- `get_node`. -/
def getNode (hash : String → Nat) (r : ConsistentHashRing) (key : String) :
    Except PyError (Option String) :=
  match r.sortedKeys with
  | [] => .ok none
  | first :: _ =>
      match r.sortedKeys.find? (hash key ≤ ·) with
      | some k => r.owner k
      | none => r.owner first

/-- `add_node`. -/
def addNode (hash : String → Nat) (r : ConsistentHashRing) (node : String) : ConsistentHashRing :=
  r.withRing (assign hash r.virtualNodes r.ring node)

/-- `remove_node`. -/
def removeNode (r : ConsistentHashRing) (node : String) : ConsistentHashRing :=
  r.withRing (r.ring.filterValues (· != node))

end ConsistentHashRing

/-- A change of the membership. -/
inductive RingOp where
  | add (node : String)
  | remove (node : String)

namespace ConsistentHashRing

def apply (hash : String → Nat) (r : ConsistentHashRing) : RingOp → ConsistentHashRing
  | .add node => r.addNode hash node
  | .remove node => r.removeNode node

/-- The ring of these nodes after these changes. -/
def after (hash : String → Nat) (n : Int) (nodes : List String) (ops : List RingOp) :
    ConsistentHashRing :=
  ops.foldl (apply hash) (init hash nodes n)

/-! ## The two structures agree -/

def Consistent (r : ConsistentHashRing) : Prop :=
  r.sortedKeys = r.ring.keys.insertionSort (· ≤ ·)

@[simp] theorem withRing_ring (r : ConsistentHashRing) (d : Dict Nat String) :
    (r.withRing d).ring = d := rfl

theorem consistent_withRing (r : ConsistentHashRing) (d : Dict Nat String) :
    (r.withRing d).Consistent := rfl

variable {hash : String → Nat} {r : ConsistentHashRing}

/-- What holds of a new ring and is kept by every change holds of every
ring. -/
theorem after_induction {I : List RingOp → ConsistentHashRing → Prop} {n : Int}
    {nodes : List String} (init : I [] (init hash nodes n))
    (step : ∀ ops r op, I ops r → I (ops ++ [op]) (r.apply hash op)) (ops : List RingOp) :
    I ops (after hash n nodes ops) := by
  induction ops using List.reverseRecOn with
  | nil => exact init
  | append_singleton ops op ih =>
    rw [after, List.foldl_append]
    exact step ops _ op ih

theorem consistent_after (n : Int) (nodes : List String) (ops : List RingOp) :
    (after hash n nodes ops).Consistent := by
  refine after_induction (I := fun _ r => r.Consistent) (consistent_withRing _ _) ?_ ops
  intro _ r op _
  cases op with
  | add node => exact consistent_withRing r _
  | remove node => exact consistent_withRing r _

/-- `getNode` is the scan for the position and a read of its owner. -/
theorem getNode_eq (key : String) :
    r.getNode hash key =
      match firstFrom r.sortedKeys (hash key) with
      | some k => r.owner k
      | none => .ok none := by
  unfold getNode firstFrom
  cases r.sortedKeys with
  | nil => rfl
  | cons first rest => cases (first :: rest).find? (hash key ≤ ·) <;> rfl

/-- The lookup raises nothing, and goes where the owners say. -/
theorem getNode_routes (hash : String → Nat) (h : r.Consistent) (key : String) :
    ∃ v, r.getNode hash key = .ok v ∧ Routes r.ring.get? (hash key) v := by
  have hkeys : {q | q ∈ r.sortedKeys} = owned r.ring.get? := by
    ext q
    rw [h]
    simp [owned, Dict.mem_keys]
  rw [getNode_eq]
  cases hfirst : firstFrom r.sortedKeys (hash key) with
  | none =>
    refine ⟨none, rfl, ?_⟩
    intro p
    have hempty := firstFrom_eq_none.mp hfirst
    rw [Option.eq_none_iff_forall_ne_some]
    intro v hv
    have hmem : p ∈ {q | q ∈ r.sortedKeys} := by
      rw [hkeys]
      exact ⟨v, hv⟩
    simp [hempty] at hmem
  | some k =>
    have hsorted : r.sortedKeys.Pairwise (· ≤ ·) := by
      rw [h]
      exact List.pairwise_insertionSort _ _
    have hserves := firstFrom_serves hsorted hfirst
    rw [hkeys] at hserves
    obtain ⟨v, hv⟩ := hserves.1
    refine ⟨some v, ?_, k, hserves, hv⟩
    simp only [owner, hv]

/-! ## Owners after a change -/

/-- A position of `node` in a ring with `n` virtual nodes. -/
def PositionOf (hash : String → Nat) (n : Int) (node : String) (p : Nat) : Prop :=
  ∃ i : Nat, i < n ∧ p = hash (vnodeLabel node i)

theorem exists_lt_succ_of_ne {α : Type} {f : Nat → α} {a : α} {k : Nat} (hk : a ≠ f k) :
    (∃ i < k + 1, a = f i) ↔ ∃ i < k, a = f i := by
  constructor
  · rintro ⟨i, hi, heq⟩
    refine ⟨i, Nat.lt_of_le_of_ne (Nat.le_of_lt_succ hi) ?_, heq⟩
    rintro rfl
    exact hk heq
  · rintro ⟨i, hi, heq⟩
    exact ⟨i, Nat.lt_succ_of_lt hi, heq⟩

/-- The first `k` virtual nodes assigned, whatever was there before. -/
theorem get?_assign_range {d : Dict Nat String} {node v : String} {p : Nat} (k : Nat) :
    ((List.range k).foldl (fun d i => d.set (hash (vnodeLabel node i)) node) d).get? p = some v ↔
      ((∃ i < k, p = hash (vnodeLabel node i)) ∧ v = node) ∨
        ((¬ ∃ i < k, p = hash (vnodeLabel node i)) ∧ d.get? p = some v) := by
  induction k with
  | zero => simp
  | succ k ih =>
    rw [List.range_succ, List.foldl_append, List.foldl_cons, List.foldl_nil, Dict.get?_set]
    by_cases hk : p = hash (vnodeLabel node k)
    · have hex : ∃ i < k + 1, p = hash (vnodeLabel node i) := ⟨k, Nat.lt_succ_self k, hk⟩
      rw [if_pos (by simp [hk]), Option.some_inj]
      exact ⟨fun hv => Or.inl ⟨hex, hv.symm⟩,
        fun h => (h.resolve_right (fun hr => hr.1 hex)).2.symm⟩
    · rw [exists_lt_succ_of_ne hk, if_neg (by simpa using Ne.symm hk), ih]

theorem get?_assign {n : Int} {d : Dict Nat String} {node v : String} {p : Nat} :
    (assign hash n d node).get? p = some v ↔
      (PositionOf hash n node p ∧ v = node) ∨
        (¬ PositionOf hash n node p ∧ d.get? p = some v) := by
  have hpos : PositionOf hash n node p ↔ ∃ i < n.toNat, p = hash (vnodeLabel node i) := by
    simp [PositionOf, Int.lt_toNat]
  rw [hpos]
  exact get?_assign_range n.toNat

/-- What is found at a position is a node with that position. -/
theorem mem_of_get?_build {n : Int} {nodes : List String} {v : String} {p : Nat}
    (h : (nodes.foldl (assign hash n) .empty).get? p = some v) :
    v ∈ nodes ∧ PositionOf hash n v p := by
  induction nodes using List.reverseRecOn with
  | nil => cases h
  | append_singleton nodes node ih =>
    rw [List.foldl_append, List.foldl_cons, List.foldl_nil, get?_assign] at h
    rcases h with ⟨hp, rfl⟩ | ⟨_, hp⟩
    · exact ⟨by simp, hp⟩
    · exact ⟨List.mem_append_left _ (ih hp).1, (ih hp).2⟩

/-- Whatever was at a position of the new node, it is the new node's. -/
theorem get?_addNode (hash : String → Nat) (r : ConsistentHashRing) (node : String) (p : Nat) :
    (r.addNode hash node).ring.get? p = r.ring.get? p ∨
      (r.addNode hash node).ring.get? p = some node := by
  by_cases hp : PositionOf hash r.virtualNodes node p
  · exact Or.inr (get?_assign.mpr (Or.inl ⟨hp, rfl⟩))
  · refine Or.inl (Option.ext fun v => ?_)
    simp [addNode, get?_assign, hp]

theorem get?_removeNode {node v : String} {p : Nat} :
    (r.removeNode node).ring.get? p = some v ↔ r.ring.get? p = some v ∧ v ≠ node := by
  simp [removeNode, Option.filter_eq_some_iff]

/-! ## Minimal disruption -/

/-- **Minimal disruption.** An added node takes keys only to itself, and
a removed node loses only its own. -/
theorem minimal_disruption (hash : String → Nat) (n : Int) (nodes : List String)
    (ops : List RingOp) (node key : String) :
    let r := after hash n nodes ops
    ((r.addNode hash node).getNode hash key = r.getNode hash key ∨
        (r.addNode hash node).getNode hash key = .ok (some node)) ∧
      (r.getNode hash key = .ok (some node) ∨
        (r.removeNode node).getNode hash key = r.getNode hash key) := by
  intro r
  obtain ⟨v, hv, hroutes⟩ := getNode_routes hash (consistent_after n nodes ops) key
  obtain ⟨w, hw, hadded⟩ :=
    getNode_routes hash (consistent_withRing r (assign hash r.virtualNodes r.ring node)) key
  obtain ⟨u, hu, hremoved⟩ :=
    getNode_routes hash (consistent_withRing r (r.ring.filterValues (· != node))) key
  refine ⟨?_, ?_⟩
  · rcases hroutes.claim (get?_addNode hash r node) hadded with heq | heq
    · exact Or.inl (hw.trans (heq ▸ hv.symm))
    · exact Or.inr (hw.trans (by rw [heq]))
  · by_cases hnode : v = some node
    · exact Or.inl (hv.trans (by rw [hnode]))
    · have hkept := hroutes.release (fun _ _ => get?_removeNode) hnode
      exact Or.inr (hu.trans ((hremoved.unique hkept) ▸ hv.symm))

end ConsistentHashRing

end SyncSystem.Queue
