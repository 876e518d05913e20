/-
SyncSystem.Queue.Membership — the ring as a function of its members.

Under a hash that maps different strings to different positions, a
position belongs to one virtual node of one node at most, because the
label `{node}:vn{i}` can be read backwards: what follows its last colon
holds no colon. So the ring dictionary of any history is the table of
the positions of its members, and two histories with the same members
route every key alike (`lookup_by_membership`).
-/
import SyncSystem.Queue.Ring
import Mathlib.Data.Finset.Insert
import Mathlib.Data.Finset.Dedup
import Mathlib.Logic.Equiv.List

namespace SyncSystem.Queue

open SyncSystem.Python
open SyncSystem.Hashing

/-! ## Labels -/

/-- A text is cut at its last separator in one way. -/
theorem append_sep_inj {α : Type} {sep : α} {a a' b b' : List α} (hb : sep ∉ b) (hb' : sep ∉ b')
    (h : a ++ sep :: b = a' ++ sep :: b') : a = a' ∧ b = b' := by
  rcases List.append_eq_append_iff.mp h with ⟨mid, rfl, hmid⟩ | ⟨mid, rfl, hmid⟩ <;>
    cases mid with
    | nil => exact ⟨by simp, by simpa [eq_comm] using hmid⟩
    | cons x rest =>
      have htail := (List.cons.inj hmid).2
      simp [htail] at hb hb'

theorem vnodeLabel_toList (node : String) (i : Nat) :
    (vnodeLabel node i).toList = node.toList ++ ':' :: ('v' :: 'n' :: Nat.toDigits 10 i) := by
  simp [vnodeLabel, Nat.toList_repr]

theorem colon_not_mem_suffix (i : Nat) : ':' ∉ 'v' :: 'n' :: Nat.toDigits 10 i := by
  simp only [List.mem_cons, not_or]
  refine ⟨by decide, by decide, ?_⟩
  intro hmem
  have hdigit := Nat.isDigit_of_mem_toDigits (by decide) (by decide) hmem
  exact absurd hdigit (by decide)

theorem vnodeLabel_inj {node node' : String} {i i' : Nat}
    (h : vnodeLabel node i = vnodeLabel node' i') : node = node' ∧ i = i' := by
  have hlist := congrArg String.toList h
  rw [vnodeLabel_toList, vnodeLabel_toList] at hlist
  obtain ⟨hnode, hsuffix⟩ :=
    append_sep_inj (colon_not_mem_suffix i) (colon_not_mem_suffix i') hlist
  refine ⟨String.toList_inj.mp hnode, repr_injective (String.toList_inj.mp ?_)⟩
  rw [Nat.toList_repr, Nat.toList_repr]
  exact (List.cons.inj (List.cons.inj hsuffix).2).2

namespace ConsistentHashRing

/-! ## Members -/

/-- The members after these changes. -/
def members (nodes : List String) (ops : List RingOp) : Finset String :=
  ops.foldl (fun M op =>
    match op with
    | .add node => insert node M
    | .remove node => M.erase node) nodes.toFinset

/-- The positions of all these nodes. -/
def positions (hash : String → Nat) (n : Int) (M : Finset String) : Set Nat :=
  {p | ∃ m ∈ M, PositionOf hash n m p}

/-- What the membership says of a lookup: nothing is found when there are
no members; otherwise the member is found whose position serves the key. -/
def RoutedByMembers (hash : String → Nat) (n : Int) (M : Finset String) (key : String)
    (result : Except PyError (Option String)) : Prop :=
  (result = .ok none ↔ M = ∅) ∧
    (M.Nonempty → ∃ m ∈ M, ∃ i : Nat, i < n ∧
      Serves (positions hash n M) (hash key) (hash (vnodeLabel m i)) ∧ result = .ok (some m))

/-- The owners are the members, at their positions. -/
structure OwnedByMembers (hash : String → Nat) (n : Int) (M : Finset String)
    (r : ConsistentHashRing) : Prop where
  virtualNodes : r.virtualNodes = n
  owners : ∀ p v, r.ring.get? p = some v ↔ v ∈ M ∧ PositionOf hash n v p

variable {hash : String → Nat} {n : Int} {r : ConsistentHashRing} {M : Finset String}

theorem positionOf_first (hash : String → Nat) (hn : 1 ≤ n) (node : String) :
    PositionOf hash n node (hash (vnodeLabel node 0)) :=
  ⟨0, Int.lt_of_lt_of_le Int.zero_lt_one hn, rfl⟩

theorem positionOf_inj (hinj : Function.Injective hash) {m m' : String} {p : Nat}
    (h : PositionOf hash n m p) (h' : PositionOf hash n m' p) : m = m' := by
  obtain ⟨i, _, rfl⟩ := h
  obtain ⟨i', _, heq⟩ := h'
  exact (vnodeLabel_inj (hinj heq)).1

/-- The positions of one more node, on top of a table by members. -/
theorem owners_assign (hinj : Function.Injective hash) {d : Dict Nat String}
    (h : ∀ p v, d.get? p = some v ↔ v ∈ M ∧ PositionOf hash n v p) (node : String) (p : Nat)
    (v : String) :
    (assign hash n d node).get? p = some v ↔ v ∈ insert node M ∧ PositionOf hash n v p := by
  rw [get?_assign, h, Finset.mem_insert]
  constructor
  · rintro (⟨hp, rfl⟩ | ⟨_, hv, hp⟩)
    · exact ⟨Or.inl rfl, hp⟩
    · exact ⟨Or.inr hv, hp⟩
  · rintro ⟨hv, hp⟩
    by_cases hnode : PositionOf hash n node p
    · exact Or.inl ⟨hnode, positionOf_inj hinj hp hnode⟩
    · refine Or.inr ⟨hnode, hv.resolve_left ?_, hp⟩
      rintro rfl
      exact hnode hp

theorem owners_build (hinj : Function.Injective hash) (nodes : List String) (p : Nat)
    (v : String) :
    (nodes.foldl (assign hash n) .empty).get? p = some v ↔
      v ∈ nodes.toFinset ∧ PositionOf hash n v p := by
  induction nodes using List.reverseRecOn generalizing p v with
  | nil => simp
  | append_singleton nodes node ih =>
    rw [List.foldl_append, List.foldl_cons, List.foldl_nil, owners_assign hinj ih]
    simp

theorem ownedByMembers_after (hinj : Function.Injective hash) (nodes : List String)
    (ops : List RingOp) : OwnedByMembers hash n (members nodes ops) (after hash n nodes ops) := by
  refine after_induction
    (I := fun ops r => OwnedByMembers hash n (members nodes ops) r) ?_ ?_ ops
  · exact ⟨rfl, owners_build hinj nodes⟩
  · intro ops r op ih
    rw [members, List.foldl_append, List.foldl_cons, List.foldl_nil, ← members]
    cases op with
    | add node =>
      refine ⟨ih.virtualNodes, ?_⟩
      rw [apply, addNode, withRing_ring, ih.virtualNodes]
      exact owners_assign hinj ih.owners node
    | remove node =>
      refine ⟨ih.virtualNodes, ?_⟩
      intro p v
      rw [apply, get?_removeNode, ih.owners, Finset.mem_erase]
      tauto

theorem OwnedByMembers.owned (h : OwnedByMembers hash n M r) :
    Hashing.owned r.ring.get? = positions hash n M := by
  ext p
  constructor
  · rintro ⟨v, hv⟩
    exact ⟨v, (h.owners p v).mp hv⟩
  · rintro ⟨m, hm⟩
    exact ⟨m, (h.owners p m).mpr hm⟩

/-- A consistent ring owned by its members is looked up by membership. -/
theorem OwnedByMembers.routed (h : OwnedByMembers hash n M r) (hc : r.Consistent) (hn : 1 ≤ n)
    (key : String) : RoutedByMembers hash n M key (r.getNode hash key) := by
  obtain ⟨v, hv, hroutes⟩ := getNode_routes hash hc key
  rw [hv]
  cases v with
  | none =>
    have hempty : M = ∅ := by
      rw [Finset.eq_empty_iff_forall_notMem]
      intro m hm
      have hsome := (h.owners _ m).mpr ⟨hm, positionOf_first hash hn m⟩
      rw [hroutes] at hsome
      cases hsome
    refine ⟨by simp [hempty], ?_⟩
    rintro ⟨m, hm⟩
    simp [hempty] at hm
  | some m =>
    obtain ⟨p, hserves, hp⟩ := hroutes
    obtain ⟨hm, i, hi, rfl⟩ := (h.owners p m).mp hp
    rw [h.owned] at hserves
    refine ⟨?_, fun _ => ⟨m, hm, i, hi, hserves, rfl⟩⟩
    simp [Finset.ne_empty_of_mem hm]

theorem lookup_routed (hinj : Function.Injective hash) (hn : 1 ≤ n) (nodes : List String)
    (ops : List RingOp) (key : String) :
    RoutedByMembers hash n (members nodes ops) key ((after hash n nodes ops).getNode hash key) :=
  (ownedByMembers_after hinj nodes ops).routed (consistent_after n nodes ops) hn key

theorem lookup_congr (hinj : Function.Injective hash) {nodes nodes' : List String}
    {ops ops' : List RingOp} (hsame : members nodes' ops' = members nodes ops) (key : String) :
    (after hash n nodes' ops').getNode hash key = (after hash n nodes ops).getNode hash key := by
  have howned := ownedByMembers_after (n := n) hinj nodes ops
  have howned' := ownedByMembers_after (n := n) hinj nodes' ops'
  obtain ⟨v, hv, hroutes⟩ := getNode_routes hash (consistent_after n nodes ops) key
  obtain ⟨v', hv', hroutes'⟩ := getNode_routes hash (consistent_after n nodes' ops') key
  have howner : (after hash n nodes' ops').ring.get? = (after hash n nodes ops).ring.get? := by
    funext p
    refine Option.ext fun v => ?_
    rw [howned.owners, howned'.owners, hsame]
  rw [howner] at hroutes'
  rw [hv, hv', hroutes'.unique hroutes]

/-- A member whose first position is the least of all gets every key that
hashes below it. -/
theorem getNode_of_least (hinj : Function.Injective hash) (hn : 1 ≤ n) {nodes : List String}
    {ops : List RingOp} {node key : String} (hmem : node ∈ members nodes ops)
    (hleast : ∀ m ∈ members nodes ops, ∀ i, hash (vnodeLabel node 0) ≤ hash (vnodeLabel m i))
    (hkey : hash key ≤ hash (vnodeLabel node 0)) :
    (after hash n nodes ops).getNode hash key = .ok (some node) := by
  have hserves : Serves (positions hash n (members nodes ops)) (hash key)
      (hash (vnodeLabel node 0)) := by
    refine ⟨⟨node, hmem, positionOf_first hash hn node⟩, Or.inl ⟨hkey, ?_⟩⟩
    rintro q ⟨m, hm, i, _, rfl⟩ _
    exact hleast m hm i
  obtain ⟨m, hm, i, hi, hserves', hget⟩ :=
    ((lookup_routed hinj hn nodes ops key).2 ⟨node, hmem⟩)
  have hsame := (vnodeLabel_inj (hinj (hserves'.unique hserves))).1
  rw [hget, hsame]

/-- **Lookup depends only on the membership.** -/
theorem lookup_by_membership (hinj : Function.Injective hash) (hn : 1 ≤ n) (nodes : List String)
    (ops : List RingOp) :
    (∀ key, RoutedByMembers hash n (members nodes ops) key
        ((after hash n nodes ops).getNode hash key)) ∧
      ∀ nodes' ops', members nodes' ops' = members nodes ops → ∀ key,
        (after hash n nodes' ops').getNode hash key = (after hash n nodes ops).getNode hash key :=
  ⟨lookup_routed hinj hn nodes ops, fun _ _ hsame => lookup_congr hinj hsame⟩

/-- Different numbers for different texts. -/
def textNumber (s : String) : Nat := Encodable.encode (s.toList.map Char.toNat)

theorem textNumber_injective : Function.Injective textNumber := by
  intro s s' h
  have hcodes := Encodable.encode_injective h
  refine String.toList_inj.mp (List.map_injective_iff.mpr ?_ hcodes)
  exact fun c c' hc => Char.toNat_inj.mp hc

/-- One node joins twice and another one leaves. -/
def changes : List RingOp := [.add "c", .remove "b", .add "c"]

theorem lookup_by_membership_twoHistories :
    (∀ key, RoutedByMembers textNumber 2 {"a", "c"} key
        ((after textNumber 2 ["a", "b"] changes).getNode textNumber key)) ∧
      ∀ key, (after textNumber 2 ["c", "a"] []).getNode textNumber key =
        (after textNumber 2 ["a", "b"] changes).getNode textNumber key := by
  have hlookup := lookup_by_membership textNumber_injective (n := 2) (by decide) ["a", "b"] changes
  have hmembers : members ["a", "b"] changes = {"a", "c"} := by decide +kernel
  exact ⟨hmembers ▸ hlookup.1, hlookup.2 ["c", "a"] [] (by decide +kernel)⟩

end ConsistentHashRing

end SyncSystem.Queue
