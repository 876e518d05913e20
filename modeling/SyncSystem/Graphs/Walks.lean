/-
SyncSystem.Graphs.Walks — closed walks in a directed graph.

A graph is its edge relation, on vertices of any type. That there is a
directed cycle of some length is said by the transitive closure of the
edges; that a list of vertices goes round one is said of the list. The
two agree (`hasCycle_iff`).
-/
import Mathlib.Data.List.Chain
import Mathlib.Logic.Relation

namespace SyncSystem.Graphs

variable {α : Type} {E : α → α → Prop}

/-- There is a directed cycle: a vertex that can be reached from itself
by one edge or more. -/
def HasCycle (E : α → α → Prop) : Prop := ∃ a, Relation.TransGen E a a

/-- The list goes along edges and ends where it starts. -/
structure ClosedWalk (E : α → α → Prop) (walk : List α) : Prop where
  edges : walk.IsChain E
  closed : walk.head? = walk.getLast?
  moves : 2 ≤ walk.length

theorem ClosedWalk.hasCycle {walk : List α} (h : ClosedWalk E walk) : HasCycle E := by
  obtain ⟨edges, closed, moves⟩ := h
  cases walk with
  | nil => simp at moves
  | cons a walk =>
    cases walk with
    | nil => simp at moves
    | cons b rest =>
      obtain ⟨hab, hrest⟩ := List.isChain_cons_cons.mp edges
      -- the rest of the walk leads back
      have hlast : (b :: rest).getLast (by simp) = a := by
        rw [List.getLast?_cons_cons, List.getLast?_eq_some_getLast (by simp)] at closed
        exact (Option.some.inj closed).symm
      exact ⟨a, .head' hab (List.relationReflTransGen_of_exists_isChain_cons rest hrest hlast)⟩

theorem hasCycle_iff : HasCycle E ↔ ∃ walk, ClosedWalk E walk := by
  constructor
  · intro ⟨a, h⟩
    obtain ⟨b, hab, hba⟩ := Relation.TransGen.head'_iff.mp h
    obtain ⟨walk, hchain, hlast⟩ := List.exists_isChain_cons_of_relationReflTransGen hba
    refine ⟨a :: b :: walk, List.isChain_cons_cons.mpr ⟨hab, hchain⟩, ?_, by simp⟩
    rw [List.getLast?_cons_cons, List.getLast?_eq_some_getLast (by simp), hlast]
    rfl
  · intro ⟨walk, h⟩
    exact h.hasCycle

/-- There and back. -/
theorem closedWalk_pair {a b : α} (hab : E a b) (hba : E b a) : ClosedWalk E [a, b, a] where
  edges := by simp [hab, hba]
  closed := rfl
  moves := by simp

end SyncSystem.Graphs
