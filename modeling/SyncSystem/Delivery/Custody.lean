/-
SyncSystem.Delivery.Custody — items that are kept until they are
acknowledged.

`Custody ident places accepted acked` says of a store, whatever it is
made of, that the items in its places are different items that were
accepted, and that every accepted item that has not been acknowledged is
still in one of them. The rules are the things a store does: it accepts
an item, moves items about, lets an acknowledged item go, and records an
acknowledgement. The order of the places does not matter.
-/
import Mathlib.Data.List.Nodup
import Mathlib.Data.List.Perm.Basic

namespace SyncSystem.Delivery

variable {μ ι : Type} {ident : μ → ι}

structure Custody (ident : μ → ι) (places accepted : List μ) (acked : List ι) : Prop where
  distinct : (places.map ident).Nodup
  known : ∀ m ∈ places, m ∈ accepted
  kept : ∀ m ∈ accepted, ident m ∉ acked → m ∈ places

namespace Custody

variable {places places' accepted : List μ} {acked : List ι} {m : μ}

theorem empty : Custody ident [] [] [] := ⟨List.nodup_nil, by simp, by simp⟩

/-- Items are moved. -/
theorem perm (h : Custody ident places accepted acked) (hp : places.Perm places') :
    Custody ident places' accepted acked where
  distinct := (hp.map ident).nodup_iff.mp h.distinct
  known := fun x hx => h.known x (hp.mem_iff.mpr hx)
  kept := fun x hx hack => hp.mem_iff.mp (h.kept x hx hack)

/-- An item with a new identity is accepted. -/
theorem accept (h : Custody ident places accepted acked)
    (hfresh : ∀ x ∈ accepted, ident x ≠ ident m) :
    Custody ident (m :: places) (m :: accepted) acked := by
  refine ⟨?_, ?_, ?_⟩
  · rw [List.map_cons, List.nodup_cons]
    refine ⟨?_, h.distinct⟩
    intro hmem
    obtain ⟨x, hx, heq⟩ := List.mem_map.mp hmem
    exact hfresh x (h.known x hx) heq
  · intro x hx
    rcases List.mem_cons.mp hx with rfl | hx
    · exact List.mem_cons_self
    · exact List.mem_cons_of_mem _ (h.known x hx)
  · intro x hx hack
    rcases List.mem_cons.mp hx with rfl | hx
    · exact List.mem_cons_self
    · exact List.mem_cons_of_mem _ (h.kept x hx hack)

/-- An acknowledged item is let go. -/
theorem drop (h : Custody ident (m :: places) accepted acked) (hack : ident m ∈ acked) :
    Custody ident places accepted acked := by
  refine ⟨?_, ?_, ?_⟩
  · exact (List.nodup_cons.mp h.distinct).2
  · exact fun x hx => h.known x (List.mem_cons_of_mem _ hx)
  · intro x hx hnot
    rcases List.mem_cons.mp (h.kept x hx hnot) with rfl | hmem
    · exact absurd hack hnot
    · exact hmem

/-- An item is let go that was not acknowledged: it is no longer one of
those that are kept. -/
theorem lose [DecidableEq ι] (h : Custody ident (m :: places) accepted acked) :
    Custody ident places (accepted.filter fun x => decide (ident x ≠ ident m)) acked := by
  refine ⟨(List.nodup_cons.mp h.distinct).2, ?_, ?_⟩
  · intro x hx
    have hne : ident x ≠ ident m := by
      intro heq
      exact (List.nodup_cons.mp h.distinct).1 (heq ▸ List.mem_map_of_mem hx)
    simp [h.known x (List.mem_cons_of_mem _ hx), hne]
  · intro x hx hnot
    obtain ⟨hacc, hne⟩ := List.mem_filter.mp hx
    rcases List.mem_cons.mp (h.kept x hacc hnot) with rfl | hmem
    · simp at hne
    · exact hmem

/-- An acknowledgement is recorded. -/
theorem ack (h : Custody ident places accepted acked) (i : ι) :
    Custody ident places accepted (i :: acked) where
  distinct := h.distinct
  known := h.known
  kept := fun x hx hnot => h.kept x hx (fun hmem => hnot (List.mem_cons_of_mem _ hmem))

/-- An item in custody is there once. -/
theorem count_eq_one [DecidableEq μ] (h : Custody ident places accepted acked)
    (hm : m ∈ accepted) (hack : ident m ∉ acked) : places.count m = 1 :=
  List.count_eq_one_of_mem (List.Nodup.of_map ident h.distinct) (h.kept m hm hack)

/-- Two items at different places have different identities. -/
theorem not_mem_of_cons (h : Custody ident (m :: places) accepted acked) :
    ∀ x ∈ places, ident x ≠ ident m := by
  intro x hx heq
  exact (List.nodup_cons.mp h.distinct).1 (heq ▸ List.mem_map_of_mem hx)

end Custody

end SyncSystem.Delivery
