/-
SyncSystem.Recency.Inclusion — two lists by last use, the shorter one
inside the longer.

A list that drops its head earlier than another has fewer items, in the
same order (`List.Sublist`). A use of an item keeps it so, whether both
lists note it or only the longer one, and so does dropping the head of
the shorter list, with or without that of the longer, or filtering both.
-/
import Mathlib.Data.List.Basic

namespace SyncSystem.Recency

variable {α : Type} {small big : List α}

/-- The item goes to the end of both. -/
theorem use_both [BEq α] (h : small.Sublist big) (a : α) :
    (small.filter (fun b => !(b == a)) ++ [a]).Sublist (big.filter (fun b => !(b == a)) ++ [a]) :=
  (h.filter _).append (List.Sublist.refl [a])

/-- Only the longer list has the item. -/
theorem use_longer [BEq α] (h : small.Sublist big) {a : α}
    (hnone : ∀ b ∈ small, (b == a) = false) :
    small.Sublist (big.filter (fun b => !(b == a)) ++ [a]) := by
  have hkeep : small.filter (fun b => !(b == a)) = small := by
    rw [List.filter_eq_self]
    intro b hb
    rw [hnone b hb]
    rfl
  have hfilter := h.filter (fun b => !(b == a))
  rw [hkeep] at hfilter
  exact hfilter.trans (List.sublist_append_left _ _)

/-- What is left of both when items are dropped, by conditions that agree
on the items of the shorter list. -/
theorem filter_both {p q : α → Bool} (h : small.Sublist big) (hsame : ∀ a ∈ small, p a = q a) :
    (small.filter p).Sublist (big.filter q) := by
  rw [List.filter_congr hsame]
  exact h.filter q

/-- The shorter list loses no more items than the longer one. -/
theorem length_filter_both {p q : α → Bool} (h : small.Sublist big)
    (hsame : ∀ a ∈ small, p a = q a) :
    (big.filter q).length + small.length ≤ (small.filter p).length + big.length := by
  have hlost := h.countP_le (p := fun a => decide ¬ q a = true)
  have hsmall := small.length_eq_countP_add_countP q
  have hbig := big.length_eq_countP_add_countP q
  rw [List.filter_congr hsame, ← List.countP_eq_length_filter, ← List.countP_eq_length_filter]
  omega

end SyncSystem.Recency
