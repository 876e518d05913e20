/-
SyncSystem.Consensus.Ballot — votes that are fixed within a term.

A voter's record is a term and at most one vote. `Ballot` orders these
records by how they may develop: a later term allows anything, the same
term only filling in a missing vote. A voter whose record never goes
down in this order votes once per term, and two voters' majorities of
one term share a voter, hence a vote.
-/
import Mathlib.Order.Defs.LinearOrder
import Mathlib.Data.Fintype.Card

namespace SyncSystem.Consensus

structure Ballot (τ ν : Type) where
  term : τ
  vote : Option ν

namespace Ballot

variable {τ ν : Type} [LinearOrder τ]

instance : LE (Ballot τ ν) where
  le a b := a.term < b.term ∨ (a.term = b.term ∧ (a.vote = none ∨ a.vote = b.vote))

instance : Preorder (Ballot τ ν) where
  le_refl a := Or.inr ⟨rfl, Or.inr rfl⟩
  le_trans a b c hab hbc := by
    rcases hab with hab | ⟨hab, hv⟩
    · rcases hbc with hbc | ⟨hbc, _⟩
      · exact Or.inl (hab.trans hbc)
      · exact Or.inl (hbc ▸ hab)
    · rcases hbc with hbc | ⟨hbc, hw⟩
      · exact Or.inl (hab ▸ hbc)
      · refine Or.inr ⟨hab.trans hbc, ?_⟩
        rcases hv with hv | hv
        · exact Or.inl hv
        · rw [hv]; exact hw

theorem le_of_term_lt {a b : Ballot τ ν} (h : a.term < b.term) : a ≤ b := Or.inl h

theorem term_le {a b : Ballot τ ν} (h : a ≤ b) : a.term ≤ b.term := by
  rcases h with h | ⟨h, _⟩
  · exact h.le
  · exact h.le

/-- A vote given stays for the rest of its term. -/
theorem vote_eq {a b : Ballot τ ν} (h : a ≤ b) (ht : a.term = b.term) {v : ν}
    (hv : a.vote = some v) : b.vote = some v := by
  rcases h with h | ⟨_, hn | he⟩
  · exact absurd ht h.ne
  · rw [hn] at hv; cases hv
  · rw [← he]; exact hv

/-- Two votes of one voter in one term are the same vote. -/
theorem vote_unique {a b : Ballot τ ν} (h : a ≤ b ∨ b ≤ a) (ht : a.term = b.term) {v w : ν}
    (hv : a.vote = some v) (hw : b.vote = some w) : v = w := by
  rcases h with h | h
  · have := vote_eq h ht hv
    rw [hw] at this
    exact (Option.some.inj this).symm
  · have := vote_eq h ht.symm hw
    rw [hv] at this
    exact Option.some.inj this

end Ballot

/-! ## Majorities -/

/-- Two parts of a finite set that are larger together than the set have a
common member. -/
theorem exists_common_of_card {ι : Type} [DecidableEq ι] {u s t : Finset ι} (hs : s ⊆ u)
    (ht : t ⊆ u) (h : u.card < s.card + t.card) : ∃ i, i ∈ s ∧ i ∈ t := by
  obtain ⟨i, hi⟩ := Finset.inter_nonempty_of_card_lt_card_add_card hs ht h
  exact ⟨i, (Finset.mem_inter.mp hi).1, (Finset.mem_inter.mp hi).2⟩

/-- Two majorities of a finite set of voters have a common member. -/
theorem exists_common_of_majorities {ι : Type} [Fintype ι] [DecidableEq ι] {s t : Finset ι}
    (hs : Fintype.card ι / 2 + 1 ≤ s.card) (ht : Fintype.card ι / 2 + 1 ≤ t.card) :
    ∃ i, i ∈ s ∧ i ∈ t := by
  have hlt : Fintype.card ι < s.card + t.card := by omega
  exact exists_common_of_card (Finset.subset_univ s) (Finset.subset_univ t) (by simpa using hlt)

/-- A list of different votes, each backed by a voter, has that many
voters behind it. -/
theorem exists_voters {ι ν : Type} [Fintype ι] {f : ι → ν} {P : ι → Prop} {votes : List ν}
    (hnd : votes.Nodup) (h : ∀ v ∈ votes, ∃ i, v = f i ∧ P i) :
    ∃ s : Finset ι, votes.length ≤ s.card ∧ ∀ i ∈ s, P i := by
  classical
  refine ⟨Finset.univ.filter P, ?_, fun i hi => (Finset.mem_filter.mp hi).2⟩
  have hsub : votes.toFinset ⊆ (Finset.univ.filter P).image f := by
    intro v hv
    obtain ⟨i, rfl, hi⟩ := h v (List.mem_toFinset.mp hv)
    exact Finset.mem_image_of_mem f (Finset.mem_filter.mpr ⟨Finset.mem_univ i, hi⟩)
  calc votes.length = votes.toFinset.card := (List.toFinset_card_of_nodup hnd).symm
    _ ≤ ((Finset.univ.filter P).image f).card := Finset.card_le_card hsub
    _ ≤ (Finset.univ.filter P).card := Finset.card_image_le

/-- If every voter votes once per term, then the candidates that two
majorities have voted for are one candidate. -/
theorem winner_unique {ι ν : Type} [Fintype ι] [DecidableEq ι] {voted : ι → ν → Prop}
    (once : ∀ i v w, voted i v → voted i w → v = w) {s t : Finset ι} {v w : ν}
    (hs : Fintype.card ι / 2 + 1 ≤ s.card) (ht : Fintype.card ι / 2 + 1 ≤ t.card)
    (hv : ∀ i ∈ s, voted i v) (hw : ∀ i ∈ t, voted i w) : v = w := by
  obtain ⟨i, his, hit⟩ := exists_common_of_majorities hs ht
  exact once i v w (hv i his) (hw i hit)

end SyncSystem.Consensus
