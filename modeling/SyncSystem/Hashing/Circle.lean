/-
SyncSystem.Hashing.Circle — consistent hashing on a linear order.

The positions are a set of points on a circle; the point `h` of a key is
served by the first position from `h` on, or by the least position of
all when there is none (`Serves`). Every position has an owner, and a
key goes to the owner of its position (`Routes`). What consistent
hashing is for are the two rules for a changed table: a node that takes
positions only takes keys to itself (`Routes.claim`), and a node that
gives its positions up only loses its own keys (`Routes.release`).

`firstFrom` finds the position by a scan of the sorted positions.
-/
import Mathlib.Data.Set.Basic
import Mathlib.Data.List.Sort
import Mathlib.Order.Basic

namespace SyncSystem.Hashing

variable {π ν : Type} [LinearOrder π]

/-! ## Positions -/

/-- Of the positions in `S`, `p` is the first from `h` on, around the
circle. -/
def Serves (S : Set π) (h p : π) : Prop :=
  p ∈ S ∧ ((h ≤ p ∧ ∀ q ∈ S, h ≤ q → p ≤ q) ∨ ((∀ q ∈ S, q < h) ∧ ∀ q ∈ S, p ≤ q))

namespace Serves

variable {S S' : Set π} {h p p' : π}

theorem unique (hp : Serves S h p) (hp' : Serves S h p') : p = p' := by
  obtain ⟨hmem, ⟨hle, hfirst⟩ | ⟨hwrap, hleast⟩⟩ := hp <;>
    obtain ⟨hmem', ⟨hle', hfirst'⟩ | ⟨hwrap', hleast'⟩⟩ := hp'
  · exact le_antisymm (hfirst p' hmem' hle') (hfirst' p hmem hle)
  · exact absurd hle (not_le.mpr (hwrap' p hmem))
  · exact absurd hle' (not_le.mpr (hwrap p' hmem'))
  · exact le_antisymm (hleast p' hmem') (hleast' p hmem)

/-- A position that serves among more positions serves among fewer. -/
theorem restrict (hp : Serves S' h p) (hsub : S ⊆ S') (hmem : p ∈ S) : Serves S h p := by
  obtain ⟨_, ⟨hle, hfirst⟩ | ⟨hwrap, hleast⟩⟩ := hp
  · exact ⟨hmem, Or.inl ⟨hle, fun q hq => hfirst q (hsub hq)⟩⟩
  · exact ⟨hmem, Or.inr ⟨fun q hq => hwrap q (hsub hq), fun q hq => hleast q (hsub hq)⟩⟩

end Serves

/-! ## The scan -/

/-- The first position from `h` on in a list, else its head. -/
def firstFrom (ks : List π) (h : π) : Option π :=
  (ks.find? (h ≤ ·)).or ks.head?

theorem firstFrom_eq_none {ks : List π} {h : π} : firstFrom ks h = none ↔ ks = [] := by
  cases ks with
  | nil => simp [firstFrom]
  | cons k rest => simp [firstFrom]

theorem firstFrom_serves {ks : List π} {h p : π} (hs : ks.Pairwise (· ≤ ·))
    (hp : firstFrom ks h = some p) : Serves {q | q ∈ ks} h p := by
  cases hf : ks.find? (h ≤ ·) with
  | some k =>
    obtain rfl : k = p := by simpa [firstFrom, hf] using hp
    obtain ⟨hle, before, after, rfl, hbefore⟩ := List.find?_eq_some_iff_append.mp hf
    refine ⟨by simp, Or.inl ⟨by simpa using hle, ?_⟩⟩
    intro q hq hhq
    rcases List.mem_append.mp hq with hq | hq
    · exact absurd hhq (by simpa using hbefore q hq)
    · rcases List.mem_cons.mp hq with rfl | hq
      · exact le_rfl
      · exact (List.pairwise_cons.mp (List.pairwise_append.mp hs).2.1).1 q hq
  | none =>
    have hhead : ks.head? = some p := by simpa [firstFrom, hf] using hp
    obtain ⟨rest, rfl⟩ := List.head?_eq_some_iff.mp hhead
    refine ⟨by simp, Or.inr ⟨?_, ?_⟩⟩
    · intro q hq
      simpa using List.find?_eq_none.mp hf q hq
    · intro q hq
      rcases List.mem_cons.mp hq with rfl | hq
      · exact le_rfl
      · exact (List.pairwise_cons.mp hs).1 q hq

/-! ## Owners -/

/-- The positions that have an owner. -/
def owned (owner : π → Option ν) : Set π := {p | ∃ v, owner p = some v}

/-- The point `h` goes to `v`, the owner of the position that serves it,
or nowhere when no position is owned. -/
def Routes (owner : π → Option ν) (h : π) : Option ν → Prop
  | none => ∀ p, owner p = none
  | some v => ∃ p, Serves (owned owner) h p ∧ owner p = some v

namespace Routes

variable {owner owner' : π → Option ν} {h : π} {v v' : Option ν} {n : ν}

theorem unique (hv : Routes owner h v) (hv' : Routes owner h v') : v = v' := by
  cases v with
  | none =>
    cases v' with
    | none => rfl
    | some w =>
      obtain ⟨p, _, hp⟩ := hv'
      rw [hv p] at hp
      cases hp
  | some w =>
    obtain ⟨p, hserves, hp⟩ := hv
    cases v' with
    | none =>
      rw [hv' p] at hp
      cases hp
    | some w' =>
      obtain ⟨p', hserves', hp'⟩ := hv'
      rw [← hp, ← hp', hserves.unique hserves']

/-- A position that serves after a change and keeps its owner served
before it, if no position was given up. -/
theorem of_restrict {p : π} (hsub : owned owner ⊆ owned owner')
    (hserves : Serves (owned owner') h p) {w : ν} (hp : owner p = some w) :
    Routes owner h (some w) :=
  ⟨p, hserves.restrict hsub ⟨w, hp⟩, hp⟩

/-- When `n` takes positions, a key stays where it was or goes to `n`. -/
theorem claim (hclaim : ∀ p, owner' p = owner p ∨ owner' p = some n) (hv : Routes owner h v)
    (hv' : Routes owner' h v') : v' = v ∨ v' = some n := by
  have hsub : owned owner ⊆ owned owner' := by
    rintro p ⟨w, hp⟩
    rcases hclaim p with heq | heq
    · exact ⟨w, heq.trans hp⟩
    · exact ⟨n, heq⟩
  cases v' with
  | none =>
    have hnone : Routes owner h none := by
      intro p
      rcases hclaim p with heq | heq
      · rw [← heq, hv' p]
      · rw [hv' p] at heq
        cases heq
    exact Or.inl (hnone.unique hv)
  | some w =>
    obtain ⟨p, hserves, hp⟩ := hv'
    rcases hclaim p with heq | heq
    · exact Or.inl ((of_restrict hsub hserves (heq ▸ hp)).unique hv)
    · exact Or.inr (by rw [← hp, heq])

/-- When `n` gives its positions up, every key that did not go to `n`
stays where it was. -/
theorem release (hkeep : ∀ p w, owner' p = some w ↔ owner p = some w ∧ w ≠ n)
    (hv : Routes owner h v) (hne : v ≠ some n) : Routes owner' h v := by
  cases v with
  | none =>
    intro p
    rw [Option.eq_none_iff_forall_ne_some]
    intro w hw
    have hold := ((hkeep p w).mp hw).1
    rw [hv p] at hold
    cases hold
  | some w =>
    obtain ⟨p, hserves, hp⟩ := hv
    have hp' : owner' p = some w := (hkeep p w).mpr ⟨hp, fun heq => hne (by rw [heq])⟩
    refine ⟨p, hserves.restrict ?_ ⟨w, hp'⟩, hp'⟩
    rintro q ⟨w', hq⟩
    exact ⟨w', ((hkeep q w').mp hq).1⟩

end Routes

end SyncSystem.Hashing
