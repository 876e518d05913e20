/-
SyncSystem.Machine.Since — what a run has done since a point of it.

`c.since c'` is the steps of the history of `c'` after that of `c`, and
`c.reached c'` the states they led to. A statement about these is proved
along the run from `c` (`Leads.since_invariant`), whatever came before.
-/
import SyncSystem.Machine.Runs

namespace SyncSystem

variable {σ α β : Type}

/-- The steps since `c`. -/
def Config.since (c c' : Config σ α β) : List (Event σ α β) := c'.1.drop c.1.length

/-- The states after each of the steps since `c`. -/
def Config.reached (c c' : Config σ α β) : List σ := c'.visited.drop c.visited.length

@[simp] theorem Config.since_self (c : Config σ α β) : c.since c = [] := by
  simp [Config.since]

@[simp] theorem Config.reached_self (c : Config σ α β) : c.reached c = [] := by
  simp [Config.reached]

theorem Config.since_push {c d : Config σ α β} (h : c.1.length ≤ d.1.length) (a : α) (s' : σ)
    (b : β) : c.since (d.push a s' b) = c.since d ++ [⟨d.2, a, b⟩] := by
  rw [Config.since, Config.push_history, List.drop_append_of_le_length h]
  rfl

theorem Config.reached_push {c d : Config σ α β} (h : c.1.length ≤ d.1.length) (a : α) (s' : σ)
    (b : β) : c.reached (d.push a s' b) = c.reached d ++ [s'] := by
  have hvisited : c.visited.length ≤ d.visited.length := by
    simp only [Config.visited, List.length_append, List.length_map, List.length_singleton]
    omega
  rw [Config.reached, Config.visited_push, List.drop_append_of_le_length hvisited]
  rfl

namespace Machine

variable {M : Machine σ α β} {ok : Config σ α β → α → Prop}

theorem Leads.history_prefix {c c' : Config σ α β} (h : M.Leads ok c c') : c.1 <+: c'.1 := by
  refine h.invariant (I := fun d => c.1 <+: d.1) (List.prefix_refl _) ?_
  intro d a s' b _ ih _ _
  exact ih.trans (List.prefix_append _ _)

theorem Leads.history_le {c c' : Config σ α β} (h : M.Leads ok c c') :
    c.1.length ≤ c'.1.length :=
  h.history_prefix.length_le

/-- The first of the steps since `c`. -/
theorem Leads.since_head {c c' : Config σ α β} {a : α} {s' : σ} {b : β}
    (h : M.Leads ok (c.push a s' b) c') :
    c.since c' = ⟨c.2, a, b⟩ :: (c.push a s' b).since c' := by
  obtain ⟨rest, hrest⟩ := h.history_prefix
  simp [Config.since, ← hrest]

/-- What holds when nothing has been done since `c` and is kept by every
step holds of what has been done. -/
theorem Leads.since_invariant {I : List (Event σ α β) → List σ → σ → Prop} {c c' : Config σ α β}
    (h : M.Leads ok c c') (init : I [] [] c.2)
    (step : ∀ d a s' b, M.Leads ok c d → I (c.since d) (c.reached d) d.2 → ok d a →
      M.step d.2 a = some (s', b) →
      I (c.since d ++ [⟨d.2, a, b⟩]) (c.reached d ++ [s']) s') :
    I (c.since c') (c.reached c') c'.2 := by
  refine h.invariant (I := fun d => I (c.since d) (c.reached d) d.2) (by simpa using init) ?_
  intro d a s' b hreach ih hok hs
  rw [Config.since_push hreach.history_le, Config.reached_push hreach.history_le]
  exact step d a s' b hreach ih hok hs

end Machine

end SyncSystem
