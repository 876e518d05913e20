/-
SyncSystem.Machine.Program — programs that call components.

A program is done with a result or calls a component and goes on with
the answer. What the components are is a separate matter: a `Handler`
answers the calls on a state of its own. So a statement about what a
program calls is a statement about every component, in every state.
-/
import Mathlib.Init

namespace SyncSystem

/-- The calls that can be made and the type of the answer to each. -/
structure Interface where
  Call : Type
  Answer : Call → Type

inductive Program (I : Interface) (ρ : Type) where
  | done (r : ρ)
  | call (c : I.Call) (k : I.Answer c → Program I ρ)

/-- Components with state `χ` that answer the calls. -/
def Handler (I : Interface) (χ : Type) := (c : I.Call) → χ → I.Answer c × χ

namespace Program

variable {I : Interface} {ρ ρ' χ : Type}

/-- The result of a program and the state it leaves its components in. -/
def run (H : Handler I χ) : Program I ρ → χ → ρ × χ
  | .done r, s => (r, s)
  | .call c k, s => (k (H c s).1).run H (H c s).2

def map (f : ρ → ρ') : Program I ρ → Program I ρ'
  | .done r => .done (f r)
  | .call c k => .call c (fun a => (k a).map f)

@[simp] theorem run_done (H : Handler I χ) (r : ρ) (s : χ) :
    (done r : Program I ρ).run H s = (r, s) := rfl

@[simp] theorem run_call (H : Handler I χ) (c : I.Call) (k : I.Answer c → Program I ρ) (s : χ) :
    (call c k).run H s = (k (H c s).1).run H (H c s).2 := rfl

@[simp] theorem map_done (f : ρ → ρ') (r : ρ) : (done r : Program I ρ).map f = done (f r) := rfl

theorem run_map (H : Handler I χ) (f : ρ → ρ') (p : Program I ρ) (s : χ) :
    (p.map f).run H s = (f (p.run H s).1, (p.run H s).2) := by
  induction p generalizing s with
  | done r => rfl
  | call c k ih => exact ih (H c s).1 (H c s).2

/-- Every call of the program satisfies `P`, whatever the answers. -/
def Calls (P : I.Call → Prop) : Program I ρ → Prop
  | .done _ => True
  | .call c k => P c ∧ ∀ a, (k a).Calls P

theorem Calls.map {P : I.Call → Prop} {p : Program I ρ} (h : p.Calls P) (f : ρ → ρ') :
    (p.map f).Calls P := by
  induction p with
  | done r => trivial
  | call c k ih => exact ⟨h.1, fun a => ih a (h.2 a)⟩

/-- What every call leaves alone is the same after the program. -/
theorem Calls.run_frame {P : I.Call → Prop} {H : Handler I χ} {γ : Type} {f : χ → γ}
    (hkeep : ∀ c s, P c → f (H c s).2 = f s) {p : Program I ρ} (h : p.Calls P) (s : χ) :
    f (p.run H s).2 = f s := by
  induction p generalizing s with
  | done r => rfl
  | call c k ih => exact (ih (H c s).1 (h.2 _) (H c s).2).trans (hkeep c s h.1)

/-- The program calls nothing. -/
def Silent (p : Program I ρ) : Prop := ∃ r, p = .done r

theorem silent_done (r : ρ) : (done r : Program I ρ).Silent := ⟨r, rfl⟩

theorem Silent.map {p : Program I ρ} (h : p.Silent) (f : ρ → ρ') : (p.map f).Silent := by
  obtain ⟨r, rfl⟩ := h
  exact ⟨f r, rfl⟩

/-- A silent program leaves every component alone, and its result says
nothing about any of them. -/
theorem Silent.run_eq {p : Program I ρ} (h : p.Silent) :
    ∃ r, ∀ (χ : Type) (H : Handler I χ) (s : χ), p.run H s = (r, s) := by
  obtain ⟨r, rfl⟩ := h
  exact ⟨r, fun _ _ _ => rfl⟩

end Program

end SyncSystem
