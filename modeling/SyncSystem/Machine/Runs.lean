/-
SyncSystem.Machine.Runs — deterministic machines, their recorded runs
and the induction rules for them.

A machine steps on an action; all the freedom of a concurrent program
(which task moves next, which message arrives, what the clock says) is
in the choice of the actions. A run carries its own history: for every
step the state before it, the action and the output. So "has ever been",
"since", "no later" are statements about lists.

`Leads M ok c c'` is a run from `c` to `c'` in which every step
satisfies `ok`, a condition on the history, the state before the step
and the action. It is Mathlib's `Relation.ReflTransGen` of the one-step
relation, so runs compose and are cut by its lemmas.
-/
import Mathlib.Logic.Relation
import Mathlib.Data.List.Basic
import Mathlib.Order.Defs.PartialOrder

namespace SyncSystem

/-- A deterministic machine: `none` when the action is not enabled. -/
structure Machine (σ α β : Type) where
  step : σ → α → Option (σ × β)

/-- One step of a run, as it is recorded. -/
structure Event (σ α β : Type) where
  before : σ
  action : α
  output : β

/-- The history of a run and the state it has reached. -/
abbrev Config (σ α β : Type) := List (Event σ α β) × σ

variable {σ α β : Type}

/-- The states the run has gone through, the current one last. -/
def Config.visited (c : Config σ α β) : List σ := c.1.map Event.before ++ [c.2]

theorem Config.current_mem_visited (c : Config σ α β) : c.2 ∈ c.visited := by
  simp [Config.visited]

/-- The configuration after one more step. -/
def Config.push (c : Config σ α β) (a : α) (s' : σ) (b : β) : Config σ α β :=
  (c.1 ++ [⟨c.2, a, b⟩], s')

@[simp] theorem Config.push_history (c : Config σ α β) (a : α) (s' : σ) (b : β) :
    (c.push a s' b).1 = c.1 ++ [⟨c.2, a, b⟩] := rfl

@[simp] theorem Config.push_state (c : Config σ α β) (a : α) (s' : σ) (b : β) :
    (c.push a s' b).2 = s' := rfl

@[simp] theorem Config.visited_push (c : Config σ α β) (a : α) (s' : σ) (b : β) :
    (c.push a s' b).visited = c.visited ++ [s'] := by
  simp [Config.visited]

/-! ## Properties of every recorded step -/

/-- `P` holds of every step in the history: of the configuration the
step started from, its action and its output. -/
def EveryStep (P : Config σ α β → α → β → Prop) (h : List (Event σ α β)) : Prop :=
  ∀ h₁ e h₂, h = h₁ ++ e :: h₂ → P (h₁, e.before) e.action e.output

variable {P Q : Config σ α β → α → β → Prop}

@[simp] theorem everyStep_nil : EveryStep P ([] : List (Event σ α β)) := by
  intro h₁ e h₂ h
  simp at h

theorem everyStep_push {h : List (Event σ α β)} {e : Event σ α β} :
    EveryStep P (h ++ [e]) ↔ EveryStep P h ∧ P (h, e.before) e.action e.output := by
  constructor
  · intro hall
    refine ⟨?_, hall h e [] rfl⟩
    intro h₁ e' h₂ heq
    exact hall h₁ e' (h₂ ++ [e]) (by simp [heq])
  · rintro ⟨hall, hlast⟩ h₁ e' h₂ heq
    rcases List.eq_nil_or_concat h₂ with rfl | ⟨h₂', e'', rfl⟩
    · obtain ⟨rfl, he⟩ := List.append_inj' heq rfl
      obtain rfl := List.head_eq_of_cons_eq he
      exact hlast
    · have heq' : h ++ [e] = (h₁ ++ e' :: h₂') ++ [e''] := by simpa using heq
      obtain ⟨rfl, _⟩ := List.append_inj' heq' rfl
      exact hall h₁ e' h₂' rfl

theorem EveryStep.last {h : List (Event σ α β)} {e : Event σ α β} (hall : EveryStep P h)
    (he : h.getLast? = some e) : P (h.dropLast, e.before) e.action e.output := by
  have hne : h ≠ [] := by rintro rfl; simp at he
  have hlast : h.getLast hne = e := by
    simpa [List.getLast?_eq_some_getLast hne] using he
  exact hall h.dropLast e [] (by rw [← hlast, List.dropLast_append_getLast])

theorem everyStep_iff {h : List (Event σ α β)} : EveryStep P h ↔
    ∀ (i : Nat) (hi : i < h.length), P (h.take i, h[i].before) h[i].action h[i].output := by
  constructor
  · intro hall i hi
    exact hall (h.take i) h[i] (h.drop (i + 1)) (by simp)
  · rintro hall h₁ e h₂ rfl
    have hlen : h₁.length < (h₁ ++ e :: h₂).length := by simp
    simpa using hall h₁.length hlen

instance [∀ c a b, Decidable (P c a b)] (h : List (Event σ α β)) : Decidable (EveryStep P h) :=
  decidable_of_iff _ everyStep_iff.symm

/-- `good` holds of every configuration the run has gone through. -/
def Throughout (good : Config σ α β → Prop) (c : Config σ α β) : Prop :=
  EveryStep (fun d _ _ => good d) c.1 ∧ good c

theorem throughout_push {good : Config σ α β → Prop} {c : Config σ α β} {a : α} {s' : σ} {b : β} :
    Throughout good (c.push a s' b) ↔ Throughout good c ∧ good (c.push a s' b) := by
  simp [Throughout, everyStep_push]

theorem throughout_state {good : σ → Prop} {c : Config σ α β} :
    Throughout (fun d => good d.2) c ↔ ∀ s ∈ c.visited, good s := by
  simp only [Throughout, Config.visited, List.forall_mem_append, List.forall_mem_singleton]
  refine and_congr_left fun _ => ?_
  rw [everyStep_iff, List.forall_mem_iff_forall_getElem]
  simp

/-! ## Quantities read off the outputs

When a step outputs a list of occurrences, a fold over all of them so
far is a ghost of the run: who owns what, what has been accepted. -/

/-- The fold of `f` over everything the run has output, from `g`. -/
def Config.track {γ ε : Type} (f : γ → ε → γ) (g : γ) (c : Config σ α (List ε)) : γ :=
  (c.1.flatMap Event.output).foldl f g

@[simp] theorem Config.track_push {γ ε : Type} (f : γ → ε → γ) (g : γ) (c : Config σ α (List ε))
    (a : α) (s' : σ) (out : List ε) :
    (c.push a s' out).track f g = out.foldl f (c.track f g) := by
  simp [Config.track]

namespace Machine

variable (M : Machine σ α β) {ok : Config σ α β → α → Prop}

/-- One step of `M` that satisfies `ok`. -/
def Next (ok : Config σ α β → α → Prop) (c c' : Config σ α β) : Prop :=
  ∃ a s' b, ok c a ∧ M.step c.2 a = some (s', b) ∧ c' = c.push a s' b

/-- A run whose steps all satisfy `ok`. -/
def Leads (ok : Config σ α β → α → Prop) : Config σ α β → Config σ α β → Prop :=
  Relation.ReflTransGen (M.Next ok)

/-- No condition on the steps. -/
def always (_ : Config σ α β) (_ : α) : Prop := True

instance (c : Config σ α β) (a : α) : Decidable (always c a) :=
  inferInstanceAs (Decidable True)

variable {M}

/-! ## Induction rules -/

/-- What holds at the start and is kept by every step of the run holds
at its end. The step may use that its own start is reached. -/
theorem Leads.invariant {I : Config σ α β → Prop} {c₀ c : Config σ α β}
    (h : M.Leads ok c₀ c) (init : I c₀)
    (step : ∀ c a s' b, M.Leads ok c₀ c → I c → ok c a → M.step c.2 a = some (s', b) →
      I (c.push a s' b)) : I c := by
  induction h with
  | refl => exact init
  | tail hreach hnext ih =>
    obtain ⟨a, s', b, hok, hstep, rfl⟩ := hnext
    exact step _ a s' b hreach ih hok hstep

/-- The same for a relation between the state and a ghost of the run. -/
theorem Leads.track_invariant {γ ε : Type} {M : Machine σ α (List ε)}
    {ok : Config σ α (List ε) → α → Prop} {f : γ → ε → γ} {g : γ} {I : σ → γ → Prop} {s₀ : σ}
    {c : Config σ α (List ε)} (h : M.Leads ok ([], s₀) c) (init : I s₀ g)
    (step : ∀ c a s' out, M.Leads ok ([], s₀) c → I c.2 (c.track f g) → ok c a →
      M.step c.2 a = some (s', out) → I s' (out.foldl f (c.track f g))) :
    I c.2 (c.track f g) := by
  refine h.invariant (I := fun c => I c.2 (c.track f g)) init ?_
  intro c a s' out hreach ih hok hs
  rw [Config.track_push]
  exact step c a s' out hreach ih hok hs

/-- A run under a stronger condition is a run under a weaker one. -/
theorem Leads.mono {ok' : Config σ α β → α → Prop} (hsub : ∀ c a, ok c a → ok' c a)
    {c c' : Config σ α β} (h : M.Leads ok c c') : M.Leads ok' c c' := by
  have hnext : ∀ d d', M.Next ok d d' → M.Next ok' d d' := by
    rintro d d' ⟨a, s', b, hok, hs, he⟩
    exact ⟨a, s', b, hsub d a hok, hs, he⟩
  exact Relation.ReflTransGen.mono hnext _ _ h

theorem Leads.always {c c' : Config σ α β} (h : M.Leads ok c c') : M.Leads always c c' :=
  h.mono (fun _ _ _ => trivial)

/-- A measure that no step lowers is not lowered by a run. -/
theorem Leads.monotone {π : Type} [Preorder π] (f : σ → π) {c₀ c : Config σ α β}
    (step : ∀ c a s' b, ok c a → M.step c.2 a = some (s', b) → f c.2 ≤ f s')
    (h : M.Leads ok c₀ c) : f c₀.2 ≤ f c.2 :=
  h.invariant (I := fun c => f c₀.2 ≤ f c.2) le_rfl
    (fun c a s' b _ ih hok hs => le_trans ih (step c a s' b hok hs))

/-- What holds at every step of a run is recorded in its history. -/
theorem Leads.everyStep {s₀ : σ} {c : Config σ α β} (h : M.Leads ok ([], s₀) c)
    (step : ∀ c a s' b, M.Leads ok ([], s₀) c → ok c a → M.step c.2 a = some (s', b) → P c a b) :
    EveryStep P c.1 :=
  h.invariant (I := fun c => EveryStep P c.1) everyStep_nil
    (fun c a s' b hreach ih hok hs => everyStep_push.mpr ⟨ih, step c a s' b hreach hok hs⟩)

/-- What comes to the same at every step of a run comes to the same for
its whole history. -/
theorem Leads.everyStep_congr {s₀ : σ} {c : Config σ α β} (h : M.Leads ok ([], s₀) c)
    (step : ∀ c a s' b, M.Leads ok ([], s₀) c → ok c a → M.step c.2 a = some (s', b) →
      (P c a b ↔ Q c a b)) :
    EveryStep P c.1 ↔ EveryStep Q c.1 := by
  refine h.invariant (I := fun c => EveryStep P c.1 ↔ EveryStep Q c.1) (by simp) ?_
  intro c a s' b hreach ih hok hs
  have hlast : P (c.1, c.2) a b ↔ Q (c.1, c.2) a b := step c a s' b hreach hok hs
  rw [Config.push_history, everyStep_push, everyStep_push, ih, hlast]

/-- A run under `dom` whose recorded steps all satisfy `ok`. -/
theorem Leads.restrict {dom : Config σ α β → α → Prop} {s₀ : σ} {c : Config σ α β}
    (h : M.Leads dom ([], s₀) c) (hok : EveryStep (fun d a _ => ok d a) c.1) :
    M.Leads (fun d a => dom d a ∧ ok d a) ([], s₀) c := by
  revert hok
  refine h.invariant (I := fun c => EveryStep (fun d a _ => ok d a) c.1 →
    M.Leads (fun d a => dom d a ∧ ok d a) ([], s₀) c) (fun _ => .refl) ?_
  intro c a s' b _ ih hdom hs hall
  obtain ⟨hbefore, hlast⟩ := everyStep_push.mp hall
  exact (ih hbefore).tail ⟨a, s', b, ⟨hdom, hlast⟩, hs, rfl⟩

/-- A run whose recorded steps all satisfy `ok`. -/
theorem Leads.of_everyStep {s₀ : σ} {c : Config σ α β} (h : M.Leads Machine.always ([], s₀) c)
    (hok : EveryStep (fun d a _ => ok d a) c.1) : M.Leads ok ([], s₀) c :=
  (h.restrict hok).mono (fun _ _ hboth => hboth.2)

/-- A condition on the steps is exact for a property, among the runs
under `dom`, when its runs keep the property and every step that violates
it breaks the property at once: then a run has the property throughout if
and only if all its steps satisfy the condition. -/
theorem Leads.throughout_iff_under {dom : Config σ α β → α → Prop} {good : Config σ α β → Prop}
    {s₀ : σ} {c : Config σ α β}
    (keeps : ∀ c, M.Leads (fun d a => dom d a ∧ ok d a) ([], s₀) c → good c)
    (breaks : ∀ c a s' b, M.Leads (fun d a => dom d a ∧ ok d a) ([], s₀) c → dom c a → ¬ ok c a →
      M.step c.2 a = some (s', b) → ¬ good (c.push a s' b))
    (h : M.Leads dom ([], s₀) c) :
    Throughout good c ↔ EveryStep (fun d a _ => ok d a) c.1 := by
  constructor
  · refine h.invariant (I := fun c => Throughout good c → EveryStep (fun d a _ => ok d a) c.1)
      (fun _ => everyStep_nil) ?_
    intro c a s' b hreach ih hdom hs hgood
    obtain ⟨hbefore, hlast⟩ := throughout_push.mp hgood
    refine everyStep_push.mpr ⟨ih hbefore, ?_⟩
    by_contra hok
    exact breaks c a s' b (hreach.restrict (ih hbefore)) hdom hok hs hlast
  · intro hall
    refine ⟨?_, keeps c (h.restrict hall)⟩
    revert hall
    refine h.invariant (I := fun c => EveryStep (fun d a _ => ok d a) c.1 →
      EveryStep (fun d _ _ => good d) c.1) (fun _ => everyStep_nil) ?_
    intro c a s' b hreach ih _ hs hall
    have hbefore := (everyStep_push.mp hall).1
    exact everyStep_push.mpr ⟨ih hbefore, keeps c (hreach.restrict hbefore)⟩

/-- The same among all runs. -/
theorem Leads.throughout_iff {good : Config σ α β → Prop} {s₀ : σ} {c : Config σ α β}
    (keeps : ∀ c, M.Leads ok ([], s₀) c → good c)
    (breaks : ∀ c a s' b, M.Leads ok ([], s₀) c → ¬ ok c a → M.step c.2 a = some (s', b) →
      ¬ good (c.push a s' b))
    (h : M.Leads Machine.always ([], s₀) c) :
    Throughout good c ↔ EveryStep (fun d a _ => ok d a) c.1 := by
  have hok : ∀ c, M.Leads (fun d a => Machine.always d a ∧ ok d a) ([], s₀) c →
      M.Leads ok ([], s₀) c := fun _ hc => hc.mono (fun _ _ hboth => hboth.2)
  exact h.throughout_iff_under (fun c hc => keeps c (hok c hc))
    (fun c a s' b hc _ => breaks c a s' b (hok c hc))

/-- The same for a property of states. -/
theorem Leads.visited_iff {good : σ → Prop} {s₀ : σ} {c : Config σ α β}
    (keeps : ∀ c, M.Leads ok ([], s₀) c → good c.2)
    (breaks : ∀ c a s' b, M.Leads ok ([], s₀) c → ¬ ok c a → M.step c.2 a = some (s', b) →
      ¬ good s')
    (h : M.Leads Machine.always ([], s₀) c) :
    (∀ s ∈ c.visited, good s) ↔ EveryStep (fun d a _ => ok d a) c.1 := by
  rw [← throughout_state]
  exact Leads.throughout_iff keeps breaks h

/-- Under a measure no step lowers, any two visited states are ordered. -/
theorem Leads.visited_ordered {π : Type} [Preorder π] (f : σ → π) {s₀ : σ} {c : Config σ α β}
    (step : ∀ c a s' b, M.Leads ok ([], s₀) c → ok c a → M.step c.2 a = some (s', b) →
      f c.2 ≤ f s')
    (h : M.Leads ok ([], s₀) c) :
    ∀ s ∈ c.visited, ∀ t ∈ c.visited, f s ≤ f t ∨ f t ≤ f s := by
  have key : (∀ s ∈ c.visited, ∀ t ∈ c.visited, f s ≤ f t ∨ f t ≤ f s) ∧
      ∀ s ∈ c.visited, f s ≤ f c.2 := by
    refine h.invariant (I := fun c =>
      (∀ s ∈ c.visited, ∀ t ∈ c.visited, f s ≤ f t ∨ f t ≤ f s) ∧
        ∀ s ∈ c.visited, f s ≤ f c.2) ?_ ?_
    · simp [Config.visited]
    · rintro c a s' b hreach ⟨hord, hle⟩ hok hs
      have hlast : ∀ s ∈ c.visited, f s ≤ f s' := fun s hm =>
        le_trans (hle s hm) (step c a s' b hreach hok hs)
      simp only [Config.visited_push, Config.push_state, List.mem_append, List.mem_singleton]
      refine ⟨?_, ?_⟩
      · rintro s (hm | rfl) t (ht | rfl)
        · exact hord s hm t ht
        · exact Or.inl (hlast s hm)
        · exact Or.inr (hlast t ht)
        · exact Or.inl le_rfl
      · rintro s (hm | rfl)
        · exact hlast s hm
        · exact le_rfl
  exact key.1

/-! ## Executing a list of actions -/

/-- Run a list of actions, as long as each is enabled and satisfies `ok`. -/
def exec (M : Machine σ α β) (ok : Config σ α β → α → Prop) [∀ c a, Decidable (ok c a)] :
    Config σ α β → List α → Option (Config σ α β)
  | c, [] => some c
  | c, a :: rest =>
      if ok c a then
        match M.step c.2 a with
        | some (s', b) => exec M ok (c.push a s' b) rest
        | none => none
      else none

theorem leads_of_exec [∀ c a, Decidable (ok c a)] {as : List α} {c c' : Config σ α β}
    (h : M.exec ok c as = some c') : M.Leads ok c c' := by
  induction as generalizing c with
  | nil => cases h; exact .refl
  | cons a rest ih =>
    simp only [exec] at h
    split at h
    · next hok =>
      split at h
      · next s' b hs => exact .head ⟨a, s', b, hok, hs, rfl⟩ (ih h)
      · cases h
    · cases h

/-- A check of the configuration an executed run ends in is a statement
about some run. -/
theorem exists_leads_of_exec (M : Machine σ α β) (ok : Config σ α β → α → Prop)
    [∀ c a, Decidable (ok c a)] (c : Config σ α β) (as : List α) (p : Config σ α β → Bool)
    (h : (M.exec ok c as).any p = true) : ∃ c', M.Leads ok c c' ∧ p c' = true := by
  cases he : M.exec ok c as with
  | none => simp [he] at h
  | some c' => exact ⟨c', leads_of_exec he, by simpa [he] using h⟩

end Machine

end SyncSystem
