/-
SyncSystem.Machine.Calls — calls that overlap.

A system that serves several calls at a time has, at any moment, some
calls that are going on, each with what is known of it (`σ`), and a list
of events, each of which concerns one call or none. `Tracks` says of both
what they have to do with each other, call by call: the events that
concern a call that is going on are what `Going` says, and those of a call
that has not begun or is over are what `Settled` says. A step concerns one
call: it begins it (`begin`), takes it further (`advance`) or ends it
(`finish`), and all other calls keep their events.

The simplest calls begin with an argument, and return a result or raise
(`Paired`). Those that have returned, in the order in which they did
(`returned`), are then in an order that real time does not contradict: a
call that began after another had returned comes after it
(`sublist_returned`).
-/
import Mathlib.Data.List.Nodup
import Mathlib.Data.List.Perm.Basic

namespace SyncSystem

/-- The call at a place, before the others. -/
theorem perm_at {σ : Type} {running : List σ} {i : Nat} {a : σ} (hi : running[i]? = some a) :
    running.Perm (a :: running.eraseIdx i) := by
  obtain ⟨hlt, rfl⟩ := List.getElem?_eq_some_iff.mp hi
  exact (List.getElem_cons_eraseIdx_perm hlt).symm

section Tracking

variable {κ σ ε : Type} [DecidableEq κ] {call : ε → Option κ}

/-- What has happened to one call. -/
def concerning (call : ε → Option κ) (k : κ) (events : List ε) : List ε :=
  events.filter fun e => decide (call e = some k)

theorem mem_concerning (call : ε → Option κ) {k : κ} {e : ε} (he : call e = some k)
    {events : List ε} : e ∈ concerning call k events ↔ e ∈ events := by
  simp [concerning, he]

@[simp] theorem concerning_append (k : κ) (events events' : List ε) :
    concerning call k (events ++ events') =
      concerning call k events ++ concerning call k events' :=
  List.filter_append ..

theorem concerning_own {k : κ} {events : List ε} (h : ∀ e ∈ events, call e = some k) :
    concerning call k events = events := by
  rw [concerning, List.filter_eq_self]
  simpa using h

theorem concerning_other {k : κ} {events : List ε} (h : ∀ e ∈ events, call e ≠ some k) :
    concerning call k events = [] := by
  rw [concerning, List.filter_eq_nil_iff]
  simpa using h

structure Tracks (call : ε → Option κ) (Going : κ → σ → List ε → Prop)
    (Settled : κ → List ε → Prop) (running : List (κ × σ)) (events : List ε) : Prop where
  distinct : (running.map Prod.fst).Nodup
  going : ∀ k a, (k, a) ∈ running → Going k a (concerning call k events)
  settled : ∀ k, k ∉ running.map Prod.fst → Settled k (concerning call k events)

namespace Tracks

variable {Going Going' : κ → σ → List ε → Prop} {Settled : κ → List ε → Prop}
  {running : List (κ × σ)} {events es : List ε} {k : κ} {a a' : σ}

theorem perm {running' : List (κ × σ)} (h : Tracks call Going Settled running events)
    (hp : running.Perm running') : Tracks call Going Settled running' events where
  distinct := (hp.map Prod.fst).nodup_iff.mp h.distinct
  going := fun k a ha => h.going k a (hp.mem_iff.mpr ha)
  settled := fun k hk => h.settled k (fun hmem => hk ((hp.map Prod.fst).mem_iff.mp hmem))

/-- Events that concern no call. -/
theorem silent (h : Tracks call Going Settled running events) (hes : ∀ e ∈ es, call e = none) :
    Tracks call Going Settled running (events ++ es) := by
  have hsame : ∀ j, concerning call j (events ++ es) = concerning call j events := by
    intro j
    have hnone : concerning call j es = [] := concerning_other (fun e he => by simp [hes e he])
    rw [concerning_append, hnone, List.append_nil]
  refine ⟨h.distinct, ?_, ?_⟩
  · intro j b hb
    rw [hsame]
    exact h.going j b hb
  · intro j hj
    rw [hsame]
    exact h.settled j hj

/-- The other calls keep their events. -/
theorem concerning_rest (hes : ∀ e ∈ es, call e = some k) {j : κ} (hj : j ≠ k) :
    concerning call j (events ++ es) = concerning call j events := by
  have hnone : concerning call j es = [] := by
    refine concerning_other ?_
    intro e he heq
    rw [hes e he] at heq
    exact hj (Option.some.inj heq).symm
  rw [concerning_append, hnone, List.append_nil]

/-- A call begins. -/
theorem begin (h : Tracks call Going Settled running events) (hnew : k ∉ running.map Prod.fst)
    (hes : ∀ e ∈ es, call e = some k) (hgoing : Going' k a (concerning call k events ++ es))
    (hothers : ∀ j b own, j ≠ k → Going j b own → Going' j b own) :
    Tracks call Going' Settled ((k, a) :: running) (events ++ es) := by
  refine ⟨List.nodup_cons.mpr ⟨hnew, h.distinct⟩, ?_, ?_⟩
  · intro j b hb
    rcases List.mem_cons.mp hb with heq | hb
    · cases heq
      rw [concerning_append, concerning_own hes]
      exact hgoing
    · have hj : j ≠ k := by
        intro heq
        exact hnew (List.mem_map.mpr ⟨(j, b), hb, heq⟩)
      rw [concerning_rest hes hj]
      exact hothers j b _ hj (h.going j b hb)
  · intro j hj
    rw [concerning_rest hes (List.ne_of_not_mem_cons hj)]
    exact h.settled j (List.not_mem_of_not_mem_cons hj)

/-- A call ends. -/
theorem finish (h : Tracks call Going Settled ((k, a) :: running) events)
    (hes : ∀ e ∈ es, call e = some k) (hsettled : Settled k (concerning call k events ++ es))
    (hothers : ∀ j b own, j ≠ k → Going j b own → Going' j b own) :
    Tracks call Going' Settled running (events ++ es) := by
  obtain ⟨hgone, hrest⟩ := List.nodup_cons.mp h.distinct
  refine ⟨hrest, ?_, ?_⟩
  · intro j b hb
    have hj : j ≠ k := by
      intro heq
      exact hgone (List.mem_map.mpr ⟨(j, b), hb, heq⟩)
    rw [concerning_rest hes hj]
    exact hothers j b _ hj (h.going j b (List.mem_cons_of_mem _ hb))
  · intro j hj
    by_cases hjk : j = k
    · rw [hjk, concerning_append, concerning_own hes]
      exact hsettled
    · rw [concerning_rest hes hjk]
      exact h.settled j (List.not_mem_cons_of_ne_of_not_mem hjk hj)

/-- A call goes on. -/
theorem advance (h : Tracks call Going Settled ((k, a) :: running) events)
    (hes : ∀ e ∈ es, call e = some k) (hgoing : Going' k a' (concerning call k events ++ es))
    (hothers : ∀ j b own, j ≠ k → Going j b own → Going' j b own) :
    Tracks call Going' Settled ((k, a') :: running) (events ++ es) := by
  obtain ⟨hgone, _⟩ := List.nodup_cons.mp h.distinct
  refine ⟨h.distinct, ?_, ?_⟩
  · intro j b hb
    rcases List.mem_cons.mp hb with heq | hb
    · cases heq
      rw [concerning_append, concerning_own hes]
      exact hgoing
    · have hj : j ≠ k := by
        intro heq
        exact hgone (List.mem_map.mpr ⟨(j, b), hb, heq⟩)
      rw [concerning_rest hes hj]
      exact hothers j b _ hj (h.going j b (List.mem_cons_of_mem _ hb))
  · intro j hj
    rw [concerning_rest hes (List.ne_of_not_mem_cons hj)]
    exact h.settled j hj

/-- A call goes on or is settled. -/
theorem cases (h : Tracks call Going Settled running events) (k : κ) :
    (∃ a, (k, a) ∈ running ∧ Going k a (concerning call k events)) ∨
      (k ∉ running.map Prod.fst ∧ Settled k (concerning call k events)) := by
  by_cases hk : k ∈ running.map Prod.fst
  · obtain ⟨⟨j, a⟩, ha, rfl⟩ := List.mem_map.mp hk
    exact .inl ⟨a, ha, h.going j a ha⟩
  · exact .inr ⟨hk, h.settled k hk⟩

end Tracks

end Tracking

/-! ## Calls that begin, and return or raise -/

inductive CallEvent (κ α ρ : Type) where
  | begins (k : κ) (arg : α)
  | returns (k : κ) (result : ρ)
  | raises (k : κ)

namespace CallEvent

variable {κ α ρ : Type}

def call : CallEvent κ α ρ → κ
  | .begins k _ => k
  | .returns k _ => k
  | .raises k => k

def call? (e : CallEvent κ α ρ) : Option κ := some e.call

def returned? : CallEvent κ α ρ → Option κ
  | .returns k _ => some k
  | _ => none

end CallEvent

section Returns

open CallEvent

variable {κ α ρ : Type}

/-- The calls that have returned, in this order. -/
def returned (events : List (CallEvent κ α ρ)) : List κ := events.filterMap returned?

@[simp] theorem mem_returned {events : List (CallEvent κ α ρ)} {k : κ} :
    k ∈ returned events ↔ ∃ r, .returns k r ∈ events := by
  simp only [returned, List.mem_filterMap]
  constructor
  · intro h
    obtain ⟨e, he, hk⟩ := h
    cases e with
    | returns j r =>
      cases hk
      exact ⟨r, he⟩
    | begins | raises => cases hk
  · intro h
    obtain ⟨r, hr⟩ := h
    exact ⟨_, hr, rfl⟩

theorem returned_append (events events' : List (CallEvent κ α ρ)) :
    returned (events ++ events') = returned events ++ returned events' :=
  List.filterMap_append

@[simp] theorem returned_begins (k : κ) (a : α) :
    returned [(CallEvent.begins k a : CallEvent κ α ρ)] = [] := rfl

@[simp] theorem returned_returns (k : κ) (r : ρ) :
    returned [(CallEvent.returns k r : CallEvent κ α ρ)] = [k] := rfl

@[simp] theorem returned_raises (k : κ) :
    returned [(CallEvent.raises k : CallEvent κ α ρ)] = [] := rfl

variable [DecidableEq κ]

theorem mem_own {k : κ} {e : CallEvent κ α ρ} (he : e.call = k) {events : List (CallEvent κ α ρ)} :
    e ∈ concerning call? k events ↔ e ∈ events :=
  mem_concerning call? (congrArg some he)

theorem filter_returned (k : κ) (events : List (CallEvent κ α ρ)) :
    (returned events).filter (· == k) = returned (concerning call? k events) := by
  simp only [returned, concerning, List.filter_filterMap, List.filterMap_filter]
  congr 1
  funext e
  cases e with
  | returns j r => by_cases hj : j = k <;> simp [returned?, call?, CallEvent.call, hj]
  | begins | raises => simp [returned?]

/-- A call that has not begun, or one that has ended. -/
def Ended (k : κ) (own : List (CallEvent κ α ρ)) : Prop :=
  own = [] ∨ ∃ a, (∃ r, own = [.begins k a, .returns k r]) ∨ own = [.begins k a, .raises k]

/-- Each call begins at most once and ends at most once, after it has
begun, and `running` are those that have begun and not ended. -/
abbrev Paired (running : List (κ × α)) (events : List (CallEvent κ α ρ)) : Prop :=
  Tracks call? (fun k a own => own = [.begins k a]) Ended running events

namespace Paired

variable {running : List (κ × α)} {events : List (CallEvent κ α ρ)} {k : κ} {a : α}

theorem empty : Paired ([] : List (κ × α)) ([] : List (CallEvent κ α ρ)) := by
  refine ⟨List.nodup_nil, ?_, ?_⟩
  · simp
  · intro k _
    exact .inl rfl

/-- A new call begins. -/
theorem push (h : Paired running events) (hnew : concerning call? k events = []) (a : α) :
    Paired (running ++ [(k, a)]) (events ++ [.begins k a]) := by
  have hout : k ∉ running.map Prod.fst := by
    intro hmem
    obtain ⟨⟨j, b⟩, hb, rfl⟩ := List.mem_map.mp hmem
    simp [h.going j b hb] at hnew
  refine (Tracks.begin h hout ?_ ?_ (fun _ _ _ _ hgoing => hgoing)).perm
    (List.perm_append_singleton _ _).symm
  · simp [call?, CallEvent.call]
  · rw [hnew]
    rfl

/-- A running call returns or raises. -/
theorem pop (h : Paired running events) {i : Nat} (hi : running[i]? = some (k, a))
    {e : CallEvent κ α ρ} (he : (∃ r, e = .returns k r) ∨ e = .raises k) :
    Paired (running.eraseIdx i) (events ++ [e]) := by
  have hgoing := h.going k a (List.mem_of_getElem? hi)
  refine Tracks.finish (h.perm (perm_at hi)) ?_ ?_ (fun _ _ _ _ hgoing => hgoing)
  · rcases he with ⟨r, rfl⟩ | rfl <;> simp [call?, CallEvent.call]
  · rw [hgoing]
    rcases he with ⟨r, rfl⟩ | rfl
    · exact .inr ⟨a, .inl ⟨r, rfl⟩⟩
    · exact .inr ⟨a, .inr rfl⟩

/-- A call that has begun and not returned is running or has raised. -/
theorem running_or_raised (h : Paired running events) (hbegun : .begins k a ∈ events)
    (hnot : k ∉ returned events) :
    ((k, a) ∈ running ∧ .raises k ∉ events) ∨
      (k ∉ running.map Prod.fst ∧ .raises k ∈ events) := by
  have hbegins : .begins k a ∈ concerning call? k events := (mem_own rfl).mpr hbegun
  have hreturns : ∀ r, .returns k r ∉ concerning call? k events :=
    fun r hmem => hnot (mem_returned.mpr ⟨r, (mem_own rfl).mp hmem⟩)
  have hraises : .raises k ∈ concerning call? k events ↔ .raises k ∈ events := mem_own rfl
  rw [← hraises]
  rcases h.cases k with ⟨b, hb, hown⟩ | ⟨hout, hown | ⟨b, ⟨r, hown⟩ | hown⟩⟩
  · rw [hown] at hbegins ⊢
    cases List.mem_singleton.mp hbegins
    exact .inl ⟨hb, by simp⟩
  · simp [hown] at hbegins
  · exact absurd (by simp [hown]) (hreturns r)
  · rw [hown]
    exact .inr ⟨hout, by simp⟩

/-- A call returns at most once. -/
theorem nodup_returned (h : Paired running events) : (returned events).Nodup := by
  rw [List.nodup_iff_count_le_one]
  intro k
  rw [List.count_eq_countP, List.countP_eq_length_filter, filter_returned]
  rcases h.cases k with ⟨b, _, hown⟩ | ⟨_, hown | ⟨b, ⟨r, hown⟩ | hown⟩⟩
  all_goals simp [hown, returned, List.filterMap_cons, returned?]

/-- What comes after the beginning of a call that returns has its return. -/
theorem returns_later (h : Paired running events) {early late : List (CallEvent κ α ρ)}
    (hsplit : events = early ++ late) (hbegins : .begins k a ∈ late)
    (hreturns : k ∈ returned events) : k ∈ returned late := by
  obtain ⟨r, hreturns⟩ := mem_returned.mp hreturns
  have hbegins : .begins k a ∈ concerning call? k late := (mem_own rfl).mpr hbegins
  have hreturns : .returns k r ∈ concerning call? k events := (mem_own rfl).mpr hreturns
  have hown := h.cases k
  rw [hsplit, concerning_append] at hreturns hown
  refine mem_returned.mpr ⟨r, (mem_own rfl).mp ?_⟩
  cases hearly : concerning call? k early with
  | nil =>
    rw [hearly] at hreturns
    exact hreturns
  | cons e rest =>
    -- then a second event of the call is its beginning
    rw [hearly] at hown
    have hsecond : .begins k a ∈ rest ++ concerning call? k late :=
      List.mem_append_right rest hbegins
    rcases hown with ⟨b, _, hown⟩ | ⟨_, hown | ⟨b, ⟨r', hown⟩ | hown⟩⟩
    · simp only [List.cons_append, List.cons.injEq] at hown
      simp [hown.2] at hsecond
    · cases hown
    all_goals
      simp only [List.cons_append, List.cons.injEq] at hown
      simp [hown.2] at hsecond

/-- **Real time is kept.** A call that began after another had returned
comes after it in the order of the returned calls. -/
theorem sublist_returned (h : Paired running events) {j : κ} {r : ρ}
    (hbefore : [CallEvent.returns j r, .begins k a].Sublist events)
    (hk : k ∈ returned events) : [j, k].Sublist (returned events) := by
  obtain ⟨early, late, hsplit, hj, hlate⟩ := List.cons_sublist_iff.mp hbefore
  have hk' := h.returns_later hsplit (List.singleton_sublist.mp hlate) hk
  rw [hsplit, returned_append]
  exact (List.singleton_sublist.mpr (mem_returned.mpr ⟨r, hj⟩)).append
    (List.singleton_sublist.mpr hk')

end Paired

end Returns

end SyncSystem
