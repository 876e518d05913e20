/-
SyncSystem.Text.Nesting — brackets and string literals in a text.

A scan goes through a text character by character and knows two things:
how many brackets are open, and whether it is inside a string literal,
where brackets do not count. A text that `Keeps` the scan where it was
can be put anywhere, so such texts compose: one after the other, in
quotes, in brackets. What is in a pair of brackets is open until the
last character, so no shorter beginning of it is balanced
(`not_balanced_of_prefix`).
-/
import Mathlib.Data.List.Infix

namespace SyncSystem.Text

/-- `"`. -/
def quote : Char := '\x22'
/-- The escape character of string literals. -/
def backslash : Char := '\x5c'
def openBracket : Char := '\x5b'
def closeBracket : Char := '\x5d'
def openBrace : Char := '\x7b'
def closeBrace : Char := '\x7d'

def IsOpening (c : Char) : Prop := c = openBracket ∨ c = openBrace
def IsClosing (c : Char) : Prop := c = closeBracket ∨ c = closeBrace

instance (c : Char) : Decidable (IsOpening c) := inferInstanceAs (Decidable (_ ∨ _))
instance (c : Char) : Decidable (IsClosing c) := inferInstanceAs (Decidable (_ ∨ _))

inductive Mode where
  | outside
  | inside
  /-- In a string literal, after a backslash. -/
  | escaped
  deriving DecidableEq, Repr

structure Scan where
  mode : Mode
  depth : Int
  deriving DecidableEq, Repr

def Scan.next (s : Scan) (c : Char) : Scan :=
  match s.mode with
  | .escaped => { s with mode := .inside }
  | .inside =>
      if c = quote then { s with mode := .outside }
      else if c = backslash then { s with mode := .escaped }
      else s
  | .outside =>
      if c = quote then { s with mode := .inside }
      else if IsOpening c then { s with depth := s.depth + 1 }
      else if IsClosing c then { s with depth := s.depth - 1 }
      else s

def scan (s : Scan) (text : List Char) : Scan := text.foldl Scan.next s

@[simp] theorem scan_nil (s : Scan) : scan s [] = s := rfl

@[simp] theorem scan_cons (s : Scan) (c : Char) (text : List Char) :
    scan s (c :: text) = scan (s.next c) text := rfl

@[simp] theorem scan_append (s : Scan) (a b : List Char) : scan s (a ++ b) = scan (scan s a) b :=
  List.foldl_append

/-- All string literals are closed and all brackets, as far as a count
can tell. -/
def Balanced (text : List Char) : Prop := scan ⟨.outside, 0⟩ text = ⟨.outside, 0⟩

instance (text : List Char) : Decidable (Balanced text) :=
  inferInstanceAs (Decidable (_ = _))

/-- The text leaves a scan that is in the mode `m` as it was, and closes
no bracket that it has not opened. -/
structure Keeps (m : Mode) (text : List Char) : Prop where
  back : ∀ d, scan ⟨m, d⟩ text = ⟨m, d⟩
  above : ∀ d p, p <+: text → d ≤ (scan ⟨m, d⟩ p).depth

theorem Keeps.balanced {text : List Char} (h : Keeps .outside text) : Balanced text := h.back 0

/-! ## Scanning a single character -/

/-- A character that means nothing outside string literals. -/
structure IsPlain (c : Char) : Prop where
  ne_quote : c ≠ quote
  not_opening : ¬ IsOpening c
  not_closing : ¬ IsClosing c

instance (c : Char) : Decidable (IsPlain c) :=
  decidable_of_iff (c ≠ quote ∧ ¬ IsOpening c ∧ ¬ IsClosing c)
    ⟨fun h => ⟨h.1, h.2.1, h.2.2⟩, fun h => ⟨h.1, h.2, h.3⟩⟩

theorem next_opening {c : Char} (h : IsOpening c) (d : Int) :
    (⟨.outside, d⟩ : Scan).next c = ⟨.outside, d + 1⟩ := by
  have hq : c ≠ quote := by
    rcases h with rfl | rfl <;> decide
  simp only [Scan.next]
  rw [if_neg hq, if_pos h]

theorem next_closing {c : Char} (h : IsClosing c) (d : Int) :
    (⟨.outside, d⟩ : Scan).next c = ⟨.outside, d - 1⟩ := by
  have hq : c ≠ quote := by
    rcases h with rfl | rfl <;> decide
  have ho : ¬ IsOpening c := by
    rcases h with rfl | rfl <;> decide
  simp only [Scan.next]
  rw [if_neg hq, if_neg ho, if_pos h]

theorem next_plain {c : Char} (h : IsPlain c) (d : Int) :
    (⟨.outside, d⟩ : Scan).next c = ⟨.outside, d⟩ := by
  simp only [Scan.next]
  rw [if_neg h.ne_quote, if_neg h.not_opening, if_neg h.not_closing]

theorem next_inside {c : Char} (hq : c ≠ quote) (hb : c ≠ backslash) (d : Int) :
    (⟨.inside, d⟩ : Scan).next c = ⟨.inside, d⟩ := by
  simp only [Scan.next]
  rw [if_neg hq, if_neg hb]

/-! ## Texts that keep the scan -/

namespace Keeps

variable {m : Mode} {a b : List Char}

theorem nil (m : Mode) : Keeps m [] where
  back _ := rfl
  above d p hp := by rw [List.prefix_nil.mp hp]; exact Int.le_refl d

theorem append (ha : Keeps m a) (hb : Keeps m b) : Keeps m (a ++ b) where
  back d := by rw [scan_append, ha.back, hb.back]
  above d p hp := by
    obtain ⟨r, hr⟩ := hp
    -- the beginning ends in the first text or goes into the second
    rcases List.append_eq_append_iff.mp hr with ⟨q, hq, -⟩ | ⟨q, rfl, hq⟩
    · exact ha.above d p ⟨q, hq.symm⟩
    · rw [scan_append, ha.back]
      exact hb.above d q ⟨r, hq.symm⟩

/-- A beginning of a text is empty or goes on after the first character. -/
theorem le_depth_cons {d e : Int} {c : Char} {p : List Char} (hp : p <+: c :: a) (hd : d ≤ e)
    (h : ∀ q, q <+: a → d ≤ (scan ((⟨m, e⟩ : Scan).next c) q).depth) :
    d ≤ (scan ⟨m, e⟩ p).depth := by
  rcases List.prefix_cons_iff.mp hp with rfl | ⟨q, rfl, hq⟩
  · exact hd
  · exact h q hq

/-- A character that a scan in this mode does not see. -/
theorem char {c : Char} (h : ∀ d, (⟨m, d⟩ : Scan).next c = ⟨m, d⟩) : Keeps m [c] where
  back d := h d
  above d p hp := by
    refine le_depth_cons hp (Int.le_refl d) fun q hq => ?_
    rw [h d]
    exact (nil m).above d q hq

theorem flatMap {β : Type} {xs : List β} {f : β → List Char} (h : ∀ x ∈ xs, Keeps m (f x)) :
    Keeps m (xs.flatMap f) := by
  induction xs with
  | nil => exact nil m
  | cons x xs ih =>
    obtain ⟨hx, hxs⟩ := List.forall_mem_cons.mp h
    rw [List.flatMap_cons]
    exact hx.append (ih hxs)

/-- A text of characters that the scan does not see. -/
theorem of_forall (h : ∀ c ∈ a, ∀ d, (⟨m, d⟩ : Scan).next c = ⟨m, d⟩) : Keeps m a := by
  have hchars : Keeps m (a.flatMap fun c => [c]) := flatMap fun c hc => char (h c hc)
  rwa [List.flatMap_singleton'] at hchars

theorem plain (h : ∀ c ∈ a, IsPlain c) : Keeps .outside a :=
  of_forall fun c hc d => next_plain (h c hc) d

/-- A given word, of which `decide` sees that it is plain. -/
theorem word (h : a.all (fun c => IsPlain c) = true) : Keeps .outside a :=
  plain fun c hc => of_decide_eq_true (List.all_eq_true.mp h c hc)

theorem literal (h : ∀ c ∈ a, c ≠ quote ∧ c ≠ backslash) : Keeps .inside a :=
  of_forall fun c hc d => next_inside (h c hc).1 (h c hc).2 d

theorem intercalate {sep : List Char} {xs : List (List Char)} (hsep : Keeps m sep)
    (h : ∀ x ∈ xs, Keeps m x) : Keeps m (sep.intercalate xs) := by
  induction xs with
  | nil => exact nil m
  | cons x xs ih =>
    obtain ⟨hx, hxs⟩ := List.forall_mem_cons.mp h
    cases xs with
    | nil => rwa [List.intercalate_singleton]
    | cons y ys =>
      rw [List.intercalate_cons_cons]
      exact (hx.append hsep).append (ih hxs)

/-- An escape sequence of one character in a string literal. -/
theorem escape (c : Char) : Keeps .inside [backslash, c] where
  back d := rfl
  above d p hp := by
    refine le_depth_cons hp (Int.le_refl d) fun q hq => ?_
    refine le_depth_cons hq (Int.le_refl d) fun r hr => ?_
    exact (nil .inside).above d r hr

theorem quoted (h : Keeps .inside a) : Keeps .outside (quote :: (a ++ [quote])) where
  back d := by
    show scan ⟨.inside, d⟩ (a ++ [quote]) = _
    rw [scan_append, h.back]
    rfl
  above d p hp := by
    refine le_depth_cons hp (Int.le_refl d) fun q hq => ?_
    show d ≤ (scan ⟨.inside, d⟩ q).depth
    rcases List.prefix_concat_iff.mp hq with rfl | hq
    · rw [scan_append, h.back]
      exact Int.le_refl d
    · exact h.above d q hq

/-! ## Brackets -/

/-- In brackets, the bracket stays open until the last character. -/
theorem above_bracketed {o c : Char} (ho : IsOpening o) (h : Keeps .outside a) {p : List Char}
    (hp : p <+: o :: (a ++ [c])) (hne : p ≠ []) (hcut : p ≠ o :: (a ++ [c])) (d : Int) :
    d + 1 ≤ (scan ⟨.outside, d⟩ p).depth := by
  rcases List.prefix_cons_iff.mp hp with rfl | ⟨q, rfl, hq⟩
  · exact absurd rfl hne
  · rcases List.prefix_concat_iff.mp hq with rfl | hq
    · exact absurd rfl hcut
    · rw [scan_cons, next_opening ho]
      exact h.above (d + 1) q hq

theorem bracketed {o c : Char} (ho : IsOpening o) (hc : IsClosing c) (h : Keeps .outside a) :
    Keeps .outside (o :: (a ++ [c])) where
  back d := by
    rw [scan_cons, next_opening ho, scan_append, h.back, scan_cons, next_closing hc, scan_nil,
      Int.add_sub_cancel]
  above d p hp := by
    by_cases hne : p = []
    · rw [hne]; exact Int.le_refl d
    · by_cases hcut : p = o :: (a ++ [c])
      · rw [hcut, scan_cons, next_opening ho, scan_append, h.back, scan_cons, next_closing hc]
        show d ≤ d + 1 - 1
        omega
      · have := above_bracketed ho h hp hne hcut d
        omega

end Keeps

/-- A text in brackets that is cut short is not balanced. -/
theorem not_balanced_of_prefix {a p : List Char} {o c : Char} (ho : IsOpening o)
    (h : Keeps .outside a) (hp : p <+: o :: (a ++ [c])) (hne : p ≠ [])
    (hcut : p ≠ o :: (a ++ [c])) : ¬ Balanced p := by
  intro hb
  have hdepth : 0 + 1 ≤ (scan ⟨.outside, 0⟩ p).depth := h.above_bracketed ho hp hne hcut 0
  rw [hb] at hdepth
  exact absurd hdepth (by decide)

end SyncSystem.Text
