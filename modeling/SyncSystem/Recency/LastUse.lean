/-
SyncSystem.Recency.LastUse — lists kept in the order of last use.

Items are used one after another; `us` is everything that has been used
so far, repetitions included. `lastUse us a` dates the latest use of `a`,
and a list is `ByLastUse us` when it goes from the least to the most
recently used of its items. Using an item moves it to the end, dropping
items keeps the order, and the head is what has not been used for the
longest time. `distinctUses us` lists all items so; a list that is kept
short by dropping its head has the end of it (`trim_use`). Items are
compared with `==` only.
-/
import Mathlib.Data.List.Basic
import Mathlib.Data.List.DropRight

namespace SyncSystem.Recency

variable {α : Type} [BEq α]

/-- One more than the position of the last use of `a`; 0 if there is none. -/
def lastUse (us : List α) (a : α) : Nat := us.length - us.reverse.findIdx (· == a)

theorem lastUse_le (us : List α) (a : α) : lastUse us a ≤ us.length := Nat.sub_le ..

@[simp] theorem lastUse_append (us : List α) (x a : α) :
    lastUse (us ++ [x]) a = if x == a then us.length + 1 else lastUse us a := by
  simp only [lastUse, List.reverse_append, List.reverse_singleton, List.singleton_append,
    List.findIdx_cons, List.length_append, List.length_singleton]
  cases x == a <;> simp

theorem lastUse_congr [PartialEquivBEq α] (us : List α) {a b : α} (h : (a == b) = true) :
    lastUse us a = lastUse us b := by
  have hsame : (fun x : α => x == a) = fun x => x == b := by
    funext x
    exact BEq.congr_right h
  simp only [lastUse, hsame]

/-- Everything in `order` has been used, and later items later. -/
structure ByLastUse (us order : List α) : Prop where
  used : ∀ a ∈ order, 0 < lastUse us a
  sorted : order.Pairwise (fun a b => lastUse us a < lastUse us b)

namespace ByLastUse

variable {us order order' : List α}

theorem nil : ByLastUse us ([] : List α) := ⟨by simp, .nil⟩

theorem sublist (h : ByLastUse us order) (hsub : order'.Sublist order) : ByLastUse us order' :=
  ⟨fun a ha => h.used a (hsub.subset ha), h.sorted.sublist hsub⟩

/-- A use of `a`: wherever it was, it is the last one now. -/
theorem use [EquivBEq α] (h : ByLastUse us order) (a : α) :
    ByLastUse (us ++ [a]) (order.filter (fun b => !(b == a)) ++ [a]) := by
  have hold : ∀ b ∈ order.filter (fun b => !(b == a)),
      lastUse (us ++ [a]) b = lastUse us b ∧ b ∈ order := by
    intro b hb
    obtain ⟨hmem, hne⟩ := List.mem_filter.mp hb
    have hab : (a == b) = false := by
      rw [BEq.comm]
      simpa using hne
    simp [hab, hmem]
  have hself : lastUse (us ++ [a]) a = us.length + 1 := by simp
  constructor
  · intro b hb
    rcases List.mem_append.mp hb with hb | hb
    · obtain ⟨heq, hmem⟩ := hold b hb
      rw [heq]
      exact h.used b hmem
    · rw [List.mem_singleton.mp hb]
      omega
  · rw [List.pairwise_append]
    refine ⟨?_, List.pairwise_singleton _ _, ?_⟩
    · have hsorted := h.sorted.sublist (List.filter_sublist (p := fun b => !(b == a)))
      refine hsorted.imp_of_mem ?_
      intro b c hb hc hlt
      rw [(hold b hb).1, (hold c hc).1]
      exact hlt
    · intro b hb c hc
      rw [List.mem_singleton.mp hc, (hold b hb).1]
      have := lastUse_le us b
      omega

/-- The head is the one used least recently. -/
theorem head_lt {v : α} (h : ByLastUse us (v :: order)) :
    ∀ b ∈ order, lastUse us v < lastUse us b :=
  (List.pairwise_cons.mp h.sorted).1

end ByLastUse

/-! ## The items used most recently -/

/-- The items that have been used, each at its last use. -/
def distinctUses : List α → List α
  | [] => []
  | a :: us => if us.any (· == a) then distinctUses us else a :: distinctUses us

theorem distinctUses_sublist (us : List α) : (distinctUses us).Sublist us := by
  induction us with
  | nil => exact .slnil
  | cons a us ih =>
    simp only [distinctUses]
    split
    · exact ih.cons a
    · exact ih.cons_cons a

section Equiv

variable [EquivBEq α]

/-- The last use counts, so the item goes to the end. -/
theorem distinctUses_append (us : List α) (a : α) :
    distinctUses (us ++ [a]) = (distinctUses us).filter (fun b => !(b == a)) ++ [a] := by
  induction us with
  | nil => rfl
  | cons b us ih =>
    simp only [List.cons_append, distinctUses, List.any_append, List.any_cons, List.any_nil,
      Bool.or_false, ih]
    cases hus : us.any (· == b) with
    | true => simp
    | false =>
      rw [BEq.comm (a := a)]
      cases hba : b == a <;> simp [hba]

theorem distinctUses_pairwise (us : List α) :
    (distinctUses us).Pairwise (fun a b => (a == b) = false) := by
  induction us with
  | nil => exact .nil
  | cons a us ih =>
    simp only [distinctUses]
    split
    · exact ih
    · next hnone =>
      refine List.pairwise_cons.mpr ⟨fun b hb => ?_, ih⟩
      rw [BEq.comm]
      simp only [List.any_eq_true, not_exists, not_and] at hnone
      simpa using hnone b ((distinctUses_sublist us).subset hb)

/-- Every item that has been used is there. -/
theorem exists_mem_distinctUses {us : List α} {a : α} (h : a ∈ us) :
    ∃ b ∈ distinctUses us, (b == a) = true := by
  induction us using List.reverseRecOn with
  | nil => cases h
  | append_singleton us x ih =>
    rw [distinctUses_append]
    rcases List.mem_append.mp h with h | h
    · obtain ⟨b, hb, hba⟩ := ih h
      cases hbx : b == x with
      | true =>
        refine ⟨x, List.mem_append_right _ (List.mem_singleton.mpr rfl), ?_⟩
        exact BEq.trans (BEq.symm hbx) hba
      | false =>
        refine ⟨b, List.mem_append_left _ (List.mem_filter.mpr ⟨hb, ?_⟩), hba⟩
        simp [hbx]
    · rw [List.mem_singleton.mp h]
      exact ⟨x, List.mem_append_right _ (List.mem_singleton.mpr rfl), BEq.rfl⟩

theorem byLastUse_distinctUses (us : List α) : ByLastUse us (distinctUses us) := by
  induction us using List.reverseRecOn with
  | nil => exact .nil
  | append_singleton us a ih =>
    rw [distinctUses_append]
    exact ih.use a

/-- Of different items at most one is `a`. -/
theorem length_le_filter_ne {order : List α} (a : α)
    (h : order.Pairwise (fun b c => (b == c) = false)) :
    order.length ≤ (order.filter (fun b => !(b == a))).length + 1 := by
  induction order with
  | nil => simp
  | cons b rest ih =>
    obtain ⟨hb, hrest⟩ := List.pairwise_cons.mp h
    cases hba : b == a with
    | false =>
      have := ih hrest
      simp [hba]
      omega
    | true =>
      have hkeep : rest.filter (fun c => !(c == a)) = rest := by
        rw [List.filter_eq_self]
        intro c hc
        have hac : (a == c) = false := by
          rw [← BEq.congr_left hba]
          exact hb c hc
        rw [BEq.comm, hac]
        rfl
      simp [hba, hkeep]

omit [BEq α] [EquivBEq α] in
/-- The end of a list, told by its length. -/
theorem eq_rtake_iff {order all : List α} {k : Nat} :
    order = all.rtake k ↔ order <:+ all ∧ order.length = min k all.length := by
  have hlen : (all.rtake k).length = min k all.length := by
    rw [List.rtake, List.length_drop]
    omega
  constructor
  · rintro rfl
    exact ⟨List.drop_suffix _ _, hlen⟩
  · rintro ⟨hsuffix, hlength⟩
    rw [List.suffix_iff_eq_drop.mp hsuffix, hlength, List.rtake]
    congr 1
    omega

/-- A list of at most `k` items: after a use its head goes, if it has
become longer. -/
def trim (k : Nat) (order : List α) : List α :=
  if order.length > k then order.tail else order

/-- The list stays the end of all items by last use: an item that has
been dropped is older than those that are left. -/
theorem trim_use {us order : List α} {k : Nat} (h : order = (distinctUses us).rtake k) (a : α) :
    trim k (order.filter (fun b => !(b == a)) ++ [a]) = (distinctUses (us ++ [a])).rtake k := by
  obtain ⟨hsuffix, hlength⟩ := eq_rtake_iff.mp h
  have hdistinct := distinctUses_pairwise us
  have hall := length_le_filter_ne a hdistinct
  have horder := length_le_filter_ne a (hdistinct.sublist hsuffix.sublist)
  have hshort := List.length_filter_le (fun b => !(b == a)) order
  -- either nothing has been dropped so far, or there are `k` items
  have hcase : order = distinctUses us ∨
      order.length = k ∧ k < (distinctUses us).length := by
    rcases Nat.lt_or_ge k (distinctUses us).length with hk | hk
    · exact Or.inr ⟨by omega, hk⟩
    · exact Or.inl (hsuffix.eq_of_length (by omega))
  have hused : order.filter (fun b => !(b == a)) ++ [a] <:+
      (distinctUses us).filter (fun b => !(b == a)) ++ [a] := by
    obtain ⟨older, holder⟩ := hsuffix.filter (fun b => !(b == a))
    exact ⟨older, by rw [← List.append_assoc, holder]⟩
  rw [distinctUses_append, eq_rtake_iff, trim]
  simp only [List.length_append, List.length_singleton]
  split
  · next hlong =>
    refine ⟨(List.tail_suffix _).trans hused, ?_⟩
    rw [List.length_tail, List.length_append, List.length_singleton]
    rcases hcase with hcase | hcase
    · rw [← hcase]
      omega
    · omega
  · next hfits =>
    refine ⟨hused, ?_⟩
    rw [List.length_append, List.length_singleton]
    rcases hcase with hcase | hcase
    · rw [← hcase]
      omega
    · omega

/-- `order` has the `k` items used most recently, or all if there are no
more: each once, by last use, and later than any that is left out. -/
structure MostRecent (k : Nat) (us order : List α) : Prop where
  distinct : order.Pairwise (fun a b => (a == b) = false)
  sorted : ByLastUse us order
  length : order.length = min k (distinctUses us).length
  recent : ∀ a ∈ us, (∃ b ∈ order, (b == a) = true) ∨
    ∀ b ∈ order, lastUse us a < lastUse us b

theorem mostRecent_rtake (k : Nat) (us : List α) :
    MostRecent k us ((distinctUses us).rtake k) := by
  obtain ⟨hsuffix, hlength⟩ := eq_rtake_iff.mp (rfl : (distinctUses us).rtake k = _)
  have hall := byLastUse_distinctUses us
  refine ⟨(distinctUses_pairwise us).sublist hsuffix.sublist, hall.sublist hsuffix.sublist,
    hlength, ?_⟩
  intro a ha
  obtain ⟨b, hb, hba⟩ := exists_mem_distinctUses ha
  obtain ⟨older, holder⟩ := hsuffix
  rw [← holder] at hb
  rcases List.mem_append.mp hb with hb | hb
  · right
    intro c hc
    have hsorted := hall.sorted
    rw [← holder, List.pairwise_append] at hsorted
    rw [← lastUse_congr us hba]
    exact hsorted.2.2 b hb c hc
  · exact Or.inl ⟨b, hb, hba⟩

end Equiv

end SyncSystem.Recency
