/-
SyncSystem.Python.Dict — the insertion-ordered dictionary.

A Python `dict` (and `OrderedDict`) keeps its entries in insertion
order: assigning to a present key replaces the value and leaves the
entry, and its key object, where it is; a new key goes to the end; `del`
removes the entry. Keys are compared with `==`, which need not be
identity (`1 == 1.0 == True`), so everything here asks for `BEq` only,
and the laws for `PartialEquivBEq`. That the keys are pairwise different
is a field of the type.
-/
import Mathlib.Data.List.Basic
import Mathlib.Data.List.Perm.Basic
import Mathlib.Data.List.Pairwise

namespace SyncSystem.Python

variable {κ ν : Type} [BEq κ]

/-! ## Entry lists -/

/-- Assignment on the entry list. -/
def setEntry (k : κ) (v : ν) : List (κ × ν) → List (κ × ν)
  | [] => [(k, v)]
  | e :: rest => if e.1 == k then (e.1, v) :: rest else e :: setEntry k v rest

theorem mem_setEntry_fst {k : κ} {v : ν} {es : List (κ × ν)} {e : κ × ν}
    (h : e ∈ setEntry k v es) : e.1 = k ∨ ∃ e' ∈ es, e'.1 = e.1 := by
  induction es with
  | nil =>
    simp only [setEntry, List.mem_singleton] at h
    exact Or.inl (by rw [h])
  | cons a rest ih =>
    simp only [setEntry] at h
    split at h
    · rcases List.mem_cons.mp h with rfl | h
      · exact Or.inr ⟨a, by simp, rfl⟩
      · exact Or.inr ⟨e, by simp [h], rfl⟩
    · rcases List.mem_cons.mp h with rfl | h
      · exact Or.inr ⟨e, by simp, rfl⟩
      · rcases ih h with hk | ⟨e', he', heq⟩
        · exact Or.inl hk
        · exact Or.inr ⟨e', by simp [he'], heq⟩

/-- Keys are pairwise different. -/
def DistinctKeys (es : List (κ × ν)) : Prop :=
  es.Pairwise (fun a b => (a.1 == b.1) = false)

theorem distinctKeys_setEntry (k : κ) (v : ν) {es : List (κ × ν)}
    (h : DistinctKeys es) : DistinctKeys (setEntry k v es) := by
  induction es with
  | nil => simp [setEntry, DistinctKeys]
  | cons a rest ih =>
    obtain ⟨ha, hrest⟩ := List.pairwise_cons.mp h
    simp only [setEntry]
    split
    · exact List.pairwise_cons.mpr ⟨ha, hrest⟩
    · next hk =>
      refine List.pairwise_cons.mpr ⟨?_, ih hrest⟩
      intro e he
      rcases mem_setEntry_fst he with hek | ⟨e', he', heq⟩
      · rw [hek]; simpa using hk
      · rw [← heq]; exact ha e' he'

/-! ## The dictionary -/

structure Dict (κ ν : Type) [BEq κ] where
  entries : List (κ × ν)
  distinct : DistinctKeys entries

namespace Dict

/-- `{}`. -/
def empty : Dict κ ν := ⟨[], List.Pairwise.nil⟩

/-- `d.get(k)`. -/
def get? (d : Dict κ ν) (k : κ) : Option ν :=
  (d.entries.find? (fun e => e.1 == k)).map (·.2)

/-- `k in d`. -/
def contains (d : Dict κ ν) (k : κ) : Bool := (d.get? k).isSome

/-- `d[k] = v`. -/
def set (d : Dict κ ν) (k : κ) (v : ν) : Dict κ ν :=
  ⟨setEntry k v d.entries, distinctKeys_setEntry k v d.distinct⟩

/-- `del d[k]` for a present key; the dictionary itself for an absent
one, where Python raises `KeyError`. -/
def del (d : Dict κ ν) (k : κ) : Dict κ ν :=
  ⟨d.entries.filter (fun e => !(e.1 == k)), d.distinct.sublist List.filter_sublist⟩

/-- `d.popitem(last=False)`, for a dictionary that is not empty. -/
def popFirst (d : Dict κ ν) : Dict κ ν := ⟨d.entries.tail, d.distinct.tail⟩

/-- `f` applied to every value, in place. -/
def mapValues (f : ν → ν) (d : Dict κ ν) : Dict κ ν :=
  ⟨d.entries.map (fun e => (e.1, f e.2)),
    List.pairwise_map.mpr (d.distinct.imp (fun h => h))⟩

/-- `{k: v for k, v in d.items() if p(v)}`. -/
def filterValues (p : ν → Bool) (d : Dict κ ν) : Dict κ ν :=
  ⟨d.entries.filter (fun e => p e.2), d.distinct.sublist List.filter_sublist⟩

/-- `list(d.keys())`. -/
def keys (d : Dict κ ν) : List κ := d.entries.map (·.1)

/-- `list(d.values())`. -/
def values (d : Dict κ ν) : List ν := d.entries.map (·.2)

/-- `len(d)`. -/
def size (d : Dict κ ν) : Nat := d.entries.length

@[simp] theorem get?_empty (k : κ) : (empty : Dict κ ν).get? k = none := rfl

theorem contains_eq_true {d : Dict κ ν} {k : κ} :
    d.contains k = true ↔ ∃ v, d.get? k = some v := by
  simp [contains, Option.isSome_iff_exists]

@[simp] theorem values_mapValues (f : ν → ν) (d : Dict κ ν) :
    (d.mapValues f).values = d.values.map f := by
  simp [values, mapValues]

@[simp] theorem get?_mapValues (f : ν → ν) (d : Dict κ ν) (k : κ) :
    (d.mapValues f).get? k = (d.get? k).map f := by
  simp only [get?, mapValues, List.find?_map, Option.map_map]
  rfl

/-! ## Reading after writing -/

variable [PartialEquivBEq κ]

theorem find?_setEntry (k k' : κ) (v : ν) (es : List (κ × ν)) :
    ((setEntry k v es).find? (fun e => e.1 == k')).map (·.2) =
      if k == k' then some v else (es.find? (fun e => e.1 == k')).map (·.2) := by
  induction es with
  | nil =>
    by_cases h : (k == k') = true <;> simp [setEntry, h]
  | cons a rest ih =>
    by_cases ha : (a.1 == k) = true
    · have hcong : (a.1 == k') = (k == k') := BEq.congr_left ha
      by_cases h : (k == k') = true <;> simp [setEntry, ha, hcong, h]
    · by_cases hak' : (a.1 == k') = true
      · have hne : (k == k') = false := by
          by_contra hkk
          have hkk' : (k == k') = true := by simpa using hkk
          exact ha (BEq.trans hak' (BEq.symm hkk'))
        simp [setEntry, ha, hak', hne]
      · simp [setEntry, ha, hak', ih]

theorem get?_set (d : Dict κ ν) (k k' : κ) (v : ν) :
    (d.set k v).get? k' = if k == k' then some v else d.get? k' :=
  find?_setEntry k k' v d.entries

theorem get?_del (d : Dict κ ν) (k k' : κ) :
    (d.del k).get? k' = if k == k' then none else d.get? k' := by
  have hfind : ((d.del k).entries.find? (fun e => e.1 == k')) =
      if k == k' then none else d.entries.find? (fun e => e.1 == k') := by
    simp only [del, List.find?_filter]
    by_cases h : (k == k') = true
    · rw [if_pos h, List.find?_eq_none]
      intro e _ hc
      simp only [Bool.not_eq_true', decide_eq_true_eq] at hc
      have : (e.1 == k) = true := BEq.trans hc.2 (BEq.symm h)
      rw [hc.1] at this
      cases this
    · rw [if_neg h]
      congr 1
      funext e
      by_cases hek : (e.1 == k) = true
      · have hne : (e.1 == k') = false := by
          by_contra hc
          exact h (BEq.trans (BEq.symm hek) (by simpa using hc))
        simp [hek, hne]
      · simp [hek]
  unfold get?
  rw [hfind]
  split <;> rfl

theorem get?_del_self [ReflBEq κ] (d : Dict κ ν) (k : κ) : (d.del k).get? k = none := by
  simp [get?_del]

theorem contains_set (d : Dict κ ν) (k k' : κ) (v : ν) :
    (d.set k v).contains k' = (k == k' || d.contains k') := by
  simp only [contains, get?_set]
  split
  · next h => simp [h]
  · next h => simp [h]

theorem contains_of_contains_del {d : Dict κ ν} {k k' : κ}
    (h : (d.del k).contains k' = true) : d.contains k' = true := by
  simp only [contains, get?_del] at h ⊢
  split at h
  · cases h
  · exact h

theorem get?_congr (d : Dict κ ν) {k k' : κ} (h : (k == k') = true) : d.get? k = d.get? k' := by
  have hfind : (fun e : κ × ν => e.1 == k) = fun e => e.1 == k' := by
    funext e
    exact BEq.congr_right h
  simp only [get?, hfind]

theorem contains_congr (d : Dict κ ν) {k k' : κ} (h : (k == k') = true) :
    d.contains k = d.contains k' := by
  simp only [contains, d.get?_congr h]

omit [PartialEquivBEq κ] in
theorem mem_values_of_get? {d : Dict κ ν} {k : κ} {v : ν} (h : d.get? k = some v) :
    v ∈ d.values := by
  obtain ⟨e, he, rfl⟩ := Option.map_eq_some_iff.mp h
  exact List.mem_map.mpr ⟨e, List.mem_of_find?_eq_some he, rfl⟩

theorem find?_filter_values {es : List (κ × ν)} (hd : DistinctKeys es) (p : ν → Bool) (k : κ) :
    ((es.filter (fun e => p e.2)).find? (fun e => e.1 == k)).map (·.2) =
      ((es.find? (fun e => e.1 == k)).map (·.2)).filter p := by
  induction es with
  | nil => rfl
  | cons a rest ih =>
    obtain ⟨ha, hrest⟩ := List.pairwise_cons.mp hd
    by_cases hk : (a.1 == k) = true
    · by_cases hp : p a.2 = true
      · simp [hk, hp, Option.filter]
      · -- the entry goes, and no other one has its key
        have hnone : (rest.filter (fun e => p e.2)).find? (fun e => e.1 == k) = none := by
          rw [List.find?_eq_none]
          intro e he hek
          have hsame : (a.1 == e.1) = true := BEq.trans hk (BEq.symm hek)
          rw [ha e (List.mem_of_mem_filter he)] at hsame
          cases hsame
        simp [hk, hp, hnone, Option.filter]
    · have hskip : ∀ l : List (κ × ν), (a :: l).find? (fun e => e.1 == k) =
          l.find? (fun e => e.1 == k) := fun l => List.find?_cons_of_neg hk
      rw [hskip, ← ih hrest, List.filter_cons]
      split
      · rw [hskip]
      · rfl

@[simp] theorem get?_filterValues (d : Dict κ ν) (p : ν → Bool) (k : κ) :
    (d.filterValues p).get? k = (d.get? k).filter p :=
  find?_filter_values d.distinct p k

omit [PartialEquivBEq κ] in
theorem mem_keys [LawfulBEq κ] {d : Dict κ ν} {k : κ} :
    k ∈ d.keys ↔ ∃ v, d.get? k = some v := by
  simp only [keys, get?, List.mem_map, Option.map_eq_some_iff]
  constructor
  · rintro ⟨e, he, rfl⟩
    have hfound : (d.entries.find? (fun e' => e'.1 == e.1)).isSome = true := by
      rw [List.find?_isSome]
      exact ⟨e, he, by simp⟩
    obtain ⟨e', he'⟩ := Option.isSome_iff_exists.mp hfound
    exact ⟨e'.2, e', he', rfl⟩
  · rintro ⟨v, e, he, rfl⟩
    exact ⟨e, List.mem_of_find?_eq_some he, by simpa using List.find?_some he⟩

omit [PartialEquivBEq κ] in
theorem find?_of_mem [ReflBEq κ] {es : List (κ × ν)} (hd : DistinctKeys es) {e : κ × ν}
    (he : e ∈ es) : es.find? (fun e' => e'.1 == e.1) = some e := by
  induction es with
  | nil => cases he
  | cons a rest ih =>
    obtain ⟨ha, hrest⟩ := List.pairwise_cons.mp hd
    rcases List.mem_cons.mp he with rfl | he
    · simp
    · rw [List.find?_cons_of_neg (by simp [ha e he])]
      exact ih hrest he

omit [PartialEquivBEq κ] in
theorem get?_of_mem [ReflBEq κ] {d : Dict κ ν} {k : κ} {v : ν} (h : (k, v) ∈ d.entries) :
    d.get? k = some v := by
  rw [get?, find?_of_mem d.distinct h]
  rfl

theorem get?_eq_some_iff [ReflBEq κ] {d : Dict κ ν} {k : κ} {v : ν} :
    d.get? k = some v ↔ ∃ e ∈ d.entries, (e.1 == k) = true ∧ e.2 = v := by
  constructor
  · intro h
    obtain ⟨e, hfind, hvalue⟩ := Option.map_eq_some_iff.mp h
    have hkey := List.find?_some hfind
    exact ⟨e, List.mem_of_find?_eq_some hfind, hkey, hvalue⟩
  · rintro ⟨e, he, hkey, rfl⟩
    rw [← get?_congr d hkey]
    exact get?_of_mem he

/-! ## The keys

`d[k] = v` for a new key puts it last, `del` takes it out, and the
others keep their order. -/

omit [PartialEquivBEq κ] in
theorem contains_iff_keys {d : Dict κ ν} {k : κ} :
    d.contains k = true ↔ ∃ k' ∈ d.keys, (k' == k) = true := by
  simp [contains, get?, keys]

omit [PartialEquivBEq κ] in
theorem distinct_keys (d : Dict κ ν) : d.keys.Pairwise (fun a b => (a == b) = false) :=
  List.pairwise_map.mpr d.distinct

omit [PartialEquivBEq κ] in
theorem length_keys (d : Dict κ ν) : d.keys.length = d.size := by
  simp [keys, size]

omit [PartialEquivBEq κ] in
@[simp] theorem keys_del (d : Dict κ ν) (k : κ) :
    (d.del k).keys = d.keys.filter (fun k' => !(k' == k)) := by
  simp only [keys, del, List.filter_map]
  rfl

omit [PartialEquivBEq κ] in
theorem setEntry_of_forall {k : κ} {v : ν} {es : List (κ × ν)}
    (h : ∀ e ∈ es, (e.1 == k) = false) : setEntry k v es = es ++ [(k, v)] := by
  induction es with
  | nil => rfl
  | cons a rest ih =>
    have ha := h a List.mem_cons_self
    rw [setEntry, if_neg (by simp [ha]), ih (fun e he => h e (List.mem_cons_of_mem a he))]
    rfl

omit [PartialEquivBEq κ] in
theorem keys_set_new {d : Dict κ ν} {k : κ} (h : d.contains k = false) (v : ν) :
    (d.set k v).keys = d.keys ++ [k] := by
  have hne : ∀ e ∈ d.entries, (e.1 == k) = false := by
    intro e he
    by_contra hc
    have hk : d.contains k = true :=
      contains_iff_keys.mpr ⟨e.1, List.mem_map_of_mem he, by simpa using hc⟩
    rw [h] at hk
    cases hk
  simp [keys, set, setEntry_of_forall hne]

omit [PartialEquivBEq κ] in
theorem map_fst_setEntry {k : κ} {v : ν} {es : List (κ × ν)} (h : ∃ e ∈ es, (e.1 == k) = true) :
    (setEntry k v es).map (·.1) = es.map (·.1) := by
  induction es with
  | nil => simp at h
  | cons a rest ih =>
    rw [setEntry]
    split
    · rfl
    · next ha =>
      obtain ⟨e, he, hk⟩ := h
      rcases List.mem_cons.mp he with rfl | he
      · exact absurd hk ha
      · simp [ih ⟨e, he, hk⟩]

omit [PartialEquivBEq κ] in
theorem keys_set_present {d : Dict κ ν} {k : κ} (h : d.contains k = true) (v : ν) :
    (d.set k v).keys = d.keys := by
  obtain ⟨k', hk', heq⟩ := contains_iff_keys.mp h
  obtain ⟨e, he, rfl⟩ := List.mem_map.mp hk'
  exact map_fst_setEntry ⟨e, he, heq⟩

theorem contains_del (d : Dict κ ν) (k k' : κ) :
    (d.del k).contains k' = (!(k == k') && d.contains k') := by
  simp only [contains, get?_del]
  split
  · next h => simp [h]
  · next h => simp [h]

omit [PartialEquivBEq κ] in
theorem size_set (d : Dict κ ν) (k : κ) (v : ν) :
    (d.set k v).size = if d.contains k then d.size else d.size + 1 := by
  rw [← length_keys]
  cases h : d.contains k with
  | true => simp [keys_set_present h, length_keys]
  | false => simp [keys_set_new h, length_keys]

/-! ## Values as a collection

Up to order, writing `v` at `k` leaves the values at the other keys and
adds `v`; so a quantity summed over all values changes by what changes
at `k`. -/

omit [PartialEquivBEq κ] in
theorem filter_ne_of_forall {k : κ} {es : List (κ × ν)}
    (h : ∀ e ∈ es, (e.1 == k) = false) : es.filter (fun e => !(e.1 == k)) = es :=
  List.filter_eq_self.mpr (fun e he => by simp [h e he])

omit [PartialEquivBEq κ] in
theorem del_of_get?_eq_none {d : Dict κ ν} {k : κ} (h : d.get? k = none) : d.del k = d := by
  have hne : ∀ e ∈ d.entries, (e.1 == k) = false := by
    intro e he
    have hfind := List.find?_eq_none.mp (Option.map_eq_none_iff.mp h) e he
    simpa using hfind
  obtain ⟨entries, distinct⟩ := d
  simp only [del, filter_ne_of_forall hne]

theorem map_snd_setEntry_perm (k : κ) (v : ν) {es : List (κ × ν)} (h : DistinctKeys es) :
    ((setEntry k v es).map (·.2)).Perm
      (v :: (es.filter (fun e => !(e.1 == k))).map (·.2)) := by
  induction es with
  | nil => simp [setEntry]
  | cons a rest ih =>
    obtain ⟨ha, hrest⟩ := List.pairwise_cons.mp h
    by_cases hak : (a.1 == k) = true
    · have hne : ∀ e ∈ rest, (e.1 == k) = false := by
        intro e he
        by_contra hc
        have hek : (e.1 == k) = true := by simpa using hc
        have := BEq.trans hak (BEq.symm hek)
        rw [ha e he] at this
        cases this
      simp [setEntry, hak, filter_ne_of_forall hne]
    · simpa [setEntry, hak] using
        (List.Perm.cons a.2 (ih hrest)).trans (List.Perm.swap _ _ _)

/-- The values after `d[k] = v`: `v`, and the values at the other keys. -/
theorem values_set_perm (d : Dict κ ν) (k : κ) (v : ν) :
    (d.set k v).values.Perm (v :: (d.del k).values) :=
  map_snd_setEntry_perm k v d.distinct

theorem mem_values_set {d : Dict κ ν} {k : κ} {v w : ν} (h : w ∈ (d.set k v).values) :
    w = v ∨ w ∈ d.values := by
  rcases List.mem_cons.mp ((d.values_set_perm k v).mem_iff.mp h) with heq | hmem
  · exact Or.inl heq
  · exact Or.inr ((List.filter_sublist.map _).subset hmem)

theorem mem_values_set_self (d : Dict κ ν) (k : κ) (v : ν) : v ∈ (d.set k v).values :=
  (d.values_set_perm k v).mem_iff.mpr List.mem_cons_self

omit [PartialEquivBEq κ] in
theorem mem_values_del {d : Dict κ ν} {k : κ} {w : ν} (h : w ∈ (d.del k).values) :
    w ∈ d.values :=
  (List.filter_sublist.map _).subset h

theorem map_snd_perm_of_find? {k : κ} {v : ν} {es : List (κ × ν)} (hd : DistinctKeys es)
    (h : (es.find? (fun e => e.1 == k)).map (·.2) = some v) :
    (es.map (·.2)).Perm (v :: (es.filter (fun e => !(e.1 == k))).map (·.2)) := by
  induction es with
  | nil => simp at h
  | cons a rest ih =>
    obtain ⟨ha, hrest⟩ := List.pairwise_cons.mp hd
    by_cases hak : (a.1 == k) = true
    · have hne : ∀ e ∈ rest, (e.1 == k) = false := by
        intro e he
        by_contra hc
        have hek : (e.1 == k) = true := by simpa using hc
        have := BEq.trans hak (BEq.symm hek)
        rw [ha e he] at this
        cases this
      have hv : a.2 = v := by simpa [hak] using h
      simp [hak, hv, filter_ne_of_forall hne]
    · have h' : (rest.find? (fun e => e.1 == k)).map (·.2) = some v := by simpa [hak] using h
      simpa [hak] using (List.Perm.cons a.2 (ih hrest h')).trans (List.Perm.swap _ _ _)

/-- The values before: the value at `k`, and the values at the other keys. -/
theorem values_perm_of_get? {d : Dict κ ν} {k : κ} {v : ν} (h : d.get? k = some v) :
    d.values.Perm (v :: (d.del k).values) :=
  map_snd_perm_of_find? d.distinct h

/-- One entry goes with a present key. -/
theorem size_del {d : Dict κ ν} {k : κ} (h : d.contains k = true) :
    (d.del k).size + 1 = d.size := by
  obtain ⟨v, hv⟩ := contains_eq_true.mp h
  have hlen := (values_perm_of_get? hv).length_eq
  simpa [values, size] using hlen.symm

end Dict

/-! ## Sets as lists -/

/-- `s.add(a)`, on the elements of `s` in the order they came. -/
def addOnce {α : Type} [BEq α] (l : List α) (a : α) : List α :=
  if l.any (· == a) then l else l ++ [a]

theorem Dict.keys_set {κ ν : Type} [BEq κ] (d : Dict κ ν) (k : κ) (v : ν) :
    (d.set k v).keys = addOnce d.keys k := by
  have hany : d.keys.any (· == k) = d.contains k := by
    rw [Bool.eq_iff_iff, contains_iff_keys]
    simp
  rw [addOnce, hany]
  cases h : d.contains k with
  | true => simpa using keys_set_present h v
  | false => simpa using keys_set_new h v

theorem foldl_addOnce {α : Type} [BEq α] [LawfulBEq α] {l names : List α}
    (h : (l ++ names).Nodup) : names.foldl addOnce l = l ++ names := by
  induction names generalizing l with
  | nil => simp
  | cons a rest ih =>
    have hnew : a ∉ l := by
      intro ha
      exact (List.nodup_append.mp h).2.2 a ha a List.mem_cons_self rfl
    rw [List.append_cons] at h
    rw [List.foldl_cons, addOnce, if_neg (by simpa using hnew)]
    simpa using ih h

end SyncSystem.Python
