/-
SyncSystem.Python.Key — JSON values as dictionary keys.

A list or a dict has no hash and raises `TypeError` where a key is
needed; every other JSON value is a key, and numbers that are equal are
one key whatever their type (`1 == 1.0 == True`). A dictionary keeps the
key object it was first given, so a key here is the value itself and its
`==` is Python's.
-/
import SyncSystem.Python.Json

namespace SyncSystem.Python

/-- What `hash` and `==` look at in a key. -/
inductive KeyClass where
  | none
  | num (q : Rat)
  | str (s : String)
  deriving DecidableEq

def Json.keyClass? : Json → Option KeyClass
  | .null => some .none
  | .str s => some (.str s)
  | .arr _ => Option.none
  | .obj _ => Option.none
  | v => v.num?.map .num

/-- A hashable JSON value. -/
structure Key where
  value : Json
  hashable : value.keyClass?.isSome = true

/-- The key of a value, or the `TypeError` of an unhashable one. -/
def Json.key (v : Json) : Except PyError Key :=
  if h : v.keyClass?.isSome = true then .ok ⟨v, h⟩ else .error .typeError

namespace Key

def keyClass (k : Key) : KeyClass := k.value.keyClass?.get k.hashable

instance : BEq Key := ⟨fun a b => a.value.pyEq b.value⟩

/-- A number equals what has the same numeric value. -/
theorem pyEq_of_num? {v w : Json} {q : Rat} (hv : v.num? = some q) :
    v.pyEq w = true ↔ w.num? = some q := by
  cases v <;> simp only [Json.num?, Option.some.injEq, reduceCtorEq] at hv <;> subst hv <;>
    simp [Json.pyEq]

theorem num?_eq_some_iff {v : Json} {c : KeyClass} (h : v.keyClass? = some c) {q : Rat} :
    v.num? = some q ↔ c = .num q := by
  cases v <;> simp only [Json.keyClass?, Json.num?, Option.map_some, Option.some.injEq,
    reduceCtorEq] at h <;> subst h <;> simp [Json.num?]

theorem pyEq_iff_of_keyClass {v w : Json} {c d : KeyClass} (hv : v.keyClass? = some c)
    (hw : w.keyClass? = some d) : v.pyEq w = true ↔ c = d := by
  cases c with
  | num q =>
    rw [pyEq_of_num? ((num?_eq_some_iff hv).mpr rfl), num?_eq_some_iff hw]
    exact eq_comm
  | str s =>
    have hstr : v = .str s := by
      cases v <;> simp [Json.keyClass?, Json.num?] at hv
      exact congrArg Json.str hv
    rw [hstr, pyEq_str_left]
    cases w <;> simp [Json.keyClass?, Json.num?] at hw <;> simp [← hw, eq_comm]
  | none =>
    have hnull : v = .null := by
      cases v <;> simp [Json.keyClass?, Json.num?] at hv
      rfl
    rw [hnull]
    cases w <;> simp [Json.keyClass?, Json.num?] at hw <;> simp [← hw, Json.pyEq]

theorem beq_iff_keyClass {a b : Key} : (a == b) = true ↔ a.keyClass = b.keyClass :=
  pyEq_iff_of_keyClass (Option.some_get _).symm (Option.some_get _).symm

/-- Python's `==` on keys is an equivalence. -/
instance : EquivBEq Key where
  rfl := beq_iff_keyClass.mpr rfl
  symm h := beq_iff_keyClass.mpr (beq_iff_keyClass.mp h).symm
  trans h h' := beq_iff_keyClass.mpr ((beq_iff_keyClass.mp h).trans (beq_iff_keyClass.mp h'))

end Key

end SyncSystem.Python
