/-
SyncSystem.Python.Json — JSON values with the Python operations that
are applied to them.

A request or a peer message is whatever `json.loads` returns, so a field
can hold a value of any JSON type. This module has the values (`Json`),
a decoded object (`Obj`) and the handful of Python operations the
handlers apply to them: `dict.get`, `==`, `in`, truthiness and numeric
comparison, each with the exception it raises on the wrong type.

Numbers. `int` and `float` are separate, as in Python. A finite float is
an exact rational, so comparing an `int` with a `float` is exact here as
it is there; `nan` and the infinities are left out, and so is the
rounding of float arithmetic. `True` and `False` are the numbers 1 and 0.
-/
import Mathlib.Data.Rat.Lemmas
import Mathlib.Data.List.Basic

namespace SyncSystem.Python

/-! ## Values -/

inductive Json where
  | null
  | bool (b : Bool)
  | int (n : Int)
  | float (q : Rat)
  | str (s : String)
  | arr (xs : List Json)
  | obj (fields : List (String × Json))
  deriving Repr

/-- The exceptions the modelled code can raise. -/
inductive PyError where
  | typeError
  | attributeError
  | keyError
  | zeroDivisionError
  | valueError
  | overflowError
  deriving DecidableEq, Repr

/-- A decoded JSON object. -/
abbrev Obj := List (String × Json)

/-- `d.get(key, default)` on a dict. -/
def Obj.get (d : Obj) (key : String) (default : Json) : Json :=
  (d.lookup key).getD default

/-- `key in d`. -/
def Obj.has (d : Obj) (key : String) : Bool :=
  (d.lookup key).isSome

/-- `v.get(key, default)`: only a dict has the method. -/
def Json.get (v : Json) (key : String) (default : Json) : Except PyError Json :=
  match v with
  | .obj d => .ok (Obj.get d key default)
  | _ => .error .attributeError

/-! ## Truth and numbers -/

/-- `bool(v)`. -/
def Json.truthy : Json → Bool
  | .null => false
  | .bool b => b
  | .int n => n != 0
  | .float q => q != 0
  | .str s => s != ""
  | .arr xs => !xs.isEmpty
  | .obj fields => !fields.isEmpty

/-- The numeric value of a number; `bool` is a subclass of `int`. -/
def Json.num? : Json → Option Rat
  | .bool b => some (if b then 1 else 0)
  | .int n => some n
  | .float q => some q
  | _ => none

/-- The operand of an ordering comparison with a number: anything that
is not a number raises `TypeError`. -/
def Json.num (v : Json) : Except PyError Rat :=
  match v.num? with
  | some q => .ok q
  | none => .error .typeError

/-- The value is a number, so that it can be compared with one. -/
def Json.isNumber (v : Json) : Bool := v.num?.isSome

/-- `x + v` for a float `x`: an `int` that rounds to no float raises
`OverflowError`. -/
def Json.addTo (x : Rat) (v : Json) : Except PyError Rat :=
  match v with
  | .int n =>
      if n.natAbs < 2 ^ 1024 - 2 ^ 970 then .ok (x + n) else .error .overflowError
  | _ => v.num.map (x + ·)

/-- The JSON number for a numeric attribute of an object. -/
def Json.ofRat (q : Rat) : Json :=
  if q.den = 1 then .int q.num else .float q

@[simp] theorem num?_ofRat (q : Rat) : (Json.ofRat q).num? = some q := by
  unfold Json.ofRat
  split
  · next h => simp [Json.num?, Rat.coe_int_num_of_den_eq_one h]
  · rfl

@[simp] theorem num_ofRat (q : Rat) : (Json.ofRat q).num = .ok q := by
  simp [Json.num]

theorem num_eq_ok {v : Json} {q : Rat} (h : v.num = .ok q) : v.num? = some q := by
  unfold Json.num at h
  split at h
  · next hq => cases h; exact hq
  · cases h

theorem num_of_num? {v : Json} {q : Rat} (h : v.num? = some q) : v.num = .ok q := by
  simp [Json.num, h]

theorem num_eq_error {v : Json} (h : v.num? = none) : v.num = .error .typeError := by
  simp [Json.num, h]

theorem isNumber_iff {v : Json} : v.isNumber = true ↔ ∃ q, v.num = .ok q := by
  unfold Json.isNumber Json.num
  cases v.num? <;> simp

/-- What can be added to a float is a number. -/
theorem isNumber_of_addTo {v : Json} {x y : Rat} (h : v.addTo x = .ok y) : v.isNumber = true := by
  cases v <;> first | rfl | cases h

/-! ## Equality

Python's `==` compares numbers by value across `bool`, `int` and
`float`, lists elementwise and dicts without regard to order. -/

mutual
/-- `a == b`. -/
def Json.pyEq : Json → Json → Bool
  | .null, .null => true
  | .str s, .str t => s == t
  | .arr xs, .arr ys => Json.pyEqAll xs ys
  | .obj d, .obj e => d.length == e.length && Json.pyEqFields d e
  | .bool a, b => b.num? == some (if a then 1 else 0)
  | .int n, b => b.num? == some (n : Rat)
  | .float q, b => b.num? == some q
  | _, _ => false

def Json.pyEqAll : List Json → List Json → Bool
  | [], [] => true
  | x :: xs, y :: ys => x.pyEq y && Json.pyEqAll xs ys
  | _, _ => false

def Json.pyEqFields : List (String × Json) → List (String × Json) → Bool
  | [], _ => true
  | (k, v) :: rest, e =>
      (match e.lookup k with
        | some w => v.pyEq w
        | none => false) && Json.pyEqFields rest e
end

instance : BEq Json := ⟨Json.pyEq⟩

/-- `v in vs` on a list. -/
def Json.isIn (v : Json) (vs : List Json) : Bool := vs.any (fun w => w.pyEq v)

/-- Only a string equals a string, and only itself. -/
theorem pyEq_str_right {v : Json} {s : String} : v.pyEq (.str s) = true ↔ v = .str s := by
  cases v <;> simp [Json.pyEq, Json.num?]

theorem pyEq_str_left {v : Json} {s : String} : (Json.str s).pyEq v = true ↔ v = .str s := by
  cases v with
  | str t =>
    simp only [Json.pyEq, beq_iff_eq, Json.str.injEq]
    exact eq_comm
  | _ => simp [Json.pyEq]

@[simp] theorem pyEq_str_str (s t : String) : (Json.str s).pyEq (.str t) = (s == t) := by
  simp [Json.pyEq]

@[simp] theorem pyEq_bool_bool (a b : Bool) : (Json.bool a).pyEq (.bool b) = (a == b) := by
  cases a <;> cases b <;> simp [Json.pyEq, Json.num?]

theorem not_mem_of_isIn_str {vs : List Json} {s : String}
    (h : Json.isIn (.str s) vs = false) : Json.str s ∉ vs := by
  intro hmem
  have hin : Json.isIn (.str s) vs = true :=
    List.any_eq_true.mpr ⟨_, hmem, by simp⟩
  rw [h] at hin
  cases hin

end SyncSystem.Python
