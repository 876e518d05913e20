/-
SyncSystem.Python.JsonText — `json.dumps` with its default arguments.

What one node sends another is `json.dumps(request).encode()`. A text
that `dumps` writes keeps every scan for brackets and string literals
(`keeps_text`): it opens and closes its own brackets and quotes, and
those inside a string are escaped. So the text of a dict is balanced,
and no shorter beginning of it is (`not_balanced_of_prefix_dumps`).

The shortest digits of a float are a parameter, of which only the
characters are known. Left out: a number of more than 4300 digits, which
Python refuses to write.
-/
import SyncSystem.Python.Json
import SyncSystem.Text.Nesting

namespace SyncSystem.Python

open SyncSystem.Text

/-! ## Strings -/

/-- `'\\u{0:04x}'.format(n)`. -/
def unicodeEscape (n : Nat) : List Char :=
  [backslash, 'u'] ++ [n / 4096 % 16, n / 256 % 16, n / 16 % 16, n % 16].map Nat.digitChar

/-- `py_encode_basestring_ascii` on one character: outside the printable
ASCII characters it is an escape, of two units from 0x10000 on. -/
def escapeChar (c : Char) : List Char :=
  if c = quote ∨ c = backslash then [backslash, c]
  else if c = '\n' then [backslash, 'n']
  else if c = '\r' then [backslash, 'r']
  else if c = '\t' then [backslash, 't']
  else if c = '\x0c' then [backslash, 'f']
  else if c = '\x08' then [backslash, 'b']
  else if ' ' ≤ c ∧ c ≤ '~' then [c]
  else if c.toNat < 0x10000 then unicodeEscape c.toNat
  else
    let n := c.toNat - 0x10000
    unicodeEscape (0xd800 + n / 1024 % 1024) ++ unicodeEscape (0xdc00 + n % 1024)

def stringText (s : String) : List Char :=
  quote :: (s.toList.flatMap escapeChar ++ [quote])

/-! ## Values -/

section

variable (floatRepr : Rat → String)

mutual
/-- `json.dumps(v)`, as a list of characters. -/
def Json.text : Json → List Char
  | .null => "null".toList
  | .bool true => "true".toList
  | .bool false => "false".toList
  | .int n => n.repr.toList
  | .float q => (floatRepr q).toList
  | .str s => stringText s
  | .arr xs => openBracket :: ([',', ' '].intercalate (Json.texts xs) ++ [closeBracket])
  | .obj fields => openBrace :: ([',', ' '].intercalate (Json.pairTexts fields) ++ [closeBrace])

def Json.texts : List Json → List (List Char)
  | [] => []
  | x :: xs => x.text :: Json.texts xs

def Json.pairTexts : List (String × Json) → List (List Char)
  | [] => []
  | (k, v) :: rest => (stringText k ++ [':', ' '] ++ v.text) :: Json.pairTexts rest
end

/-- `json.dumps(v)`. -/
def dumps (v : Json) : String := String.ofList (v.text floatRepr)

end

/-! ## What is written keeps the scan -/

/-- `repr` of a finite float is made of digits and these four. -/
def FloatText (floatRepr : Rat → String) : Prop :=
  ∀ q, ∀ c ∈ (floatRepr q).toList, c.isDigit ∨ c ∈ ['+', '-', '.', 'e']

theorem isPlain_of_isDigit {c : Char} (h : c.isDigit = true) : IsPlain c where
  ne_quote := by rintro rfl; exact absurd h (by decide)
  not_opening := by rintro (rfl | rfl) <;> exact absurd h (by decide)
  not_closing := by rintro (rfl | rfl) <;> exact absurd h (by decide)

theorem digitChar_literal : ∀ d < 16, Nat.digitChar d ≠ quote ∧ Nat.digitChar d ≠ backslash := by
  decide

theorem keeps_unicodeEscape (n : Nat) : Keeps .inside (unicodeEscape n) := by
  refine (Keeps.escape 'u').append (.literal fun c hc => ?_)
  obtain ⟨d, hd, rfl⟩ := List.mem_map.mp hc
  apply digitChar_literal
  simp only [List.mem_cons, List.not_mem_nil, or_false] at hd
  omega

theorem keeps_escapeChar (c : Char) : Keeps .inside (escapeChar c) := by
  unfold escapeChar
  split
  · exact .escape c
  · next hc =>
    iterate 5 split; exact .escape _
    split
    · refine .literal fun x hx => ?_
      rw [List.mem_singleton.mp hx]
      exact not_or.mp hc
    · split
      · exact keeps_unicodeEscape _
      · exact (keeps_unicodeEscape _).append (keeps_unicodeEscape _)

theorem keeps_stringText (s : String) : Keeps .outside (stringText s) :=
  .quoted (.flatMap fun c _ => keeps_escapeChar c)

theorem keeps_natRepr (n : Nat) : Keeps .outside n.repr.toList := by
  refine .plain fun c hc => isPlain_of_isDigit ?_
  rw [Nat.toList_repr] at hc
  exact Nat.isDigit_of_mem_toDigits (by decide) (by decide) hc

theorem keeps_intRepr (n : Int) : Keeps .outside n.repr.toList := by
  cases n with
  | ofNat n => exact keeps_natRepr n
  | negSucc n =>
    rw [Int.repr, String.toList_append]
    exact (Keeps.word (by decide)).append (keeps_natRepr n.succ)

variable {floatRepr : Rat → String}

theorem keeps_floatRepr (h : FloatText floatRepr) (q : Rat) :
    Keeps .outside (floatRepr q).toList := by
  refine .plain fun c hc => ?_
  rcases h q c hc with hd | hc
  · exact isPlain_of_isDigit hd
  · have hall : ['+', '-', '.', 'e'].all (fun c => IsPlain c) = true := by decide
    exact of_decide_eq_true (List.all_eq_true.mp hall c hc)

mutual
theorem keeps_text (h : FloatText floatRepr) : ∀ v : Json, Keeps .outside (v.text floatRepr)
  | .null => show Keeps .outside "null".toList from .word (by decide)
  | .bool true => show Keeps .outside "true".toList from .word (by decide)
  | .bool false => show Keeps .outside "false".toList from .word (by decide)
  | .int n => keeps_intRepr n
  | .float q => keeps_floatRepr h q
  | .str s => keeps_stringText s
  | .arr xs =>
      .bracketed (.inl rfl) (.inl rfl) (.intercalate (.word (by decide)) (keeps_texts h xs))
  | .obj fields =>
      .bracketed (.inr rfl) (.inr rfl) (.intercalate (.word (by decide)) (keeps_pairTexts h fields))

theorem keeps_texts (h : FloatText floatRepr) :
    ∀ xs : List Json, ∀ t ∈ Json.texts floatRepr xs, Keeps .outside t
  | [] => fun _ ht => nomatch ht
  | x :: xs => List.forall_mem_cons.mpr ⟨keeps_text h x, keeps_texts h xs⟩

theorem keeps_pairTexts (h : FloatText floatRepr) :
    ∀ fields : List (String × Json), ∀ t ∈ Json.pairTexts floatRepr fields, Keeps .outside t
  | [] => fun _ ht => nomatch ht
  | (k, v) :: rest =>
      List.forall_mem_cons.mpr
        ⟨((keeps_stringText k).append (.word (by decide))).append (keeps_text h v),
          keeps_pairTexts h rest⟩
end

/-- What `dumps` writes for a dict is not balanced when it is cut short. -/
theorem not_balanced_of_prefix_dumps (h : FloatText floatRepr) {d : Obj} {t : String}
    (hp : t.toList <+: (dumps floatRepr (.obj d)).toList) (hne : t ≠ "")
    (hcut : t ≠ dumps floatRepr (.obj d)) : ¬ Balanced t.toList := by
  have hinner : Keeps .outside ([',', ' '].intercalate (Json.pairTexts floatRepr d)) :=
    .intercalate (.word (by decide)) (keeps_pairTexts h d)
  have htext : (dumps floatRepr (.obj d)).toList =
      openBrace :: ([',', ' '].intercalate (Json.pairTexts floatRepr d) ++ [closeBrace]) := by
    rw [dumps, String.toList_ofList, Json.text]
  apply not_balanced_of_prefix (.inr rfl) hinner
  · rwa [← htext]
  · rwa [Ne, String.toList_eq_nil_iff]
  · rwa [← htext, Ne, String.toList_inj]

example : dumps (fun _ => "1.5") (.obj [("a", .arr [.int (-7), .float 1.5, .null]),
    ("\n", .str "\x22é")]) =
    "\x7b\x22a\x22: [-7, 1.5, null], \x22\\n\x22: \x22\\\x22\\u00e9\x22\x7d" := by decide

end SyncSystem.Python
