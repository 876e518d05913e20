/-
SyncSystem.Python.IntText — `int(text)` of a str.

CPython first makes the text ASCII (`toAscii`): a decimal digit of any
script becomes the digit it stands for, and a white space outside ASCII a
blank. Then blanks go at both ends, a sign may come, and digits follow, with
single underscores between them. Anything else raises `ValueError`.

The digits and the white space are those of Unicode 14. Left out: the limit
of 4300 digits, which no port comes near.
-/
import Mathlib.Data.Nat.Digits.Defs

namespace SyncSystem.Python

/-- The zeros of the decimal digits; the nine others come after each. -/
def decimalZeros : List Nat :=
  [0x30, 0x660, 0x6f0, 0x7c0, 0x966, 0x9e6, 0xa66, 0xae6, 0xb66, 0xbe6, 0xc66, 0xce6, 0xd66, 0xde6,
   0xe50, 0xed0, 0xf20, 0x1040, 0x1090, 0x17e0, 0x1810, 0x1946, 0x19d0, 0x1a80, 0x1a90, 0x1b50,
   0x1bb0, 0x1c40, 0x1c50, 0xa620, 0xa8d0, 0xa900, 0xa9d0, 0xa9f0, 0xaa50, 0xabf0, 0xff10, 0x104a0,
   0x10d30, 0x11066, 0x110f0, 0x11136, 0x111d0, 0x112f0, 0x11450, 0x114d0, 0x11650, 0x116c0,
   0x11730, 0x118e0, 0x11950, 0x11c50, 0x11d50, 0x11da0, 0x16a60, 0x16ac0, 0x16b50, 0x1d7ce,
   0x1d7d8, 0x1d7e2, 0x1d7ec, 0x1d7f6, 0x1e140, 0x1e2f0, 0x1e950, 0x1fbf0]

/-- White space outside ASCII. -/
def wideSpaces : List Nat :=
  [0x85, 0xa0, 0x1680, 0x2000, 0x2001, 0x2002, 0x2003, 0x2004, 0x2005, 0x2006, 0x2007, 0x2008,
   0x2009, 0x200a, 0x2028, 0x2029, 0x202f, 0x205f, 0x3000]

/-- `Py_UNICODE_TODECIMAL`. -/
def decimalValue? (c : Char) : Option Nat :=
  (decimalZeros.find? fun first => first ≤ c.toNat && c.toNat < first + 10).map (c.toNat - ·)

/-- `_PyUnicode_TransformDecimalAndSpaceToASCII`, on one character. -/
def toAscii (c : Char) : Char :=
  if c.toNat < 127 then c
  else if c.toNat ∈ wideSpaces then ' '
  else ((decimalValue? c).map Nat.digitChar).getD '?'

/-- `Py_ISSPACE`. -/
def isBlank (c : Char) : Bool := c = ' ' || (9 ≤ c.toNat && c.toNat ≤ 13)

/-- `strip` of the blanks. -/
def stripBlanks (cs : List Char) : List Char :=
  ((cs.dropWhile isBlank).reverse.dropWhile isBlank).reverse

/-- The digits of `\d+(_\d+)*`; `after` is whether a digit has just been
read. -/
def plainDigits? (after : Bool) : List Char → Option (List Char)
  | [] => if after then some [] else none
  | c :: rest =>
      if c.isDigit then (plainDigits? true rest).map (c :: ·)
      else if c = '_' ∧ after = true then plainDigits? false rest
      else none

def numeral? (cs : List Char) : Option Nat :=
  (plainDigits? false cs).map fun ds => Nat.ofDigitChars 10 ds 0

/-- `int(text)`; `none` where it raises. -/
def intOf? (text : List Char) : Option Int :=
  match stripBlanks (text.map toAscii) with
  | '+' :: rest => (numeral? rest).map Int.ofNat
  | '-' :: rest => (numeral? rest).map fun n => -Int.ofNat n
  | cs => (numeral? cs).map Int.ofNat

/-! ## Decimal numerals -/

theorem toNat_of_isDigit {c : Char} (h : c.isDigit = true) : 48 ≤ c.toNat ∧ c.toNat ≤ 57 := by
  simp only [Char.isDigit, Bool.and_eq_true, decide_eq_true_eq, ge_iff_le] at h
  exact h

theorem plainDigits?_digits {ds : List Char} (h : ∀ c ∈ ds, c.isDigit = true) {after : Bool}
    (hne : after = true ∨ ds ≠ []) : plainDigits? after ds = some ds := by
  induction ds generalizing after with
  | nil => simp_all [plainDigits?]
  | cons c rest ih =>
    have hc := h c List.mem_cons_self
    have hrest := ih (fun d hd => h d (List.mem_cons_of_mem c hd)) (.inl rfl)
    simp [plainDigits?, hc, hrest]

theorem stripBlanks_digits {ds : List Char} (h : ∀ c ∈ ds, c.isDigit = true) :
    stripBlanks ds = ds := by
  have hkeeps : ∀ cs : List Char, (∀ c ∈ cs, c.isDigit = true) → cs.dropWhile isBlank = cs := by
    intro cs hcs
    cases cs with
    | nil => rfl
    | cons c rest =>
      have hdigit := toNat_of_isDigit (hcs c List.mem_cons_self)
      have hblank : isBlank c = false := by
        have hspace : c ≠ ' ' := by rintro rfl; exact absurd hdigit (by decide)
        simp [isBlank, hspace]
        omega
      simp [hblank]
  rw [stripBlanks, hkeeps ds h, hkeeps _ (by simpa using h), List.reverse_reverse]

/-- What `repr` writes of a number, `int` reads back. -/
theorem intOf?_toDigits (n : Nat) : intOf? (Nat.toDigits 10 n) = some (n : Int) := by
  have hdigit : ∀ c ∈ Nat.toDigits 10 n, c.isDigit = true :=
    fun c hc => Nat.isDigit_of_mem_toDigits (by decide) (by decide) hc
  have hascii : (Nat.toDigits 10 n).map toAscii = Nat.toDigits 10 n := by
    refine (List.map_congr_left ?_).trans (List.map_id _)
    intro c hc
    have hrange := toNat_of_isDigit (hdigit c hc)
    exact if_pos (by omega)
  have hnumeral : numeral? (Nat.toDigits 10 n) = some n := by
    simp [numeral?, plainDigits?_digits hdigit (.inr Nat.toDigits_ne_nil),
      Nat.ofDigitChars_toDigits]
  rw [intOf?, hascii, stripBlanks_digits hdigit]
  split
  · next rest heq => exact absurd (hdigit '+' (heq ▸ List.mem_cons_self)) (by decide)
  · next rest heq => exact absurd (hdigit '-' (heq ▸ List.mem_cons_self)) (by decide)
  · simp [hnumeral]

example : intOf? " ８0_02\x0b".toList = some 8002 ∧ intOf? "80__02".toList = none ∧
    intOf? "-5".toList = some (-5) := by decide +kernel

end SyncSystem.Python
