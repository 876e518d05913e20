/-
SyncSystem.Python.JsonRoundTrip — `json.loads` reads what `json.dumps`
writes.

For a value whose dicts have different keys, as Python's do, and whose
floats are numbers that `float` reads back from their `repr`
(`Json.Readable`), `loads (dumps v) = v` (`loads_dumps`). What is left of
the text after a value must not go on with a number (`NumberEnd`), which
a comma, a closing bracket and the end of the text do not.
-/
import SyncSystem.Python.JsonLoads

namespace SyncSystem.Python

open SyncSystem.Text

/-! ## Strings -/

/-- The numbers that the literal of a character has. -/
def charUnits (c : Char) : List Nat :=
  if c.toNat < 0x10000 then [c.toNat]
  else [0xd800 + (c.toNat - 0x10000) / 1024 % 1024, 0xdc00 + (c.toNat - 0x10000) % 1024]

theorem hexValue_digitChar : ∀ d < 16, hexValue (Nat.digitChar d) = some d := by decide

theorem scanUnits_unicodeEscape {n : Nat} (hn : n < 0x10000) (rest : List Char) :
    scanUnits (unicodeEscape n ++ rest) = (scanUnits rest).map fun p => (n :: p.1, p.2) := by
  have hvalue : hexValue4 (Nat.digitChar (n / 4096 % 16)) (Nat.digitChar (n / 256 % 16))
      (Nat.digitChar (n / 16 % 16)) (Nat.digitChar (n % 16)) = some n := by
    rw [hexValue4, hexValue_digitChar _ (by omega), hexValue_digitChar _ (by omega),
      hexValue_digitChar _ (by omega), hexValue_digitChar _ (by omega)]
    show some _ = some n
    congr 1
    omega
  show scanUnits (backslash :: 'u' :: _ :: _ :: _ :: _ :: rest) = _
  rw [scanUnits]
  simp only [hvalue]
  rw [if_neg (by decide), if_pos trivial]

theorem scanUnits_simpleEscape {e x : Char} (hx : simpleEscape e = some x) (rest : List Char) :
    scanUnits (backslash :: e :: rest) = (scanUnits rest).map fun p => (x.toNat :: p.1, p.2) := by
  have hu : e ≠ 'u' := by
    intro heq
    rw [heq] at hx
    exact absurd hx (by simp [simpleEscape, quote, backslash])
  rw [scanUnits, if_neg (by decide), if_pos rfl, hx]
  intro _ _ _ _ _ heq
  exact absurd heq hu

/-- A character that stands for itself. -/
theorem scanUnits_literal {c : Char} (hq : c ≠ quote) (hb : c ≠ backslash) (hc : ¬ c < ' ')
    (rest : List Char) :
    scanUnits (c :: rest) = (scanUnits rest).map fun p => (c.toNat :: p.1, p.2) := by
  rw [scanUnits.eq_def]
  simp only [if_neg hq, if_neg hb, if_neg hc]

theorem scanUnits_escapeChar (c : Char) (rest : List Char) :
    scanUnits (escapeChar c ++ rest) =
      (scanUnits rest).map fun p => (charUnits c ++ p.1, p.2) := by
  have hsimple : ∀ {e x : Char}, simpleEscape e = some x → x.toNat < 0x10000 →
      scanUnits ([backslash, e] ++ rest) =
        (scanUnits rest).map fun p => (charUnits x ++ p.1, p.2) := by
    intro e x hx hsmall
    simp only [charUnits, if_pos hsmall]
    exact scanUnits_simpleEscape hx rest
  unfold escapeChar
  split
  · next hc =>
    rcases hc with rfl | rfl
    · exact hsimple (by decide) (by decide)
    · exact hsimple (by decide) (by decide)
  · next hc =>
    split
    · next h => subst h; exact hsimple (by decide) (by decide)
    split
    · next h => subst h; exact hsimple (by decide) (by decide)
    split
    · next h => subst h; exact hsimple (by decide) (by decide)
    split
    · next h => subst h; exact hsimple (by decide) (by decide)
    split
    · next h => subst h; exact hsimple (by decide) (by decide)
    split
    · next hplain =>
      have hsmall : c.toNat < 0x10000 := by
        have hle : c.toNat ≤ '~'.toNat := hplain.2
        have hmax : '~'.toNat = 126 := by decide
        omega
      obtain ⟨hq, hb⟩ := not_or.mp hc
      simp only [charUnits, if_pos hsmall]
      exact scanUnits_literal hq hb (Char.not_lt.mpr hplain.1) rest
    · split
      · next hsmall =>
        simp only [charUnits, if_pos hsmall]
        exact scanUnits_unicodeEscape hsmall rest
      · next hlarge =>
        simp only [charUnits, if_neg hlarge]
        rw [List.append_assoc, scanUnits_unicodeEscape (by omega),
          scanUnits_unicodeEscape (by omega), Option.map_map]
        rfl

theorem scanUnits_flatMap (cs rest : List Char) :
    scanUnits (cs.flatMap escapeChar ++ quote :: rest) = some (cs.flatMap charUnits, rest) := by
  induction cs with
  | nil =>
    show scanUnits (quote :: rest) = _
    rw [scanUnits.eq_def]
    simp only [if_true, List.flatMap_nil]
  | cons c cs ih =>
    rw [List.flatMap_cons, List.append_assoc, scanUnits_escapeChar, ih]
    rfl

/-- No character is a surrogate. -/
theorem not_isSurrogate (c : Char) : isSurrogate c.toNat = false := by
  have hvalid := c.valid
  simp only [UInt32.isValidChar, Nat.isValidChar] at hvalid
  have hnat : c.toNat = c.val.toNat := rfl
  simp only [isSurrogate, Bool.and_eq_false_iff, decide_eq_false_iff_not]
  omega

theorem toNat_lt (c : Char) : c.toNat < 0x110000 := by
  have hvalid := c.valid
  simp only [UInt32.isValidChar, Nat.isValidChar] at hvalid
  have hnat : c.toNat = c.val.toNat := rfl
  omega

theorem joinUnits_charUnits (c : Char) (us : List Nat) :
    joinUnits (charUnits c ++ us) = (joinUnits us).map (c :: ·) := by
  unfold charUnits
  split
  · rw [List.singleton_append, joinUnits.eq_def]
    simp only [not_isSurrogate, Bool.false_eq_true, if_false, Char.ofNat_toNat]
  · next hlarge =>
    have hlt := toNat_lt c
    show joinUnits ((0xd800 + (c.toNat - 0x10000) / 1024 % 1024) ::
      (0xdc00 + (c.toNat - 0x10000) % 1024) :: us) = _
    have hhigh : isSurrogate (0xd800 + (c.toNat - 0x10000) / 1024 % 1024) = true := by
      simp only [isSurrogate, Bool.and_eq_true, decide_eq_true_eq]
      omega
    have hjoined : 0x10000 + (0xd800 + (c.toNat - 0x10000) / 1024 % 1024 - 0xd800) * 1024 +
        (0xdc00 + (c.toNat - 0x10000) % 1024 - 0xdc00) = c.toNat := by
      omega
    rw [joinUnits, if_pos hhigh]
    simp only [hjoined, Char.ofNat_toNat]
    rw [if_pos ⟨by omega, by omega, by omega⟩]

theorem joinUnits_flatMap (cs : List Char) : joinUnits (cs.flatMap charUnits) = some cs := by
  induction cs with
  | nil => rfl
  | cons c cs ih =>
    rw [List.flatMap_cons, joinUnits_charUnits, ih]
    rfl

/-- A string literal is read back. -/
theorem scanString_text (s : String) (rest : List Char) :
    scanString (s.toList.flatMap escapeChar ++ quote :: rest) = some (s, rest) := by
  simp [scanString, scanUnits_flatMap, joinUnits_flatMap]

/-! ## Numbers -/

/-- What comes next does not belong to a number. -/
def NumberEnd (rest : List Char) : Prop :=
  ∀ c ∈ rest.head?, c.isDigit = false ∧ c ≠ '.' ∧ c ≠ 'e' ∧ c ≠ 'E'

theorem NumberEnd.cons {c : Char} (hc : c.isDigit = false ∧ c ≠ '.' ∧ c ≠ 'e' ∧ c ≠ 'E')
    (rest : List Char) : NumberEnd (c :: rest) := by
  intro d hd
  rw [← Option.some.inj hd]
  exact hc

theorem dropWhile_digits {ds rest : List Char} (hds : ∀ c ∈ ds, c.isDigit = true)
    (hrest : NumberEnd rest) :
    (ds ++ rest).takeWhile Char.isDigit = ds ∧ (ds ++ rest).dropWhile Char.isDigit = rest := by
  have hstop : rest.takeWhile Char.isDigit = [] ∧ rest.dropWhile Char.isDigit = rest := by
    cases rest with
    | nil => exact ⟨rfl, rfl⟩
    | cons c cs =>
      have hc := (hrest c rfl).1
      simp [hc]
  rw [List.takeWhile_append_of_pos hds, List.dropWhile_append_of_pos hds, hstop.1, hstop.2]
  exact ⟨List.append_nil ds, rfl⟩

/-- A decimal numeral begins with `0` only if that is all of it. -/
theorem toDigits_head (n : Nat) : ∃ d ds, Nat.toDigits 10 n = d :: ds ∧ d.isDigit = true ∧
    (∀ c ∈ ds, c.isDigit = true) ∧ (d = '0' → ds = []) := by
  have hdigits : ∀ c ∈ Nat.toDigits 10 n, c.isDigit = true :=
    fun c hc => Nat.isDigit_of_mem_toDigits (by decide) (by decide) hc
  have hzero : ∀ m, (∃ ds, Nat.toDigits 10 m = '0' :: ds) → m = 0 := by
    intro m
    induction m using Nat.strongRecOn with
    | ind m ih =>
      intro h
      obtain ⟨ds, h⟩ := h
      by_cases hm : m < 10
      · rw [Nat.toDigits_of_lt_base hm] at h
        have hall : ∀ k < 10, Nat.digitChar k = '0' → k = 0 := by decide
        exact hall m hm (List.cons.inj h).1
      · rw [Nat.toDigits_of_base_le (by decide) (by omega)] at h
        cases hq : Nat.toDigits 10 (m / 10) with
        | nil => exact absurd hq Nat.toDigits_ne_nil
        | cons c cs =>
          rw [hq] at h
          have hc := (List.cons.inj h).1
          have hless := ih (m / 10) (by omega) ⟨cs, by rw [hq, hc]⟩
          omega
  cases h : Nat.toDigits 10 n with
  | nil => exact absurd h Nat.toDigits_ne_nil
  | cons d ds =>
    rw [h] at hdigits
    refine ⟨d, ds, rfl, hdigits d List.mem_cons_self,
      fun c hc => hdigits c (List.mem_cons_of_mem d hc), ?_⟩
    rintro rfl
    have hn := hzero n ⟨ds, h⟩
    rw [hn] at h
    exact (List.cons.inj h).2.symm

theorem scanInteger_toDigits (n : Nat) {rest : List Char} (hrest : NumberEnd rest) :
    scanInteger (Nat.toDigits 10 n ++ rest) = some (Nat.toDigits 10 n, rest) := by
  obtain ⟨d, ds, heq, hd, hds, hzero⟩ := toDigits_head n
  rw [heq, List.cons_append, scanInteger]
  split
  · next h =>
    rw [hzero h]
    rfl
  · obtain ⟨htake, hdrop⟩ := dropWhile_digits hds hrest
    rw [htake, hdrop]

theorem scanFraction_end {rest : List Char} (h : NumberEnd rest) :
    scanFraction rest = ([], rest) := by
  unfold scanFraction
  split
  · exact absurd rfl (h '.' rfl).2.1
  · rfl

theorem scanExponent_end {rest : List Char} (h : NumberEnd rest) :
    scanExponent rest = ([], rest) := by
  unfold scanExponent
  split
  · next e cs =>
    obtain ⟨_, _, he, hE⟩ := h e rfl
    rw [if_neg (not_or.mpr ⟨he, hE⟩)]
  · rfl

theorem scanMinus_digit {c : Char} (hc : c.isDigit = true) (cs : List Char) :
    scanMinus (c :: cs) = ([], c :: cs) := by
  unfold scanMinus
  split
  · next h =>
    cases h
    exact absurd hc (by decide)
  · rfl

/-- An integer is read back. -/
theorem scanNumber_int (floatOf : List Char → Rat) (n : Int) {rest : List Char}
    (hrest : NumberEnd rest) :
    scanNumber floatOf (n.repr.toList ++ rest) = some (.int n, rest) := by
  cases n with
  | ofNat n =>
    obtain ⟨d, ds, heq, hd, _, _⟩ := toDigits_head n
    have htext : (Int.ofNat n).repr.toList = Nat.toDigits 10 n := Nat.toList_repr
    have hminus : scanMinus (Nat.toDigits 10 n ++ rest) = ([], Nat.toDigits 10 n ++ rest) := by
      rw [heq]
      exact scanMinus_digit hd _
    rw [htext, scanNumber, hminus]
    simp only [scanInteger_toDigits n hrest, scanFraction_end hrest, scanExponent_end hrest,
      and_self, if_true]
    rw [Nat.ofDigitChars_toDigits (by decide) (by decide)]
    rfl
  | negSucc n =>
    have htext : (Int.negSucc n).repr.toList = '-' :: Nat.toDigits 10 (n + 1) := by
      rw [Int.repr, String.toList_append, Nat.toList_repr]
      rfl
    rw [htext, List.cons_append, scanNumber]
    simp only [scanMinus, scanInteger_toDigits (n + 1) hrest, scanFraction_end hrest,
      scanExponent_end hrest, and_self, if_true]
    rw [Nat.ofDigitChars_toDigits (by decide) (by decide)]
    rfl

/-- A number begins with a digit or a minus. -/
theorem head_of_scanNumber {floatOf : List Char → Rat} {cs rest : List Char} {v : Json}
    (h : scanNumber floatOf cs = some (v, rest)) :
    ∃ c tail, cs = c :: tail ∧ (c = '-' ∨ c.isDigit = true) := by
  cases cs with
  | nil => simp [scanNumber, scanMinus, scanInteger] at h
  | cons c tail =>
    refine ⟨c, tail, rfl, ?_⟩
    by_contra hne
    obtain ⟨hminus, hdigit⟩ := not_or.mp hne
    have hhere : scanMinus (c :: tail) = ([], c :: tail) := by
      unfold scanMinus
      split
      · next heq => exact absurd (List.cons.inj heq).1 hminus
      · rfl
    have hzero : c ≠ '0' := by
      rintro rfl
      exact hdigit (by decide)
    rw [scanNumber, hhere] at h
    simp [scanInteger, hzero, hdigit] at h

/-! ## Values -/

section

variable (floatRepr : Rat → String) (floatOf : List Char → Rat)

/-- The `repr` of the float is a literal with a fraction or an exponent,
and `float` of it is the number. -/
def ReadsFloat (q : Rat) : Prop :=
  ∀ rest, NumberEnd rest →
    scanNumber floatOf ((floatRepr q).toList ++ rest) = some (.float q, rest)

mutual
/-- The floats in the value are read back, and the keys of a dict are
different. -/
def Json.Readable : Json → Prop
  | .float q => ReadsFloat floatRepr floatOf q
  | .arr xs => Json.AllReadable xs
  | .obj fields => (fields.map Prod.fst).Nodup ∧ Json.FieldsReadable fields
  | _ => True

def Json.AllReadable : List Json → Prop
  | [] => True
  | x :: xs => x.Readable ∧ Json.AllReadable xs

def Json.FieldsReadable : List (String × Json) → Prop
  | [] => True
  | (_, v) :: rest => v.Readable ∧ Json.FieldsReadable rest
end

end

variable {floatRepr : Rat → String} {floatOf : List Char → Rat}

/-- Assigning different keys one after the other. -/
theorem dictOf_of_nodup {pairs : List (String × Json)} (h : (pairs.map Prod.fst).Nodup) :
    dictOf pairs = pairs := by
  have hfold : ∀ (ps done : List (String × Json)), ((done ++ ps).map Prod.fst).Nodup →
      ps.foldl (fun d p => setEntry p.1 p.2 d) done = done ++ ps := by
    intro ps
    induction ps with
    | nil => simp
    | cons p ps ih =>
      intro done hnodup
      have hnew : ∀ e ∈ done, (e.1 == p.1) = false := by
        intro e he
        rw [List.map_append, List.map_cons] at hnodup
        have hne := (List.nodup_append.mp hnodup).2.2 e.1 (List.mem_map_of_mem he) p.1
          List.mem_cons_self
        simpa using hne
      rw [List.foldl_cons, Dict.setEntry_of_forall hnew, ih _ (by simpa using hnodup)]
      simp
  exact hfold pairs [] (by simpa using h)

/-! ### White space and delimiters -/

theorem skipSpace_cons {c : Char} (hc : isSpace c = false) (cs : List Char) :
    skipSpace (c :: cs) = c :: cs := by
  simp [skipSpace, hc]

theorem skipSpace_space (cs : List Char) : skipSpace (' ' :: cs) = skipSpace cs := by
  simp [skipSpace, isSpace]

theorem expect_cons {c : Char} (hc : isSpace c = false) (cs : List Char) :
    expect c (c :: cs) = some cs := by
  simp [expect, skipSpace_cons hc]

theorem expect_ne {c d : Char} (hd : isSpace d = false) (hne : d ≠ c) (cs : List Char) :
    expect c (d :: cs) = none := by
  simp [expect, skipSpace_cons hd, hne]

theorem expect_space (c : Char) (cs : List Char) : expect c (' ' :: cs) = expect c cs := by
  simp [expect, skipSpace_space]

/-! ### What a text begins with -/

theorem numberHead {c : Char} (h : c = '-' ∨ c.isDigit = true) :
    isSpace c = false ∧ c ≠ closeBracket ∧ c ≠ quote ∧ c ≠ openBrace ∧ c ≠ openBracket ∧
      c ≠ 'n' ∧ c ≠ 't' ∧ c ≠ 'f' := by
  rcases h with rfl | hdigit
  · decide
  · refine ⟨?_, ?_, ?_, ?_, ?_, ?_, ?_, ?_⟩
    · by_contra hspace
      simp only [Bool.not_eq_false, isSpace, Bool.or_eq_true, decide_eq_true_eq] at hspace
      rcases hspace with ((rfl | rfl) | rfl) | rfl <;> exact absurd hdigit (by decide)
    all_goals
      rintro rfl
      exact absurd hdigit (by decide)

/-- A number is no string, no object, no array and no word. -/
theorem scanOnce_number {cs rest : List Char} {v : Json} (fuel : Nat)
    (h : scanNumber floatOf cs = some (v, rest)) :
    scanOnce floatOf (fuel + 1) cs = some (v, rest) := by
  obtain ⟨c, tail, rfl, hc⟩ := head_of_scanNumber h
  obtain ⟨_, _, hquote, hbrace, hbracket, hn, ht, hf⟩ := numberHead hc
  have hword : scanWord (c :: tail) = none := by
    unfold scanWord
    split
    · next heq => exact absurd (List.cons.inj heq).1 hn
    · next heq => exact absurd (List.cons.inj heq).1 ht
    · next heq => exact absurd (List.cons.inj heq).1 hf
    · rfl
  rw [scanOnce, if_neg hquote, if_neg hbrace, if_neg hbracket, hword, h]
  rfl

theorem numberEnd_nil : NumberEnd [] := by
  intro c hc
  cases hc

theorem text_head {v : Json} (hv : v.Readable floatRepr floatOf) :
    ∃ c cs, v.text floatRepr = c :: cs ∧ isSpace c = false ∧ c ≠ closeBracket := by
  have hnumber : ∀ {cs : List Char}, scanNumber floatOf (cs ++ []) = some (v, []) →
      ∃ c tail, cs = c :: tail ∧ isSpace c = false ∧ c ≠ closeBracket := by
    intro cs h
    rw [List.append_nil] at h
    obtain ⟨c, tail, rfl, hc⟩ := head_of_scanNumber h
    exact ⟨c, tail, rfl, (numberHead hc).1, (numberHead hc).2.1⟩
  cases v with
  | null => exact ⟨'n', ['u', 'l', 'l'], rfl, by decide⟩
  | bool b =>
    cases b with
    | true => exact ⟨'t', ['r', 'u', 'e'], rfl, by decide⟩
    | false => exact ⟨'f', ['a', 'l', 's', 'e'], rfl, by decide⟩
  | int n => exact hnumber (scanNumber_int floatOf n numberEnd_nil)
  | float q => exact hnumber (hv [] numberEnd_nil)
  | str s => exact ⟨quote, _, rfl, by decide⟩
  | arr xs => exact ⟨openBracket, _, by rw [Json.text], by decide⟩
  | obj fields => exact ⟨openBrace, _, by rw [Json.text], by decide⟩

theorem skipSpace_text {v : Json} (hv : v.Readable floatRepr floatOf) (rest : List Char) :
    skipSpace (v.text floatRepr ++ rest) = v.text floatRepr ++ rest := by
  obtain ⟨c, cs, heq, hc, _⟩ := text_head hv
  rw [heq]
  exact skipSpace_cons hc _

/-! ### The round trip -/

theorem pairTexts_cons (floatRepr : Rat → String) (k : String) (v : Json)
    (fields : List (String × Json)) :
    [',', ' '].intercalate (Json.pairTexts floatRepr ((k, v) :: fields)) =
      quote :: (k.toList.flatMap escapeChar ++ quote :: ':' :: ' ' :: (v.text floatRepr ++
        if fields = [] then []
        else ',' :: ' ' :: [',', ' '].intercalate (Json.pairTexts floatRepr fields))) := by
  cases fields with
  | nil => simp [Json.pairTexts, stringText]
  | cons f fs =>
    obtain ⟨k', v'⟩ := f
    rw [Json.pairTexts, Json.pairTexts, List.intercalate_cons_cons]
    simp [stringText]

theorem texts_cons (x y : Json) (xs : List Json) :
    [',', ' '].intercalate (Json.texts floatRepr (x :: y :: xs)) =
      x.text floatRepr ++
        ',' :: ' ' :: [',', ' '].intercalate (Json.texts floatRepr (y :: xs)) := by
  rw [Json.texts, Json.texts, List.intercalate_cons_cons, List.append_assoc]
  rfl

/-- The elements of an array begin with no space and no closing bracket. -/
theorem texts_head {x : Json} (hx : x.Readable floatRepr floatOf) (xs : List Json) :
    ∃ c cs, [',', ' '].intercalate (Json.texts floatRepr (x :: xs)) = c :: cs ∧
      isSpace c = false ∧ c ≠ closeBracket := by
  obtain ⟨c, cs, heq, hc, hne⟩ := text_head hx
  cases xs with
  | nil => exact ⟨c, cs, by rw [Json.texts, Json.texts, List.intercalate_singleton, heq], hc, hne⟩
  | cons y ys => exact ⟨c, _, by rw [texts_cons, heq]; rfl, hc, hne⟩

mutual
theorem scanOnce_text : ∀ (v : Json), v.Readable floatRepr floatOf → ∀ (fuel : Nat)
    (rest : List Char), (v.text floatRepr).length < fuel → NumberEnd rest →
      scanOnce floatOf fuel (v.text floatRepr ++ rest) = some (v, rest)
  | v, hv, 0, rest, hfuel, _ => absurd hfuel (Nat.not_lt_zero _)
  | .null, _, fuel + 1, rest, _, _ => rfl
  | .bool true, _, fuel + 1, rest, _, _ => rfl
  | .bool false, _, fuel + 1, rest, _, _ => rfl
  | .int n, _, fuel + 1, rest, _, hrest => scanOnce_number fuel (scanNumber_int floatOf n hrest)
  | .float q, hv, fuel + 1, rest, _, hrest => scanOnce_number fuel (hv rest hrest)
  | .str s, _, fuel + 1, rest, _, _ => by
      show scanOnce floatOf (fuel + 1)
        (quote :: ((s.toList.flatMap escapeChar ++ [quote]) ++ rest)) = _
      rw [scanOnce, if_pos rfl, List.append_assoc, List.singleton_append, scanString_text]
      rfl
  | .arr [], _, fuel + 1, rest, _, _ => by
      show scanOnce floatOf (fuel + 1) (openBracket :: closeBracket :: rest) = _
      rw [scanOnce, if_neg (by decide), if_neg (by decide), if_pos rfl, expect_cons (by decide)]
  | .arr (x :: xs), hv, fuel + 1, rest, hfuel, _ => by
      obtain ⟨c, cs, hhead, hc, hne⟩ := texts_head hv.1 xs
      have hlen : ([',', ' '].intercalate (Json.texts floatRepr (x :: xs))).length + 1 < fuel := by
        rw [Json.text] at hfuel
        simp only [List.length_cons, List.length_append, List.length_nil] at hfuel
        omega
      have helements := scanElements_texts (x :: xs) (List.cons_ne_nil x xs) hv fuel rest hlen
      rw [hhead, List.cons_append] at helements
      rw [Json.text, hhead, List.cons_append, List.cons_append, List.cons_append, List.append_assoc,
        List.singleton_append, scanOnce, if_neg (by decide), if_neg (by decide), if_pos rfl,
        expect_ne hc hne, skipSpace_cons hc, helements]
      rfl
  | .obj [], _, fuel + 1, rest, _, _ => by
      show scanOnce floatOf (fuel + 1) (openBrace :: closeBrace :: rest) = _
      rw [scanOnce, if_neg (by decide), if_pos rfl, expect_cons (by decide)]
  | .obj ((k, v) :: fields), hv, fuel + 1, rest, hfuel, _ => by
      have hhead := pairTexts_cons floatRepr k v fields
      generalize htail : k.toList.flatMap escapeChar ++ quote :: ':' :: ' ' :: (v.text floatRepr ++
        if fields = [] then []
        else ',' :: ' ' :: [',', ' '].intercalate (Json.pairTexts floatRepr fields)) = tail at hhead
      have hmembers := scanMembers_pairTexts ((k, v) :: fields) (List.cons_ne_nil _ _) hv.2 fuel
        (tail ++ closeBrace :: rest) rest (by rw [hhead]; rfl) (by
          rw [Json.text, hhead] at hfuel
          simp only [List.length_cons, List.length_append, List.length_nil] at hfuel ⊢
          omega)
      rw [Json.text, hhead, List.cons_append, List.cons_append, List.cons_append, List.append_assoc,
        List.singleton_append, scanOnce, if_neg (by decide), if_pos rfl,
        expect_ne (by decide) (by decide), expect_cons (by decide)]
      simp only [Option.bind_eq_bind, Option.bind_some, hmembers, dictOf_of_nodup hv.1]
      rfl

theorem scanElements_texts : ∀ (xs : List Json), xs ≠ [] → Json.AllReadable floatRepr floatOf xs →
    ∀ (fuel : Nat) (rest : List Char),
      ([',', ' '].intercalate (Json.texts floatRepr xs)).length + 1 < fuel →
      scanElements floatOf fuel
        ([',', ' '].intercalate (Json.texts floatRepr xs) ++ closeBracket :: rest) = some (xs, rest)
  | xs, _, _, 0, rest, hfuel => absurd hfuel (Nat.not_lt_zero _)
  | [], hne, _, _, _, _ => absurd rfl hne
  | [x], _, hxs, fuel + 1, rest, hfuel => by
      rw [Json.texts, Json.texts, List.intercalate_singleton] at hfuel ⊢
      have hvalue := scanOnce_text x hxs.1 fuel (closeBracket :: rest) (by omega)
        (.cons (by decide) rest)
      simp only [scanElements, hvalue, Option.bind_eq_bind, Option.bind_some,
        expect_cons (show isSpace closeBracket = false by decide)]
      rfl
  | x :: y :: ys, _, hxs, fuel + 1, rest, hfuel => by
      rw [texts_cons] at hfuel ⊢
      simp only [List.length_append, List.length_cons] at hfuel
      obtain ⟨c, cs, hhead, hc, _⟩ := texts_head hxs.2.1 ys
      have hvalue := scanOnce_text x hxs.1 fuel
        (',' :: ' ' :: ([',', ' '].intercalate (Json.texts floatRepr (y :: ys)) ++
          closeBracket :: rest)) (by omega) (.cons (by decide) _)
      have hothers :=
        scanElements_texts (y :: ys) (List.cons_ne_nil y ys) hxs.2 fuel rest (by omega)
      rw [List.append_assoc, List.cons_append, List.cons_append]
      simp only [scanElements, hvalue, Option.bind_eq_bind, Option.bind_some]
      rw [expect_ne (by decide) (by decide), expect_cons (by decide)]
      simp only [Option.bind_some]
      rw [skipSpace_space, hhead, List.cons_append, skipSpace_cons hc, ← List.cons_append, ← hhead,
        hothers]
      rfl

theorem scanMembers_pairTexts : ∀ (fields : List (String × Json)), fields ≠ [] →
    Json.FieldsReadable floatRepr floatOf fields → ∀ (fuel : Nat) (cs rest : List Char),
      quote :: cs =
        [',', ' '].intercalate (Json.pairTexts floatRepr fields) ++ closeBrace :: rest →
      cs.length < fuel + rest.length →
      scanMembers floatOf fuel cs = some (fields, rest)
  | fields, _, _, 0, cs, rest, hcs, hfuel => by
      have hlen := congrArg List.length hcs
      simp only [List.length_cons, List.length_append] at hlen
      omega
  | [], hne, _, _, _, _, _, _ => absurd rfl hne
  | [(k, v)], _, hfields, fuel + 1, cs, rest, hcs, hfuel => by
      rw [pairTexts_cons, if_pos rfl, List.append_nil, List.cons_append] at hcs
      obtain rfl := (List.cons.inj hcs).2
      simp only [List.length_append, List.length_cons] at hfuel
      have hvalue := scanOnce_text v hfields.1 fuel (closeBrace :: rest) (by omega)
        (.cons (by decide) rest)
      simp only [List.append_assoc, List.cons_append, scanMembers, scanString_text,
        Option.bind_eq_bind, Option.bind_some]
      rw [expect_cons (by decide)]
      simp only [Option.bind_some]
      rw [skipSpace_space, skipSpace_text hfields.1, hvalue]
      simp only [Option.bind_some, expect_cons (show isSpace closeBrace = false by decide)]
      rfl
  | (k, v) :: (k', v') :: fields, _, hfields, fuel + 1, cs, rest, hcs, hfuel => by
      rw [pairTexts_cons, if_neg (List.cons_ne_nil _ _), List.cons_append] at hcs
      obtain rfl := (List.cons.inj hcs).2
      have hhead := pairTexts_cons floatRepr k' v' fields
      generalize k'.toList.flatMap escapeChar ++ quote :: ':' :: ' ' :: (v'.text floatRepr ++
        if fields = [] then []
        else ',' :: ' ' :: [',', ' '].intercalate (Json.pairTexts floatRepr fields)) = tail at hhead
      rw [hhead] at hfuel ⊢
      simp only [List.length_append, List.length_cons] at hfuel
      have hvalue := scanOnce_text v hfields.1 fuel
        (',' :: ' ' :: quote :: (tail ++ closeBrace :: rest)) (by omega) (.cons (by decide) _)
      have hothers := scanMembers_pairTexts ((k', v') :: fields) (List.cons_ne_nil _ _) hfields.2
        fuel (tail ++ closeBrace :: rest) rest (by rw [hhead]; rfl) (by
          simp only [List.length_append, List.length_cons]
          omega)
      simp only [List.append_assoc, List.cons_append, scanMembers, scanString_text,
        Option.bind_eq_bind, Option.bind_some]
      rw [expect_cons (by decide)]
      simp only [Option.bind_some]
      rw [skipSpace_space, skipSpace_text hfields.1, hvalue]
      simp only [Option.bind_some]
      rw [expect_ne (by decide) (by decide), expect_cons (by decide)]
      simp only [Option.bind_some]
      rw [expect_space, expect_cons (by decide)]
      simp only [Option.bind_some, hothers]
      rfl
end

/-- **`json.loads` reads what `json.dumps` writes.** -/
theorem loads_dumps {v : Json} (hv : v.Readable floatRepr floatOf) :
    loads floatOf (dumps floatRepr v) = .ok v := by
  have htext : (dumps floatRepr v).toList = v.text floatRepr := String.toList_ofList
  have hskip := skipSpace_text hv []
  have hscan := scanOnce_text v hv ((v.text floatRepr).length + 1) [] (Nat.lt_succ_self _)
    numberEnd_nil
  rw [List.append_nil] at hskip hscan
  simp only [loads, htext, hskip, hscan]
  rfl

/-! ## A decoder -/

mutual
/-- No `int` of more than 4300 digits, and at most `depth` brackets inside
each other. -/
def Json.Within : Json → Nat → Prop
  | .int n, _ => n.natAbs.repr.length ≤ 4300
  | .arr xs, depth => 0 < depth ∧ Json.AllWithin xs (depth - 1)
  | .obj fields, depth => 0 < depth ∧ Json.FieldsWithin fields (depth - 1)
  | _, _ => True

def Json.AllWithin : List Json → Nat → Prop
  | [], _ => True
  | x :: xs, depth => x.Within depth ∧ Json.AllWithin xs depth

def Json.FieldsWithin : List (String × Json) → Nat → Prop
  | [], _ => True
  | (_, v) :: rest, depth => v.Within depth ∧ Json.FieldsWithin rest depth
end

/-- What the interpreter has for texts: `repr` and `float` of a float, and
`json.loads`. -/
structure Codec where
  floatRepr : Rat → String
  floatOf : List Char → Rat
  loads : String → Except PyError Json

namespace Codec

/-- `json.loads` does not raise on what `json.dumps` writes of the value. -/
def Accepts (J : Codec) (v : Json) : Prop := (J.loads (dumps J.floatRepr v)).isOk = true

instance (J : Codec) (v : Json) : Decidable (J.Accepts v) := inferInstanceAs (Decidable (_ = _))

/-- What is used of `json.loads`: it takes only what closes its brackets
and quotes; from the text of a value it reads this value or raises; and
it does not raise within the limits of the interpreter. -/
structure Lawful (J : Codec) : Prop where
  floatText : FloatText J.floatRepr
  balanced : ∀ text v, J.loads text = .ok v → Balanced text.toList
  readsBack : ∀ v, v.Readable J.floatRepr J.floatOf →
    ∀ w, J.loads (dumps J.floatRepr v) = .ok w → w = v
  accepts : ∀ v, v.Readable J.floatRepr J.floatOf → v.Within 100 → J.Accepts v

theorem Lawful.loads_dumps {J : Codec} (h : J.Lawful) {v : Json}
    (hv : v.Readable J.floatRepr J.floatOf) (haccepts : J.Accepts v) :
    J.loads (dumps J.floatRepr v) = .ok v := by
  unfold Accepts at haccepts
  cases hw : J.loads (dumps J.floatRepr v) with
  | error e => simp [hw, Except.isOk, Except.toBool] at haccepts
  | ok w => rw [h.readsBack v hv w hw]

/-- A decoder without limits, with these floats. -/
def unlimited (floatRepr : Rat → String) (floatOf : List Char → Rat) : Codec :=
  ⟨floatRepr, floatOf, Python.loads floatOf⟩

theorem accepts_unlimited {v : Json} (hv : v.Readable floatRepr floatOf) :
    (unlimited floatRepr floatOf).Accepts v := by
  have hloads : (unlimited floatRepr floatOf).loads (dumps floatRepr v) = .ok v :=
    Python.loads_dumps hv
  simp only [Accepts, show (unlimited floatRepr floatOf).floatRepr = floatRepr from rfl, hloads]
  rfl

theorem lawful_unlimited (h : FloatText floatRepr) (floatOf : List Char → Rat) :
    (unlimited floatRepr floatOf).Lawful where
  floatText := h
  balanced _ _ := balanced_of_loads
  readsBack _ hv _ hw := (Except.ok.inj ((Python.loads_dumps hv).symm.trans hw)).symm
  accepts _ hv _ := accepts_unlimited hv

end Codec

end SyncSystem.Python
