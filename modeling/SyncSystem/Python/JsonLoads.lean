/-
SyncSystem.Python.JsonLoads — `json.loads` with its default arguments.

The decoder of the standard library, case by case: what the first
character says is coming (`scanOnce`), the members of an object and the
elements of an array up to the closing bracket, string literals with
their escapes, numbers, white space between any two of these. `fuel` is
the length of the text and one, and every call uses up a character.

Whatever it accepts opens and closes its own brackets and quotes
(`balanced_of_loads`).

The value of a decimal literal with a fraction or an exponent, `float`,
is a parameter. Three things of the library's decoder are not here. It
takes `NaN`, `Infinity` and `-Infinity`, and a lone surrogate in a string,
which no value of `Json` stands for; and it raises on an integer of more
than 4300 digits and on brackets nested to the recursion limit. What has
to hold of that decoder is stated of any that is lawful (`Codec.Lawful`),
as this one is (`Codec.lawful_unlimited`).
-/
import SyncSystem.Python.JsonText
import SyncSystem.Python.Dict

namespace SyncSystem.Python

open SyncSystem.Text

/-! ## White space -/

def isSpace (c : Char) : Bool := c = ' ' || c = '\t' || c = '\n' || c = '\r'

def skipSpace (cs : List Char) : List Char := cs.dropWhile isSpace

/-- The next character after white space is `c`. -/
def expect (c : Char) (cs : List Char) : Option (List Char) :=
  match skipSpace cs with
  | d :: rest => if d = c then some rest else none
  | [] => none

/-! ## Strings -/

def hexValue (c : Char) : Option Nat :=
  if c.isDigit then some (c.toNat - 48)
  else if 'a' ≤ c ∧ c ≤ 'f' then some (c.toNat - 87)
  else if 'A' ≤ c ∧ c ≤ 'F' then some (c.toNat - 55)
  else none

/-- The value of four hexadecimal digits. -/
def hexValue4 (a b c d : Char) : Option Nat := do
  return ((← hexValue a) * 16 + (← hexValue b)) * 256 + (← hexValue c) * 16 + (← hexValue d)

/-- What a backslash and this character stand for. -/
def simpleEscape (c : Char) : Option Char :=
  if c = quote ∨ c = backslash ∨ c = '/' then some c
  else if c = 'b' then some '\x08'
  else if c = 'f' then some '\x0c'
  else if c = 'n' then some '\n'
  else if c = 'r' then some '\r'
  else if c = 't' then some '\t'
  else none

/-- A string literal after its quote, up to the closing one: the
characters by number, an escape `\uXXXX` by the number it has. -/
def scanUnits : List Char → Option (List Nat × List Char)
  | [] => none
  | c :: rest =>
      if c = quote then some ([], rest)
      else if c = backslash then
        match rest with
        | 'u' :: h₁ :: h₂ :: h₃ :: h₄ :: rest' =>
            match hexValue4 h₁ h₂ h₃ h₄ with
            | some u => (scanUnits rest').map fun p => (u :: p.1, p.2)
            | none => none
        | e :: rest' =>
            match simpleEscape e with
            | some x => (scanUnits rest').map fun p => (x.toNat :: p.1, p.2)
            | none => none
        | [] => none
      else if c < ' ' then none
      else (scanUnits rest).map fun p => (c.toNat :: p.1, p.2)

def isSurrogate (u : Nat) : Bool := 0xd800 ≤ u && u ≤ 0xdfff

/-- A high surrogate and a low one are one character. -/
def joinUnits : List Nat → Option (List Char)
  | [] => some []
  | u :: rest =>
      if isSurrogate u then
        match rest with
        | v :: rest' =>
            if u ≤ 0xdbff ∧ 0xdc00 ≤ v ∧ v ≤ 0xdfff then
              (joinUnits rest').map
                (Char.ofNat (0x10000 + (u - 0xd800) * 1024 + (v - 0xdc00)) :: ·)
            else none
        | [] => none
      else (joinUnits rest).map (Char.ofNat u :: ·)

def scanString (cs : List Char) : Option (String × List Char) := do
  let (units, rest) ← scanUnits cs
  return (String.ofList (← joinUnits units), rest)

/-! ## Numbers -/

/-- `0|[1-9]\d*`. -/
def scanInteger : List Char → Option (List Char × List Char)
  | [] => none
  | c :: rest =>
      if c = '0' then some ([c], rest)
      else if c.isDigit then some (c :: rest.takeWhile Char.isDigit, rest.dropWhile Char.isDigit)
      else none

/-- `(\.\d+)?`. -/
def scanFraction : List Char → List Char × List Char
  | '.' :: d :: rest =>
      if d.isDigit then ('.' :: d :: rest.takeWhile Char.isDigit, rest.dropWhile Char.isDigit)
      else ([], '.' :: d :: rest)
  | cs => ([], cs)

/-- `[-+]?`. -/
def scanSign : List Char → List Char × List Char
  | '-' :: rest => (['-'], rest)
  | '+' :: rest => (['+'], rest)
  | cs => ([], cs)

/-- `([eE][-+]?\d+)?`. -/
def scanExponent (cs : List Char) : List Char × List Char :=
  match cs with
  | e :: rest =>
      if e = 'e' ∨ e = 'E' then
        match (scanSign rest).2 with
        | d :: rest' =>
            if d.isDigit then
              (e :: ((scanSign rest).1 ++ d :: rest'.takeWhile Char.isDigit),
                rest'.dropWhile Char.isDigit)
            else ([], cs)
        | [] => ([], cs)
      else ([], cs)
  | [] => ([], cs)

/-- `-?`. -/
def scanMinus : List Char → List Char × List Char
  | '-' :: rest => (['-'], rest)
  | cs => ([], cs)

section

variable (floatOf : List Char → Rat)

def scanNumber (cs : List Char) : Option (Json × List Char) :=
  match scanInteger (scanMinus cs).2 with
  | none => none
  | some (digits, rest) =>
      let fraction := scanFraction rest
      let exponent := scanExponent fraction.2
      if fraction.1 = [] ∧ exponent.1 = [] then
        let n : Int := Nat.ofDigitChars 10 digits 0
        some (.int (if (scanMinus cs).1 = [] then n else -n), rest)
      else
        some (.float (floatOf ((scanMinus cs).1 ++ digits ++ fraction.1 ++ exponent.1)), exponent.2)

/-! ## Values -/

def scanWord : List Char → Option (Json × List Char)
  | 'n' :: 'u' :: 'l' :: 'l' :: rest => some (.null, rest)
  | 't' :: 'r' :: 'u' :: 'e' :: rest => some (.bool true, rest)
  | 'f' :: 'a' :: 'l' :: 's' :: 'e' :: rest => some (.bool false, rest)
  | _ => none

/-- `dict(pairs)`. -/
def dictOf (pairs : List (String × Json)) : Obj :=
  pairs.foldl (fun d p => setEntry p.1 p.2 d) []

mutual
/-- `scan_once`. -/
def scanOnce : Nat → List Char → Option (Json × List Char)
  | 0, _ => none
  | _ + 1, [] => none
  | fuel + 1, c :: rest =>
      if c = quote then (scanString rest).map fun p => (.str p.1, p.2)
      else if c = openBrace then
        match expect closeBrace rest with
        | some rest' => some (.obj [], rest')
        | none => do
            let (pairs, rest') ← scanMembers fuel (← expect quote rest)
            return (.obj (dictOf pairs), rest')
      else if c = openBracket then
        match expect closeBracket rest with
        | some rest' => some (.arr [], rest')
        | none => do
            let (values, rest') ← scanElements fuel (skipSpace rest)
            return (.arr values, rest')
      else (scanWord (c :: rest)).or (scanNumber floatOf (c :: rest))

/-- The members of an object, from after the quote of the first key. -/
def scanMembers : Nat → List Char → Option (List (String × Json) × List Char)
  | 0, _ => none
  | fuel + 1, cs => do
      let (key, cs) ← scanString cs
      let cs ← expect ':' cs
      let (v, cs) ← scanOnce fuel (skipSpace cs)
      match expect closeBrace cs with
      | some rest => return ([(key, v)], rest)
      | none =>
          let cs ← expect ',' cs
          let (pairs, rest) ← scanMembers fuel (← expect quote cs)
          return ((key, v) :: pairs, rest)

/-- The elements of an array. -/
def scanElements : Nat → List Char → Option (List Json × List Char)
  | 0, _ => none
  | fuel + 1, cs => do
      let (v, cs) ← scanOnce fuel cs
      match expect closeBracket cs with
      | some rest => return ([v], rest)
      | none =>
          let cs ← expect ',' cs
          let (values, rest) ← scanElements fuel (skipSpace cs)
          return (v :: values, rest)
end

/-- `json.loads(text)`: any error is a `JSONDecodeError`. -/
def loads (text : String) : Except PyError Json :=
  match scanOnce floatOf (text.toList.length + 1) (skipSpace text.toList) with
  | some (v, rest) => if skipSpace rest = [] then .ok v else .error .valueError
  | none => .error .valueError

end

example :
    (loads (fun _ => 1.5)
      " \x7b\x22a\x22: [-7, 1.50,null], \x22\\ud83d\\ude00\x22 : \x22\\/\x22\x7d ").toOption.map
        (dumps (fun _ => "1.5")) =
    some "\x7b\x22a\x22: [-7, 1.5, null], \x22\\ud83d\\ude00\x22: \x22/\x22\x7d" := by
  decide +kernel

/-! ## What is accepted is balanced -/

/-- The text that is read before `rest` keeps the scan. -/
def Takes (cs rest : List Char) : Prop := ∃ t, cs = t ++ rest ∧ Keeps .outside t

namespace Takes

variable {cs rest rest' : List Char}

theorem refl (cs : List Char) : Takes cs cs := ⟨[], rfl, .nil _⟩

theorem trans (h : Takes cs rest) (h' : Takes rest rest') : Takes cs rest' := by
  obtain ⟨t, rfl, ht⟩ := h
  obtain ⟨t', rfl, ht'⟩ := h'
  exact ⟨t ++ t', by simp, ht.append ht'⟩

theorem plain {c : Char} (h : IsPlain c) (rest : List Char) : Takes (c :: rest) rest :=
  ⟨[c], rfl, .plain fun d hd => by rw [List.mem_singleton.mp hd]; exact h⟩

/-- What is read in brackets is read with them. -/
theorem bracketed {o c : Char} (ho : IsOpening o) (hc : IsClosing c) (h : Takes cs (c :: rest)) :
    Takes (o :: cs) rest := by
  obtain ⟨t, rfl, ht⟩ := h
  exact ⟨o :: (t ++ [c]), by simp, .bracketed ho hc ht⟩

/-- A run of characters that mean nothing. -/
theorem dropWhile {p : Char → Bool} (hp : ∀ c, p c = true → IsPlain c) (cs : List Char) :
    Takes cs (cs.dropWhile p) :=
  ⟨cs.takeWhile p, List.takeWhile_append_dropWhile.symm,
    .plain fun c hc => hp c (List.all_eq_true.mp List.all_takeWhile c hc)⟩

end Takes

theorem isPlain_of_isSpace (c : Char) (h : isSpace c = true) : IsPlain c := by
  simp only [isSpace, Bool.or_eq_true, decide_eq_true_eq] at h
  rcases h with ((rfl | rfl) | rfl) | rfl <;> decide

theorem takes_skipSpace (cs : List Char) : Takes cs (skipSpace cs) :=
  .dropWhile isPlain_of_isSpace cs

theorem takes_digits (cs : List Char) : Takes cs (cs.dropWhile Char.isDigit) :=
  .dropWhile (fun _ => isPlain_of_isDigit) cs

theorem takes_expect {c : Char} {cs rest : List Char} (h : expect c cs = some rest) :
    Takes cs (c :: rest) := by
  unfold expect at h
  split at h
  · next d rest' hcs =>
    split at h
    · next heq =>
      cases h
      rw [← heq, ← hcs]
      exact takes_skipSpace cs
    · cases h
  · cases h

/-! ### Strings -/

theorem hexValue_literal {c : Char} (h : (hexValue c).isSome = true) :
    c ≠ quote ∧ c ≠ backslash := by
  constructor
  all_goals
    rintro rfl
    exact absurd h (by decide)

theorem hexValue4_literal {a b c d : Char} {u : Nat} (h : hexValue4 a b c d = some u) :
    ∀ x ∈ [a, b, c, d], x ≠ quote ∧ x ≠ backslash := by
  unfold hexValue4 at h
  cases ha : hexValue a with
  | none => simp [ha] at h
  | some _ =>
    cases hb : hexValue b with
    | none => simp [ha, hb] at h
    | some _ =>
      cases hc : hexValue c with
      | none => simp [ha, hb, hc] at h
      | some _ =>
        cases hd : hexValue d with
        | none => simp [ha, hb, hc, hd] at h
        | some _ =>
          intro x hx
          apply hexValue_literal
          simp only [List.mem_cons, List.not_mem_nil, or_false] at hx
          rcases hx with rfl | rfl | rfl | rfl <;> simp [*]

/-- What is read of a string literal keeps a scan that is inside one. -/
theorem keeps_of_scanUnits {cs : List Char} {us : List Nat} {rest : List Char}
    (h : scanUnits cs = some (us, rest)) :
    ∃ body, cs = body ++ quote :: rest ∧ Keeps .inside body := by
  fun_induction scanUnits cs generalizing us with
  | case1 => cases h
  | case2 rest' =>
    cases h
    exact ⟨[], rfl, .nil _⟩
  | case3 h₁ h₂ h₃ h₄ rest' u hu _ ih =>
    obtain ⟨⟨us', r⟩, hr, heq⟩ := Option.map_eq_some_iff.mp h
    cases heq
    obtain ⟨body, rfl, hbody⟩ := ih hr
    exact ⟨backslash :: 'u' :: h₁ :: h₂ :: h₃ :: h₄ :: body, rfl,
      ((Keeps.escape 'u').append (.literal (hexValue4_literal hu))).append hbody⟩
  | case4 => cases h
  | case5 e rest' _ x _ _ ih =>
    obtain ⟨⟨us', r⟩, hr, heq⟩ := Option.map_eq_some_iff.mp h
    cases heq
    obtain ⟨body, rfl, hbody⟩ := ih hr
    exact ⟨backslash :: e :: body, rfl, (Keeps.escape e).append hbody⟩
  | case6 => cases h
  | case7 => cases h
  | case8 => cases h
  | case9 c rest' hq hb _ ih =>
    obtain ⟨⟨us', r⟩, hr, heq⟩ := Option.map_eq_some_iff.mp h
    cases heq
    obtain ⟨body, rfl, hbody⟩ := ih hr
    exact ⟨c :: body, rfl, (Keeps.char fun d => next_inside hq hb d).append hbody⟩

theorem takes_scanString {cs rest : List Char} {s : String} (h : scanString cs = some (s, rest)) :
    Takes (quote :: cs) rest := by
  unfold scanString at h
  obtain ⟨⟨us, r⟩, hr, h⟩ := Option.bind_eq_some_iff.mp h
  obtain ⟨chars, _, h⟩ := Option.bind_eq_some_iff.mp h
  cases h
  obtain ⟨body, rfl, hbody⟩ := keeps_of_scanUnits hr
  exact ⟨quote :: (body ++ [quote]), by simp, .quoted hbody⟩

/-! ### Numbers and words -/

theorem takes_scanMinus (cs : List Char) : Takes cs (scanMinus cs).2 := by
  unfold scanMinus
  split
  · exact .plain (by decide) _
  · exact .refl _

theorem takes_scanSign (cs : List Char) : Takes cs (scanSign cs).2 := by
  unfold scanSign
  split
  · exact .plain (by decide) _
  · exact .plain (by decide) _
  · exact .refl _

theorem takes_scanInteger {cs digits rest : List Char}
    (h : scanInteger cs = some (digits, rest)) : Takes cs rest := by
  unfold scanInteger at h
  split at h
  · cases h
  · next c tail =>
    split at h
    · next hzero =>
      cases h
      exact .plain (by rw [hzero]; decide) _
    · split at h
      · next hdigit =>
        cases h
        exact (Takes.plain (isPlain_of_isDigit hdigit) _).trans (takes_digits tail)
      · cases h

theorem takes_scanFraction (cs : List Char) : Takes cs (scanFraction cs).2 := by
  unfold scanFraction
  split
  · next d rest =>
    split
    · next hdigit =>
      exact ((Takes.plain (by decide) _).trans (.plain (isPlain_of_isDigit hdigit) _)).trans
        (takes_digits rest)
    · exact .refl _
  · exact .refl _

theorem takes_scanExponent (cs : List Char) : Takes cs (scanExponent cs).2 := by
  unfold scanExponent
  split
  · next e rest =>
    split
    · next he =>
      have hplain : IsPlain e := by rcases he with rfl | rfl <;> decide
      split
      · next d rest' hsign =>
        split
        · next hdigit =>
          have hrest := takes_scanSign rest
          rw [hsign] at hrest
          exact (((Takes.plain hplain rest).trans hrest).trans
            (.plain (isPlain_of_isDigit hdigit) _)).trans (takes_digits rest')
        · exact .refl _
      · exact .refl _
    · exact .refl _
  · exact .refl _

variable {floatOf : List Char → Rat}

theorem takes_scanNumber {cs rest : List Char} {v : Json}
    (h : scanNumber floatOf cs = some (v, rest)) : Takes cs rest := by
  unfold scanNumber at h
  split at h
  · cases h
  · next digits r hint =>
    have hinteger := (takes_scanMinus cs).trans (takes_scanInteger hint)
    simp only at h
    split at h
    · cases h
      exact hinteger
    · cases h
      exact (hinteger.trans (takes_scanFraction r)).trans (takes_scanExponent _)

theorem takes_scanWord {cs rest : List Char} {v : Json} (h : scanWord cs = some (v, rest)) :
    Takes cs rest := by
  have hword : ∀ word : List Char, word.all (fun c => IsPlain c) = true →
      Takes (word ++ rest) rest := fun word hplain => ⟨word, rfl, .word hplain⟩
  unfold scanWord at h
  split at h
  · cases h
    exact hword ['n', 'u', 'l', 'l'] (by decide)
  · cases h
    exact hword ['t', 'r', 'u', 'e'] (by decide)
  · cases h
    exact hword ['f', 'a', 'l', 's', 'e'] (by decide)
  · cases h

/-! ### Values -/

/-- What is read of a value, of the members of an object with its first
quote, and of the elements of an array keeps the scan. -/
theorem takes_scan (fuel : Nat) : ∀ cs rest,
    (∀ v, scanOnce floatOf fuel cs = some (v, rest) → Takes cs rest) ∧
    (∀ ps, scanMembers floatOf fuel cs = some (ps, rest) →
      Takes (quote :: cs) (closeBrace :: rest)) ∧
    (∀ vs, scanElements floatOf fuel cs = some (vs, rest) →
      Takes cs (closeBracket :: rest)) := by
  induction fuel with
  | zero => simp [scanOnce, scanMembers, scanElements]
  | succ fuel ih =>
    intro cs rest
    refine ⟨?_, ?_, ?_⟩
    · intro v h
      cases cs with
      | nil => simp [scanOnce] at h
      | cons c tail =>
        simp only [scanOnce] at h
        split at h
        · next hq =>
          obtain ⟨p, hp, heq⟩ := Option.map_eq_some_iff.mp h
          cases heq
          rw [hq]
          exact takes_scanString hp
        · split at h
          · next hb =>
            rw [hb]
            refine .bracketed (.inr rfl) (.inr rfl) (c := closeBrace) ?_
            split at h
            · next r hr =>
              cases h
              exact takes_expect hr
            · obtain ⟨r, hr, h⟩ := Option.bind_eq_some_iff.mp h
              obtain ⟨p, hp, h⟩ := Option.bind_eq_some_iff.mp h
              cases h
              exact (takes_expect hr).trans ((ih r p.2).2.1 p.1 hp)
          · split at h
            · next hb =>
              rw [hb]
              refine .bracketed (.inl rfl) (.inl rfl) (c := closeBracket) ?_
              split at h
              · next r hr =>
                cases h
                exact takes_expect hr
              · obtain ⟨p, hp, h⟩ := Option.bind_eq_some_iff.mp h
                cases h
                exact (takes_skipSpace tail).trans ((ih _ p.2).2.2 p.1 hp)
            · rcases Option.or_eq_some_iff.mp h with h | ⟨_, h⟩
              · exact takes_scanWord h
              · exact takes_scanNumber h
    · intro ps h
      simp only [scanMembers] at h
      obtain ⟨⟨key, r₁⟩, hkey, h⟩ := Option.bind_eq_some_iff.mp h
      obtain ⟨r₂, hcolon, h⟩ := Option.bind_eq_some_iff.mp h
      obtain ⟨⟨v, r₃⟩, hv, h⟩ := Option.bind_eq_some_iff.mp h
      have hmember : Takes (quote :: cs) r₃ :=
        ((((takes_scanString hkey).trans (takes_expect hcolon)).trans (.plain (by decide) r₂)).trans
          (takes_skipSpace r₂)).trans ((ih _ r₃).1 v hv)
      split at h
      · next r hr =>
        cases h
        exact hmember.trans (takes_expect hr)
      · obtain ⟨r₄, hcomma, h⟩ := Option.bind_eq_some_iff.mp h
        obtain ⟨r₅, hquote, h⟩ := Option.bind_eq_some_iff.mp h
        obtain ⟨p, hp, h⟩ := Option.bind_eq_some_iff.mp h
        cases h
        exact (((hmember.trans (takes_expect hcomma)).trans (.plain (by decide) r₄)).trans
          (takes_expect hquote)).trans ((ih r₅ p.2).2.1 p.1 hp)
    · intro vs h
      simp only [scanElements] at h
      obtain ⟨⟨v, r₁⟩, hv, h⟩ := Option.bind_eq_some_iff.mp h
      have helement : Takes cs r₁ := (ih cs r₁).1 v hv
      split at h
      · next r hr =>
        cases h
        exact helement.trans (takes_expect hr)
      · obtain ⟨r₂, hcomma, h⟩ := Option.bind_eq_some_iff.mp h
        obtain ⟨p, hp, h⟩ := Option.bind_eq_some_iff.mp h
        cases h
        exact (((helement.trans (takes_expect hcomma)).trans (.plain (by decide) r₂)).trans
          (takes_skipSpace r₂)).trans ((ih _ p.2).2.2 p.1 hp)

/-- A text that `loads` takes is balanced. -/
theorem balanced_of_loads {text : String} {v : Json} (h : loads floatOf text = .ok v) :
    Balanced text.toList := by
  unfold loads at h
  split at h
  · next w rest hscan =>
    split at h
    · next hend =>
      have htail := takes_skipSpace rest
      rw [hend] at htail
      obtain ⟨t, heq, ht⟩ := ((takes_skipSpace text.toList).trans
        ((takes_scan _ _ rest).1 w hscan)).trans htail
      rw [heq, List.append_nil]
      exact ht.balanced
    · cases h
  · cases h

end SyncSystem.Python
