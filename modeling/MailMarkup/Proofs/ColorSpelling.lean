import MailMarkup.Attribute.Value
import MailMarkup.Proofs.BlankTrimming
import MailMarkup.Proofs.Runs
import Mathlib.Tactic.IntervalCases

/-!
# The spelling of colors

A color is spelled in one of five forms: as one of two words, as a number sign with three or six
digits, as a function with three components and perhaps an opacity, or as a name. No text has two of
the forms, so the order in which a reader tries them does not count. A text of none of the forms is
refused, and the text of a color that was read is the text that it was read from.
-/
namespace MailMarkup.Color
open Text

section Parts

variable {cs part rest : List Char}

def AreDecimal (cs : List Char) : Prop := ∀ c ∈ cs, isDecimalDigit c = true

/-- One to three digits, with a percent sign behind them or without. -/
def IsComponent (cs : List Char) : Prop :=
  ∃ digits percent, cs = digits ++ percent ∧ AreDecimal digits ∧ 1 ≤ digits.length ∧
    digits.length ≤ 3 ∧ (percent = [] ∨ percent = ['%'])

/-- Digits, or digits behind a point that any number of digits stands before. -/
inductive IsOpacity : List Char → Prop
  | whole {digits : List Char} (decimal : AreDecimal digits) (nonempty : digits ≠ []) :
    IsOpacity digits
  | pointed {whole digits : List Char} (before : AreDecimal whole) (decimal : AreDecimal digits)
    (nonempty : digits ≠ []) : IsOpacity (whole ++ '.' :: digits)

/-- Blanks may stand on both sides of a part. -/
def IsSpaced (P : List Char → Prop) (cs : List Char) : Prop :=
  ∃ before part after, cs = before ++ part ++ after ∧ P part ∧
    (∀ c ∈ before, isBlank c = true) ∧ ∀ c ∈ after, isBlank c = true

/-- The marks that end a part. -/
def IsEnd (mark : Char) : Prop := mark = ',' ∨ mark = ')'

/-- What is neither a blank nor the mark does not stand behind a part. -/
theorem stops_behind {p : Char → Bool} {after : List Char} {mark : Char}
    (solid : ∀ c, isBlank c = true → p c = false) (blank : ∀ c ∈ after, isBlank c = true)
    (ends : p mark = false) (rest : List Char) : (after ++ mark :: rest).head?.any p = false := by
  cases after with
  | nil => exact ends
  | cons b after => exact solid b (blank b List.mem_cons_self)

section Ends

variable {after : List Char} (blank : ∀ c ∈ after, isBlank c = true) {mark : Char}
  (ends : IsEnd mark) (rest : List Char)

include blank ends

private theorem isRun_blanks : IsRun isBlank after (mark :: rest) where
  all := blank
  stops := by rcases ends with rfl | rfl <;> rfl

private theorem isRun_digits {digits : List Char} (decimal : AreDecimal digits) :
    IsRun isDecimalDigit digits (after ++ mark :: rest) where
  all := decimal
  stops := by
    refine stops_behind (fun c => isDecimalDigit_of_isBlank) blank ?_ rest
    rcases ends with rfl | rfl <;> decide

private theorem head?_ne_of_solid {c : Char} (solid : isBlank c = false) (other : ¬ IsEnd c) :
    (after ++ mark :: rest).head? ≠ some c := by
  intro first
  have stops : (after ++ mark :: rest).head?.any (· == c) = false := by
    refine stops_behind (fun b blank => ?_) blank ?_ rest
    · rw [beq_eq_false_iff_ne]
      rintro rfl
      rw [solid] at blank
      cases blank
    · rw [beq_eq_false_iff_ne]
      rintro rfl
      exact other ends
  rw [first, Option.any_some, beq_self_eq_true] at stops
  cases stops

end Ends

/-- A part is read behind the blanks before it, and the blanks after it are dropped. -/
theorem exists_spaced {P : List Char → Prop} {inner behind : List Char}
    (start : dropBlanks cs = inner ++ behind) (spelled : P inner) :
    ∃ part, cs = part ++ dropBlanks behind ∧ IsSpaced P part := by
  refine ⟨cs.takeWhile isBlank ++ inner ++ behind.takeWhile isBlank, ?_,
    cs.takeWhile isBlank, inner, behind.takeWhile isBlank, rfl, spelled,
    (IsRun.of_while isBlank cs).all, (IsRun.of_while isBlank behind).all⟩
  calc
    cs = cs.takeWhile isBlank ++ dropBlanks cs := List.takeWhile_append_dropWhile.symm
    _ = cs.takeWhile isBlank ++ (inner ++ (behind.takeWhile isBlank ++ dropBlanks behind)) := by
      rw [start, dropBlanks, List.takeWhile_append_dropWhile]
    _ = _ := by simp only [List.append_assoc]

private theorem dropBlanks_spaced {before inner : List Char}
    (blank : ∀ c ∈ before, isBlank c = true)
    (solid : inner.head?.any isBlank = false) : dropBlanks (before ++ inner) = inner :=
  IsRun.dropWhile_eq ⟨blank, solid⟩

private theorem solid_of_decimal {digits : List Char} (decimal : AreDecimal digits)
    (nonempty : digits ≠ []) (rest : List Char) : (digits ++ rest).head?.any isBlank = false := by
  obtain ⟨d, digits, rfl⟩ := List.exists_cons_of_ne_nil nonempty
  exact isBlank_of_isDecimalDigit (decimal d List.mem_cons_self)

private theorem exists_percent (cs : List Char) :
    ∃ percent, cs = percent ++ dropPercent cs ∧ (percent = [] ∨ percent = ['%']) := by
  unfold dropPercent
  split
  · exact ⟨['%'], rfl, .inr rfl⟩
  · exact ⟨[], rfl, .inl rfl⟩

private theorem dropPercent_of_other (other : cs.head? ≠ some '%') : dropPercent cs = cs := by
  unfold dropPercent
  split
  · exact absurd rfl other
  · rfl

private theorem exists_component_of_after (h : afterComponent cs = some rest) :
    ∃ part, cs = part ++ rest ∧ IsSpaced IsComponent part := by
  unfold afterComponent at h
  dsimp only at h
  split at h
  · next count =>
    cases h
    have run := IsRun.of_while isDecimalDigit (dropBlanks cs)
    obtain ⟨percent, split, sign⟩ := exists_percent ((dropBlanks cs).dropWhile isDecimalDigit)
    refine exists_spaced ?_ ⟨_, percent, rfl, run.all, count.1, count.2, sign⟩
    rw [List.append_assoc, ← split, List.takeWhile_append_dropWhile]
  · cases h

private theorem afterComponent_append (spelled : IsSpaced IsComponent part) {mark : Char}
    (ends : IsEnd mark) (rest : List Char) :
    afterComponent (part ++ mark :: rest) = some (mark :: rest) := by
  obtain ⟨before, _, after, rfl, inner, front, rear⟩ := spelled
  obtain ⟨digits, percent, rfl, decimal, atLeast, atMost, sign⟩ := inner
  have start : dropBlanks (before ++ (digits ++ percent) ++ after ++ mark :: rest) =
      digits ++ (percent ++ (after ++ mark :: rest)) := by
    simp only [List.append_assoc]
    exact dropBlanks_spaced front
      (solid_of_decimal decimal (List.ne_nil_of_length_pos atLeast) _)
  have run : IsRun isDecimalDigit digits (percent ++ (after ++ mark :: rest)) := by
    rcases sign with rfl | rfl
    · exact isRun_digits rear ends rest decimal
    · exact ⟨decimal, rfl⟩
  have unsigned : dropPercent (percent ++ (after ++ mark :: rest)) = after ++ mark :: rest := by
    rcases sign with rfl | rfl
    · exact dropPercent_of_other (head?_ne_of_solid rear ends rest rfl (by simp [IsEnd]))
    · rfl
  unfold afterComponent
  simp only [start, run.takeWhile_eq, run.dropWhile_eq, unsigned]
  rw [if_pos ⟨atLeast, atMost⟩]
  exact congrArg some (isRun_blanks rear ends rest).dropWhile_eq

private theorem exists_opacity_of_after (h : afterOpacity cs = some rest) :
    ∃ part, cs = part ++ rest ∧ IsSpaced IsOpacity part := by
  have run := IsRun.of_while isDecimalDigit (dropBlanks cs)
  have whole : dropBlanks cs = (dropBlanks cs).takeWhile isDecimalDigit ++
      (dropBlanks cs).dropWhile isDecimalDigit := List.takeWhile_append_dropWhile.symm
  unfold afterOpacity at h
  dsimp only at h
  split at h
  · next behind point =>
    split at h
    · cases h
    · next nonempty =>
      cases h
      have digits := IsRun.of_while isDecimalDigit behind
      refine exists_spaced ?_ (.pointed run.all digits.all nonempty)
      rw [List.append_assoc, List.cons_append, List.takeWhile_append_dropWhile, ← point, ← whole]
  · split at h
    · cases h
    · next nonempty =>
      cases h
      exact exists_spaced whole (.whole run.all nonempty)

private theorem afterOpacity_append (spelled : IsSpaced IsOpacity part) {mark : Char}
    (ends : IsEnd mark) (rest : List Char) :
    afterOpacity (part ++ mark :: rest) = some (mark :: rest) := by
  obtain ⟨before, inner, after, rfl, inner, front, rear⟩ := spelled
  have blanks := (isRun_blanks rear ends rest).dropWhile_eq
  simp only [List.append_assoc]
  cases inner with
  | whole decimal nonempty =>
    have run := isRun_digits rear ends rest decimal
    have noPoint := head?_ne_of_solid rear ends rest (c := '.') rfl (by simp [IsEnd])
    unfold afterOpacity
    simp only [dropBlanks_spaced front (solid_of_decimal decimal nonempty _), run.takeWhile_eq,
      run.dropWhile_eq]
    split
    · next same =>
      rw [same] at noPoint
      exact absurd rfl noPoint
    · rw [if_neg nonempty]
      exact congrArg some blanks
  | pointed digits decimal nonempty =>
    rename_i whole fraction
    have run : IsRun isDecimalDigit whole ('.' :: (fraction ++ (after ++ mark :: rest))) :=
      ⟨digits, rfl⟩
    have others := isRun_digits rear ends rest decimal
    have solid : (whole ++ '.' :: (fraction ++ (after ++ mark :: rest))).head?.any isBlank =
        false := by
      cases whole with
      | nil => rfl
      | cons d whole => exact isBlank_of_isDecimalDigit (digits d List.mem_cons_self)
    rw [List.append_assoc, List.cons_append]
    unfold afterOpacity
    simp only [dropBlanks_spaced front solid, run.dropWhile_eq, others.takeWhile_eq,
      others.dropWhile_eq]
    rw [if_neg nonempty]
    exact congrArg some blanks

end Parts

/-- The parts of a functional color. -/
structure Parts where
  function : List Char
  red : List Char
  green : List Char
  blue : List Char
  opacity : Option (List Char)
  function_known : function = "rgb(".toList ∨ function = "rgba(".toList
  red_spelled : IsSpaced IsComponent red
  green_spelled : IsSpaced IsComponent green
  blue_spelled : IsSpaced IsComponent blue
  opacity_spelled : ∀ part ∈ opacity, IsSpaced IsOpacity part

def Parts.ending : Option (List Char) → List Char
  | .none => [')']
  | some opacity => ',' :: (opacity ++ [')'])

def Parts.spelled (p : Parts) : List Char :=
  p.function ++ (p.red ++ ',' :: (p.green ++ ',' :: (p.blue ++ ending p.opacity)))

private theorem afterFunction_eq_some_iff {cs rest : List Char} :
    afterFunction cs = some rest ↔
      ∃ function, (function = "rgb(".toList ∨ function = "rgba(".toList) ∧ cs = function ++ rest := by
  constructor
  · intro h
    unfold afterFunction at h
    split at h
    · cases h
      exact ⟨_, .inr rfl, rfl⟩
    · cases h
      exact ⟨_, .inl rfl, rfl⟩
    · cases h
  · rintro ⟨_, rfl | rfl, rfl⟩ <;> rfl

private theorem afterComma_eq_some_iff {cs rest : List Char} :
    afterComma cs = some rest ↔ cs = ',' :: rest := by
  unfold afterComma
  split
  · simp
  · next other =>
    simp only [reduceCtorEq, false_iff]
    exact other rest

private theorem afterComponents_spelled (p : Parts) :
    afterComponents p.spelled = some (Parts.ending p.opacity) := by
  have ends : IsEnd ',' := .inl rfl
  have last : afterComponent (p.blue ++ Parts.ending p.opacity) = some (Parts.ending p.opacity) := by
    cases p.opacity with
    | none => exact afterComponent_append p.blue_spelled (.inr rfl) []
    | some opacity => exact afterComponent_append p.blue_spelled ends _
  have comma (cs : List Char) : afterComma (',' :: cs) = some cs := rfl
  simp only [afterComponents, Parts.spelled,
    afterFunction_eq_some_iff.mpr ⟨_, p.function_known, rfl⟩, comma,
    afterComponent_append p.red_spelled ends, afterComponent_append p.green_spelled ends, last,
    Option.bind_eq_bind, Option.bind_some]

private theorem exists_parts_of_components {cs : List Char} (opacity : Option (List Char))
    (h : afterComponents cs = some (Parts.ending opacity))
    (spelled : ∀ part ∈ opacity, IsSpaced IsOpacity part) : ∃ p : Parts, cs = p.spelled := by
  obtain ⟨first, function, h⟩ := Option.bind_eq_some_iff.mp h
  obtain ⟨second, red, h⟩ := Option.bind_eq_some_iff.mp h
  obtain ⟨third, comma, h⟩ := Option.bind_eq_some_iff.mp h
  obtain ⟨fourth, green, h⟩ := Option.bind_eq_some_iff.mp h
  obtain ⟨fifth, otherComma, blue⟩ := Option.bind_eq_some_iff.mp h
  obtain ⟨_, known, rfl⟩ := afterFunction_eq_some_iff.mp function
  obtain ⟨_, rfl, redSpelled⟩ := exists_component_of_after red
  obtain rfl := afterComma_eq_some_iff.mp comma
  obtain ⟨_, rfl, greenSpelled⟩ := exists_component_of_after green
  obtain rfl := afterComma_eq_some_iff.mp otherComma
  obtain ⟨_, rfl, blueSpelled⟩ := exists_component_of_after blue
  exact ⟨⟨_, _, _, _, opacity, known, redSpelled, greenSpelled, blueSpelled, spelled⟩, rfl⟩

/-- A functional color is read if it is spelled in its parts up to the end of the text. -/
theorem isFunctional_iff {cs : List Char} :
    isFunctional cs = true ↔ ∃ p : Parts, cs = p.spelled := by
  constructor
  · intro h
    unfold isFunctional at h
    split at h
    · next rest read =>
      obtain ⟨part, rfl, spelled⟩ := exists_opacity_of_after (of_decide_eq_true h)
      exact exists_parts_of_components (some part) read (by simpa using spelled)
    · next rest _ read =>
      obtain rfl : rest = [')'] := of_decide_eq_true h
      exact exists_parts_of_components .none read (by simp)
    · cases h
  · rintro ⟨p, rfl⟩
    have spelled := p.opacity_spelled
    rw [isFunctional, afterComponents_spelled]
    cases opacity : p.opacity with
    | none => rfl
    | some part =>
      exact decide_eq_true (afterOpacity_append (spelled part opacity) (.inr rfl) [])

-- Blanks stand around a component, but not before its percent sign.
example : isFunctional "rgba( 1\t,22% ,\u0663, .5 )".toList = true := by decide +kernel

example : isFunctional "rgb(1 %,2,3)".toList = false := by decide +kernel

def hexDigits : List Char := "0123456789abcdefABCDEF".toList

private theorem isHexDigit_iff {c : Char} : isHexDigit c = true ↔ c ∈ hexDigits := by
  constructor
  · intro digit
    have bounds : (48 ≤ c.toNat ∧ c.toNat ≤ 57) ∨ (97 ≤ c.toNat ∧ c.toNat ≤ 102) ∨
        (65 ≤ c.toNat ∧ c.toNat ≤ 70) := by
      simpa [isHexDigit, Char.isDigit, Char.le_def, UInt32.le_iff_toNat_le, or_assoc] using digit
    rw [← Char.ofNat_toNat c]
    generalize c.toNat = n at bounds
    rcases bounds with ⟨least, most⟩ | ⟨least, most⟩ | ⟨least, most⟩ <;> interval_cases n <;> decide
  · have all : hexDigits.all isHexDigit = true := by decide
    exact fun member => List.all_eq_true.mp all c member

theorem isHex_iff {cs : List Char} : isHex cs = true ↔ ∃ digits, cs = '#' :: digits ∧
    (digits.length = 3 ∨ digits.length = 6) ∧ ∀ d ∈ digits, d ∈ hexDigits := by
  unfold isHex
  split
  · simp [isHexDigit_iff]
  · next other =>
    simp only [Bool.false_eq_true, false_iff, not_exists, not_and]
    exact fun digits same => absurd same (other digits)

/-- The ways to spell a color. -/
inductive Form where
  | none | transparent | hex | functional | named
  deriving DecidableEq

def form : Color → Form
  | .none => .none
  | .transparent => .transparent
  | .hex _ => .hex
  | .functional _ => .functional
  | .named _ => .named

def Form.Spells : Form → String → Prop
  | .none, s => s = "none"
  | .transparent, s => s = "transparent"
  | .hex, s => ∃ digits, s.toList = '#' :: digits ∧ (digits.length = 3 ∨ digits.length = 6) ∧
      ∀ d ∈ digits, d ∈ hexDigits
  | .functional, s => ∃ p : Parts, s.toList = p.spelled
  | .named, s => lowercase s ∈ names

private theorem eq_of_form {a b : Color} (form : a.form = b.form) (text : a.text = b.text) :
    a = b := by
  cases a <;> cases b <;> simp_all [Color.form, Color.text]

private theorem names_unmarked : names.all (fun name => !name.toList.contains '#' &&
    !name.toList.contains '(' && name != "none" && name != "transparent") = true := by
  decide +kernel

/-- No name has a number sign or a parenthesis, in letters of any case, nor is it one of the two
words. -/
theorem Form.named_unmarked {s : String} (named : lowercase s ∈ names) :
    '#' ∉ s.toList ∧ '(' ∉ s.toList ∧ s ≠ "none" ∧ s ≠ "transparent" := by
  have unmarked := List.all_eq_true.mp names_unmarked _ named
  simp only [Bool.and_eq_true, Bool.not_eq_true', List.contains_eq_mem, decide_eq_false_iff_not,
    bne_iff_ne] at unmarked
  obtain ⟨⟨⟨noSign, noParenthesis⟩, notNone⟩, notTransparent⟩ := unmarked
  have lower : (lowercase s).toList = s.toList.map Char.toLower := String.toList_ofList
  rw [lower] at noSign noParenthesis
  refine ⟨fun member => noSign ?_, fun member => noParenthesis ?_, ?_, ?_⟩
  · exact List.mem_map_of_mem (f := Char.toLower) member
  · exact List.mem_map_of_mem (f := Char.toLower) member
  · rintro rfl
    exact notNone rfl
  · rintro rfl
    exact notTransparent rfl

private theorem Form.functional_marked (p : Parts) :
    '(' ∈ p.spelled ∧ p.spelled.head? = some 'r' := by
  rw [Parts.spelled]
  rcases p.function_known with known | known <;> rw [known]
  · exact ⟨by simp, rfl⟩
  · exact ⟨by simp, rfl⟩

/-- The form that the marks of a text leave for it. -/
def Form.ofMarks (s : String) : Form :=
  if s.toList.head? = some '#' then .hex
  else if '(' ∈ s.toList then .functional
  else if s = "none" then .none
  else if s = "transparent" then .transparent
  else .named

private theorem Form.eq_ofMarks {f : Form} {s : String} (spelled : f.Spells s) : f = ofMarks s := by
  unfold ofMarks
  cases f with
  | none =>
    obtain rfl := spelled
    decide
  | transparent =>
    obtain rfl := spelled
    decide
  | hex =>
    obtain ⟨digits, spelled, -⟩ := spelled
    rw [spelled]
    rfl
  | functional =>
    obtain ⟨p, spelled⟩ := spelled
    obtain ⟨marked, first⟩ := functional_marked p
    rw [spelled, first, if_neg (by decide), if_pos marked]
  | named =>
    obtain ⟨noSign, noParenthesis, notNone, notTransparent⟩ := named_unmarked spelled
    have first : s.toList.head? ≠ some '#' := fun head => noSign (List.mem_of_head? head)
    rw [if_neg first, if_neg noParenthesis, if_neg notNone, if_neg notTransparent]

theorem Form.unique {f g : Form} {s : String} (hf : f.Spells s) (hg : g.Spells s) : f = g :=
  (eq_ofMarks hf).trans (eq_ofMarks hg).symm

theorem spelled_of_read? {s : String} {color : Color} (h : read? s = some color) :
    color.form.Spells s ∧ color.text = s := by
  unfold read? at h
  split at h
  · next same =>
    cases h
    exact ⟨same, same.symm⟩
  · split at h
    · next same =>
      cases h
      exact ⟨same, same.symm⟩
    · split at h
      · next hex =>
        cases h
        exact ⟨isHex_iff.mp hex, rfl⟩
      · split at h
        · next functional =>
          cases h
          exact ⟨isFunctional_iff.mp functional, rfl⟩
        · split at h
          · next named =>
            cases h
            exact ⟨List.contains_iff_mem.mp named, rfl⟩
          · cases h

theorem read?_eq_none_iff {s : String} : read? s = Option.none ↔ ∀ f : Form, ¬ f.Spells s := by
  constructor
  · intro refused f
    have conditions : s ≠ "none" ∧ s ≠ "transparent" ∧ ¬ isHex s.toList = true ∧
        ¬ isFunctional s.toList = true ∧ ¬ names.contains (lowercase s) = true := by
      simpa only [read?, ite_eq_iff, reduceCtorEq, and_false, false_or, and_true] using refused
    rw [isHex_iff, isFunctional_iff, List.contains_iff_mem] at conditions
    obtain ⟨notNone, notTransparent, notHex, notFunctional, notNamed⟩ := conditions
    cases f with
    | none => exact notNone
    | transparent => exact notTransparent
    | hex => exact notHex
    | functional => exact notFunctional
    | named => exact notNamed
  · intro unspelled
    cases read : read? s with
    | none => rfl
    | some color => exact absurd (spelled_of_read? read).1 (unspelled color.form)

theorem read?_eq_some_iff {s : String} {color : Color} :
    read? s = some color ↔ color.form.Spells s ∧ color.text = s := by
  refine ⟨spelled_of_read?, fun ⟨spelled, text⟩ => ?_⟩
  cases read : read? s with
  | none => exact absurd spelled (read?_eq_none_iff.mp read color.form)
  | some found =>
    obtain ⟨foundSpelled, foundText⟩ := spelled_of_read? read
    rw [eq_of_form (Form.unique foundSpelled spelled) (foundText.trans text.symm)]

theorem ofText_eq_ok_iff {name s : String} {color : Color} :
    ofText name s = .ok color ↔ read? s = some color := by
  unfold ofText
  cases read? s <;> simp

theorem ofText_eq_error_iff {name s : String} {problem : Problem} :
    ofText name s = .error problem ↔
      read? s = Option.none ∧ problem = .invalidValue name s .color := by
  unfold ofText
  cases read? s <;> simp [eq_comm]

/-- What a text is judged to be as a color. -/
structure IsJudged (name s : String) (result : Except Problem Color) : Prop where
  /-- The form of the color is the one that the text is spelled in, and the text is kept. -/
  accepted_iff : ∀ color, result = .ok color ↔ color.form.Spells s ∧ color.text = s
  forms_exclusive : ∀ f g : Form, f.Spells s → g.Spells s → f = g
  refused_iff : ∀ problem, result = .error problem ↔
    (∀ f : Form, ¬ f.Spells s) ∧ problem = .invalidValue name s .color
  /-- The text of a color is read as that color. -/
  text_reads : ∀ color, result = .ok color → ∀ other, ofText other color.text = .ok color

/-- A text is read as a color in the one form that it is spelled in. -/
theorem ofText_isJudged (name s : String) : IsJudged name s (ofText name s) where
  accepted_iff color := by rw [ofText_eq_ok_iff, read?_eq_some_iff]
  forms_exclusive f g hf hg := Form.unique hf hg
  refused_iff problem := by rw [ofText_eq_error_iff, read?_eq_none_iff]
  text_reads color read other := by
    rw [ofText_eq_ok_iff, read?_eq_some_iff] at read
    rw [ofText_eq_ok_iff, read?_eq_some_iff, read.2]
    exact ⟨read.1, rfl⟩

end MailMarkup.Color
