import MailMarkup.Proofs.NearestDouble
import MailMarkup.Proofs.NumeralSpelling
import MailMarkup.Text.DecimalDigit

/-!
# The grammar of lengths

A length is a number with the suffix of a unit behind it. The grammar is given for any class of
digits: no digit, sign or point starts a suffix, so the number is the longest run of these and a
token is split in one way only. A token is read if it is a length in ASCII digits, as the double
closest to its number and the unit of its suffix. Other decimal digits make lengths that are not
read.
-/
namespace MailMarkup
open Decimal Text

/-- Digits with a point behind them, among them or not at all, or a point and digits. -/
inductive IsMagnitude (digit : Char → Bool) : List Char → Prop
  | whole {ds : List Char} (digits : ∀ d ∈ ds, digit d = true) (nonempty : ds ≠ []) :
    IsMagnitude digit ds
  | pointed {ds es : List Char} (digits : ∀ d ∈ ds, digit d = true) (nonempty : ds ≠ [])
    (places : ∀ d ∈ es, digit d = true) : IsMagnitude digit (ds ++ '.' :: es)
  | fraction {es : List Char} (places : ∀ d ∈ es, digit d = true) (nonempty : es ≠ []) :
    IsMagnitude digit ('.' :: es)

inductive IsNumber (digit : Char → Bool) : List Char → Prop
  | unsigned {cs : List Char} (magnitude : IsMagnitude digit cs) : IsNumber digit cs
  | negative {cs : List Char} (magnitude : IsMagnitude digit cs) : IsNumber digit ('-' :: cs)

/-- The token is the number with the suffix of the unit behind it, and nothing else. -/
structure Length.IsSplit (digit : Char → Bool) (token : String) (number : List Char)
    (unit : LengthUnit) : Prop where
  isNumber : IsNumber digit number
  spelled : token.toList = number ++ unit.suffix.toList

section Digits

variable {digit wide : Char → Bool} {cs : List Char}

private theorem IsMagnitude.digit_or_point (h : IsMagnitude digit cs) :
    ∀ c ∈ cs, digit c = true ∨ c = '.' := by
  cases h with
  | whole digits => exact fun c member => .inl (digits c member)
  | pointed digits _ places =>
    rw [List.forall_mem_append, List.forall_mem_cons]
    exact ⟨fun c member => .inl (digits c member), .inr rfl, fun c member => .inl (places c member)⟩
  | fraction places =>
    rw [List.forall_mem_cons]
    exact ⟨.inr rfl, fun c member => .inl (places c member)⟩

theorem IsNumber.digit_or_mark (h : IsNumber digit cs) :
    ∀ c ∈ cs, digit c = true ∨ c = '.' ∨ c = '-' := by
  cases h with
  | unsigned magnitude =>
    exact fun c member => (magnitude.digit_or_point c member).imp_right .inl
  | negative magnitude =>
    rw [List.forall_mem_cons]
    exact ⟨.inr (.inr rfl), fun c member => (magnitude.digit_or_point c member).imp_right .inl⟩

theorem IsMagnitude.mono (h : IsMagnitude digit cs)
    (kept : ∀ c ∈ cs, digit c = true → wide c = true) : IsMagnitude wide cs := by
  cases h with
  | whole digits nonempty => exact .whole (fun d member => kept d member (digits d member)) nonempty
  | pointed digits nonempty places =>
    rw [List.forall_mem_append, List.forall_mem_cons] at kept
    exact .pointed (fun d member => kept.1 d member (digits d member)) nonempty
      (fun d member => kept.2.2 d member (places d member))
  | fraction places nonempty =>
    rw [List.forall_mem_cons] at kept
    exact .fraction (fun d member => kept.2 d member (places d member)) nonempty

/-- A number in digits that belong to another class is a number of that class. -/
theorem IsNumber.mono (h : IsNumber digit cs)
    (kept : ∀ c ∈ cs, digit c = true → wide c = true) : IsNumber wide cs := by
  cases h with
  | unsigned magnitude => exact .unsigned (magnitude.mono kept)
  | negative magnitude => exact .negative (magnitude.mono (List.forall_mem_cons.mp kept).2)

/-- No suffix starts with a digit of the class. -/
def IsApart (digit : Char → Bool) : Prop :=
  ∀ unit : LengthUnit, unit.suffix.toList.head?.any digit = false

private theorem IsNumber.isRun (h : IsNumber digit cs) (apart : IsApart digit) (unit : LengthUnit) :
    IsRun (fun c => digit c || c == '.' || c == '-') cs unit.suffix.toList where
  all c member := by simpa [or_assoc] using h.digit_or_mark c member
  stops := by
    have stops := apart unit
    cases unit <;> simp_all [LengthUnit.suffix]

namespace Length.IsSplit

variable {token : String} {number other : List Char} {unit otherUnit : LengthUnit}

/-- The number is the longest run of digits and marks. -/
theorem unique (apart : IsApart digit) (h : IsSplit digit token number unit)
    (h' : IsSplit digit token other otherUnit) : number = other ∧ unit = otherUnit := by
  have run := h.isNumber.isRun apart unit
  have run' := h'.isNumber.isRun apart otherUnit
  have same := h.spelled.symm.trans h'.spelled
  have suffix : unit.suffix.toList = otherUnit.suffix.toList := by
    rw [← run.dropWhile_eq, ← run'.dropWhile_eq, same]
  refine ⟨by rw [← run.takeWhile_eq, ← run'.takeWhile_eq, same], ?_⟩
  have known := ofSuffix?_suffix unit
  rw [String.toList_inj.mp suffix, ofSuffix?_suffix] at known
  exact (Option.some.inj known).symm

end Length.IsSplit
end Digits

/-- The number that a numeral stands for, without its sign. -/
def Numeral.magnitude (n : Numeral) : Rat :=
  digitsValue (n.whole ++ n.fraction.getD []) / 10 ^ (n.fraction.getD []).length

theorem Numeral.isClosest_iff {n : Numeral} {x : Float} :
    IsClosest n.negative n.magnitude x ↔ x = n.value := Decimal.isClosest_iff

private theorem isMagnitude_iff {cs : List Char} : IsMagnitude Char.isDigit cs ↔
    ∃ whole fraction, cs = whole ++ Numeral.pointed fraction ∧
      (∀ c ∈ whole, c.isDigit = true) ∧ (∀ c ∈ fraction.getD [], c.isDigit = true) ∧
      (whole ≠ [] ∨ fraction.getD [] ≠ []) := by
  constructor
  · rintro (⟨digits, nonempty⟩ | ⟨digits, nonempty, places⟩ | ⟨places, nonempty⟩)
    · exact ⟨cs, none, (List.append_nil _).symm, digits, List.forall_mem_nil _, .inl nonempty⟩
    · exact ⟨_, some _, rfl, digits, places, .inl nonempty⟩
    · exact ⟨[], some _, rfl, List.forall_mem_nil _, places, .inr nonempty⟩
  · rintro ⟨whole, fraction, rfl, digits, places, nonempty⟩
    cases fraction with
    | none =>
      rw [Numeral.pointed, List.append_nil]
      exact .whole digits (nonempty.resolve_right (· rfl))
    | some es =>
      by_cases before : whole = []
      · subst before
        exact .fraction places (nonempty.resolve_left (· rfl))
      · exact .pointed digits before places

theorem isNumber_iff {cs : List Char} :
    IsNumber Char.isDigit cs ↔ ∃ n : Numeral, n.spelled = cs := by
  constructor
  · rintro (magnitude | magnitude)
    · obtain ⟨whole, fraction, rfl, digits, places, nonempty⟩ := isMagnitude_iff.mp magnitude
      exact ⟨⟨false, whole, fraction, digits, places, nonempty⟩, rfl⟩
    · obtain ⟨whole, fraction, rfl, digits, places, nonempty⟩ := isMagnitude_iff.mp magnitude
      exact ⟨⟨true, whole, fraction, digits, places, nonempty⟩, rfl⟩
  · rintro ⟨n, rfl⟩
    have magnitude := isMagnitude_iff.mpr
      ⟨n.whole, n.fraction, rfl, n.whole_digits, n.fraction_digits, n.has_digit⟩
    unfold Numeral.spelled signed
    split
    · exact .negative magnitude
    · exact .unsigned magnitude

/-- A decimal digit other than those of ASCII. -/
def IsForeign (c : Char) : Prop := isDecimalDigit c = true ∧ c.isDigit = false

instance : DecidablePred IsForeign := fun _ => inferInstanceAs (Decidable (_ ∧ _))

private theorem isApart_isDigit : IsApart Char.isDigit := fun unit => (stops_at_suffix unit).1

private theorem Length.IsSplit.read?_eq {token : String} {number : List Char} {unit : LengthUnit}
    (h : IsSplit Char.isDigit token number unit) {n : Numeral} (spelled : n.spelled = number) :
    read? token = some ⟨n.value, unit⟩ := by
  subst spelled
  exact read?_of_spelled h.spelled

private theorem Length.IsSplit.exists_read? {token : String} {number : List Char}
    {unit : LengthUnit}
    (h : IsSplit Char.isDigit token number unit) : ∃ l, read? token = some l := by
  obtain ⟨n, spelled⟩ := isNumber_iff.mp h.isNumber
  exact ⟨_, h.read?_eq spelled⟩

private theorem Length.exists_split_of_read? {token : String} {l : Length}
    (read : read? token = some l) : ∃ number, IsSplit Char.isDigit token number l.unit := by
  obtain ⟨n, spelled, -⟩ := exists_numeral_of_read? read
  exact ⟨n.spelled, isNumber_iff.mpr ⟨n, rfl⟩, spelled⟩

/-- A length in ASCII digits has no other digits, and no suffix has any. -/
theorem Length.IsSplit.not_isForeign {token : String} {number : List Char} {unit : LengthUnit}
    (h : IsSplit Char.isDigit token number unit) {c : Char} (member : c ∈ token.toList) :
    ¬ IsForeign c := by
  rintro ⟨decimal, other⟩
  rw [h.spelled] at member
  rcases List.mem_append.mp member with inNumber | inSuffix
  · rcases h.isNumber.digit_or_mark c inNumber with digit | rfl | rfl
    · rw [digit] at other
      cases other
    · exact absurd decimal (by decide)
    · exact absurd decimal (by decide)
  · have none : unit.suffix.toList.all (fun c => !isDecimalDigit c) = true := by
      cases unit <;> decide
    have solid := List.all_eq_true.mp none c inSuffix
    rw [decimal] at solid
    cases solid

private theorem Length.read?_eq_none_of_isForeign {token : String} {c : Char}
    (member : c ∈ token.toList) (foreign : IsForeign c) : read? token = none := by
  rw [Option.eq_none_iff_forall_ne_some]
  intro l read
  obtain ⟨number, split⟩ := exists_split_of_read? read
  exact split.not_isForeign member foreign

/-- A length in decimal digits of any script is read unless one of them is foreign. -/
theorem Length.IsSplit.read?_eq_none_iff {token : String} {number : List Char} {unit : LengthUnit}
    (h : IsSplit isDecimalDigit token number unit) :
    read? token = none ↔ ∃ c ∈ number, IsForeign c := by
  constructor
  · intro refused
    by_contra native
    have digits : ∀ c ∈ number, isDecimalDigit c = true → c.isDigit = true := by
      intro c member decimal
      by_contra other
      exact native ⟨c, member, decimal, eq_false_of_ne_true other⟩
    have narrow : IsSplit Char.isDigit token number unit :=
      ⟨h.isNumber.mono digits, h.spelled⟩
    obtain ⟨l, read⟩ := narrow.exists_read?
    rw [refused] at read
    cases read
  · rintro ⟨c, member, foreign⟩
    have inToken : c ∈ token.toList := by
      rw [h.spelled]
      exact List.mem_append_left _ member
    exact read?_eq_none_of_isForeign inToken foreign

/-- What the reading of a token comes to. -/
structure Length.IsReading (token : String) (result : Option Length) : Prop where
  succeeds_iff : (∃ l, result = some l) ↔ ∃ number unit, IsSplit Char.isDigit token number unit
  split_unique : ∀ {number other unit otherUnit}, IsSplit Char.isDigit token number unit →
    IsSplit Char.isDigit token other otherUnit → number = other ∧ unit = otherUnit
  unit_eq : ∀ {number unit l}, IsSplit Char.isDigit token number unit → result = some l →
    l.unit = unit
  /-- The value is the one double that is closest to the number. -/
  value_eq : ∀ {number unit l}, IsSplit Char.isDigit token number unit → result = some l →
    (∃ n : Numeral, n.spelled = number) ∧ ∀ n : Numeral, n.spelled = number →
      ∀ x, IsClosest n.negative n.magnitude x ↔ x = l.value
  /-- In decimal digits of any script there are more lengths than are read. -/
  refused_iff : ∀ {number unit}, IsSplit isDecimalDigit token number unit →
    (result = none ↔ ∃ c ∈ number, IsForeign c)
  foreign : (∃ c ∈ token.toList, IsForeign c) → result = none

theorem Length.read?_isReading : (∀ token, IsReading token (read? token)) ∧
    ∀ c, IsForeign c → ∀ unit, ∃ token,
      IsSplit isDecimalDigit token [c] unit ∧ read? token = none := by
  constructor
  · intro token
    refine { succeeds_iff := ⟨?_, ?_⟩, split_unique := IsSplit.unique isApart_isDigit,
             unit_eq := ?_, value_eq := ?_, refused_iff := IsSplit.read?_eq_none_iff,
             foreign := ?_ }
    · rintro ⟨l, read⟩
      obtain ⟨number, split⟩ := exists_split_of_read? read
      exact ⟨number, l.unit, split⟩
    · rintro ⟨number, unit, split⟩
      exact split.exists_read?
    · intro number unit l split read
      obtain ⟨n, spelled⟩ := isNumber_iff.mp split.isNumber
      cases (split.read?_eq spelled).symm.trans read
      rfl
    · intro number unit l split read
      refine ⟨isNumber_iff.mp split.isNumber, fun n spelled x => ?_⟩
      cases (split.read?_eq spelled).symm.trans read
      exact n.isClosest_iff
    · rintro ⟨c, member, foreign⟩
      exact read?_eq_none_of_isForeign member foreign
  · intro c foreign unit
    have isNumber : IsNumber isDecimalDigit [c] :=
      .unsigned (.whole (List.forall_mem_singleton.mpr foreign.1) (List.cons_ne_nil c []))
    have split : IsSplit isDecimalDigit (String.ofList (c :: unit.suffix.toList)) [c] unit :=
      ⟨isNumber, String.toList_ofList⟩
    exact ⟨_, split, split.read?_eq_none_iff.mpr ⟨c, List.mem_singleton_self c, foreign⟩⟩

/-- There are foreign digits, the Arabic ones for instance. -/
example : IsForeign '٣' := by decide +kernel

end MailMarkup
