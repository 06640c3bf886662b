import MailMarkup.Layout.Box
import MailMarkup.Proofs.BlankTrimming
import MailMarkup.Proofs.DecimalText
import MailMarkup.Proofs.Runs

/-!
# The spelling of lengths and widths

A length is spelled as a numeral with the suffix of its unit behind it. The boxes read widths in a
narrower spelling: no numeral has a sign there, and none starts or ends with its point. Of a plain
numeral both readers make the same number.
-/
namespace MailMarkup
open Decimal Text

/-- A number in digits, with digits on at least one side of its point. -/
structure Numeral where
  negative : Bool
  whole : List Char
  /-- The digits behind the point, if there is a point. -/
  fraction : Option (List Char)
  whole_digits : ∀ c ∈ whole, c.isDigit = true
  fraction_digits : ∀ c ∈ fraction.getD [], c.isDigit = true
  has_digit : whole ≠ [] ∨ fraction.getD [] ≠ []

namespace Numeral

def pointed : Option (List Char) → List Char
  | none => []
  | some digits => '.' :: digits

def spelled (n : Numeral) : List Char := signed n.negative (n.whole ++ pointed n.fraction)

def value (n : Numeral) : Float := numeral n.negative n.whole (n.fraction.getD [])

/-- The numeral starts with a digit and ends with one. -/
def IsPlain (n : Numeral) : Prop := n.negative = false ∧ n.whole ≠ [] ∧ n.fraction ≠ some []

instance (n : Numeral) : Decidable n.IsPlain := inferInstanceAs (Decidable (_ ∧ _ ∧ _))

private theorem digit_or_point_of_mem {n : Numeral} {c : Char}
    (member : c ∈ n.whole ++ pointed n.fraction) : c.isDigit = true ∨ c = '.' := by
  have digits := n.fraction_digits
  rcases List.mem_append.mp member with whole | fraction
  · exact .inl (n.whole_digits c whole)
  · cases point : n.fraction with
    | none =>
      rw [point] at fraction
      cases fraction
    | some ds =>
      rw [point] at fraction digits
      rcases List.mem_cons.mp fraction with rfl | fraction
      · exact .inr rfl
      · exact .inl (digits c fraction)

private theorem unsigned_ne_nil (n : Numeral) : n.whole ++ pointed n.fraction ≠ [] := by
  have someDigit := n.has_digit
  cases point : n.fraction with
  | none =>
    rw [point] at someDigit
    exact List.append_ne_nil_of_left_ne_nil (someDigit.resolve_right (· rfl)) _
  | some ds => exact List.append_ne_nil_of_right_ne_nil _ (List.cons_ne_nil '.' ds)

theorem spelled_ne_nil (n : Numeral) : n.spelled ≠ [] := by
  unfold spelled signed
  split
  · exact List.cons_ne_nil _ _
  · exact n.unsigned_ne_nil

end Numeral

open Numeral

private theorem suffix_of_ofSuffix? {suffix : String} {unit : LengthUnit}
    (h : LengthUnit.ofSuffix? suffix = some unit) : unit.suffix = suffix := by
  have found := List.find?_some h
  exact beq_iff_eq.mp found

/-- What is read behind a point is spelled there. -/
theorem exists_fraction_of_readFraction (cs : List Char) :
    ∃ fraction, cs = pointed fraction ++ (readFraction cs).2 ∧
      (readFraction cs).1 = fraction.getD [] ∧ ∀ c ∈ fraction.getD [], c.isDigit = true := by
  unfold readFraction
  split
  · next rest =>
    have run := IsRun.of_while Char.isDigit rest
    refine ⟨some (rest.takeWhile Char.isDigit), ?_, rfl, run.all⟩
    exact congrArg ('.' :: ·) List.takeWhile_append_dropWhile.symm
  · exact ⟨none, rfl, rfl, List.forall_mem_nil _⟩

private theorem exists_numeral_of_readMagnitude {negative : Bool} {cs : List Char} {l : Length}
    (h : Length.readMagnitude negative cs = some l) :
    ∃ n : Numeral, signed negative cs = n.spelled ++ l.unit.suffix.toList ∧ l.value = n.value := by
  unfold Length.readMagnitude at h
  dsimp only at h
  have run := IsRun.of_while Char.isDigit cs
  obtain ⟨fraction, split, read, digits⟩ := exists_fraction_of_readFraction (digitRun cs).2
  split at h
  · cases h
  · next someDigit =>
    rw [not_and_or, read] at someDigit
    obtain ⟨unit, found, rfl⟩ := Option.map_eq_some_iff.mp h
    refine ⟨⟨negative, (digitRun cs).1, fraction, run.all, digits, someDigit⟩, ?_, ?_⟩
    · have whole : cs = (digitRun cs).1 ++ (digitRun cs).2 := List.takeWhile_append_dropWhile.symm
      have suffix := congrArg String.toList (suffix_of_ofSuffix? found)
      rw [String.toList_ofList] at suffix
      have same : cs = (digitRun cs).1 ++ pointed fraction ++ unit.suffix.toList := by
        rw [suffix, List.append_assoc, ← split, ← whole]
      cases negative
      · exact same
      · exact congrArg ('-' :: ·) same
    · simp only [value, read]

/-- A length that is read is spelled as a numeral and a unit. -/
theorem exists_numeral_of_read? {token : String} {l : Length} (h : Length.read? token = some l) :
    ∃ n : Numeral, token.toList = n.spelled ++ l.unit.suffix.toList ∧ l.value = n.value := by
  unfold Length.read? at h
  split at h
  · next minus =>
    rw [minus]
    exact exists_numeral_of_readMagnitude h
  · exact exists_numeral_of_readMagnitude h

private theorem isBlank_of_mem_suffix (unit : LengthUnit) :
    ∀ c ∈ unit.suffix.toList, isBlank c = false := by
  cases unit <;> simp [LengthUnit.suffix, isBlank]

theorem solid_of_spelled (n : Numeral) (unit : LengthUnit) :
    ∀ c ∈ n.spelled ++ unit.suffix.toList, isBlank c = false := by
  intro c member
  rcases List.mem_append.mp member with number | suffix
  · rcases mem_signed number with rfl | unsigned
    · rfl
    · rcases digit_or_point_of_mem unsigned with digit | rfl
      · exact isBlank_of_isDigit digit
      · rfl
  · exact isBlank_of_mem_suffix unit c suffix

theorem stops_at_suffix (unit : LengthUnit) :
    unit.suffix.toList.head?.any Char.isDigit = false ∧ unit.suffix.toList.head? ≠ some '.' := by
  cases unit <;> decide

theorem ofSuffix?_suffix (unit : LengthUnit) : LengthUnit.ofSuffix? unit.suffix = some unit := by
  cases unit <;> rfl

/-- A point is read with the digits behind it, even if there are none. -/
theorem readFraction_pointed {fraction : Option (List Char)} {rest : List Char}
    (digits : ∀ c ∈ fraction.getD [], c.isDigit = true)
    (stops : rest.head?.any Char.isDigit = false) (noPoint : rest.head? ≠ some '.') :
    readFraction (pointed fraction ++ rest) = (fraction.getD [], rest) := by
  cases fraction with
  | none =>
    rw [pointed, List.nil_append, readFraction.eq_def]
    split
    · exact absurd rfl noPoint
    · rfl
  | some ds => exact digitRun_eq ⟨digits, stops⟩

private theorem isRun_whole (n : Numeral) (unit : LengthUnit) :
    IsRun Char.isDigit n.whole (pointed n.fraction ++ unit.suffix.toList) := by
  refine ⟨n.whole_digits, ?_⟩
  cases n.fraction with
  | none => exact (stops_at_suffix unit).1
  | some ds => rfl

private theorem readMagnitude_of_spelled (n : Numeral) (unit : LengthUnit) :
    Length.readMagnitude n.negative (n.whole ++ pointed n.fraction ++ unit.suffix.toList) =
      some ⟨n.value, unit⟩ := by
  obtain ⟨stops, noPoint⟩ := stops_at_suffix unit
  have fraction := readFraction_pointed n.fraction_digits stops noPoint
  have someDigit : ¬ (n.whole = [] ∧ n.fraction.getD [] = []) := not_and_or.mpr n.has_digit
  rw [Length.readMagnitude, List.append_assoc, digitRun_eq (isRun_whole n unit)]
  simp only [fraction, if_neg someDigit, String.ofList_toList, ofSuffix?_suffix, Option.map_some]
  rfl

private theorem no_minus {n : Numeral} {cs rest : List Char} :
    n.whole ++ pointed n.fraction ++ rest ≠ '-' :: cs := by
  intro same
  obtain ⟨c, _, first⟩ := List.exists_cons_of_ne_nil n.unsigned_ne_nil
  rw [first, List.cons_append] at same
  cases same
  have numeric := digit_or_point_of_mem (first ▸ List.mem_cons_self)
  revert numeric
  decide

/-- A numeral and a unit are read as the length that they spell. -/
theorem read?_of_spelled {token : String} {n : Numeral} {unit : LengthUnit}
    (spelled : token.toList = n.spelled ++ unit.suffix.toList) :
    Length.read? token = some ⟨n.value, unit⟩ := by
  have read := readMagnitude_of_spelled n unit
  rw [Length.read?, spelled, Numeral.spelled]
  cases sign : n.negative with
  | true => rwa [sign] at read
  | false =>
    rw [sign] at read
    split
    · next same => exact absurd same no_minus
    · exact read

private theorem dropBlanks_spelled (n : Numeral) (unit : LengthUnit) :
    dropBlanks (n.spelled ++ unit.suffix.toList) = n.spelled ++ unit.suffix.toList :=
  dropBlanks_of_solid (solid_of_spelled n unit)

private theorem readDecimals_of_no_point {cs : List Char} (noPoint : cs.head? ≠ some '.') :
    readDecimals cs = ([], cs) := by
  unfold readDecimals
  split
  · exact absurd rfl noPoint
  · rfl

/-- A point needs digits behind it to be read. -/
theorem readDecimals_pointed {fraction : Option (List Char)} {rest : List Char}
    (digits : ∀ c ∈ fraction.getD [], c.isDigit = true)
    (stops : rest.head?.any Char.isDigit = false) (noPoint : rest.head? ≠ some '.') :
    readDecimals (pointed fraction ++ rest) =
      if fraction = some [] then ([], '.' :: rest) else (fraction.getD [], rest) := by
  cases fraction with
  | none => exact readDecimals_of_no_point noPoint
  | some ds =>
    have run : IsRun Char.isDigit ds rest := ⟨digits, stops⟩
    have read : readDecimals ('.' :: (ds ++ rest)) =
        if (digitRun (ds ++ rest)).1 = [] then ([], '.' :: (ds ++ rest))
        else digitRun (ds ++ rest) := rfl
    rw [pointed, List.cons_append, read, digitRun_eq run]
    by_cases empty : ds = [] <;> simp [empty]

/-- The unit in which the boxes read a width. -/
def LengthUnit.ofWidth? : LengthUnit → Option LengthUnit
  | .em => none
  | .percent => some .percent
  | .px | .unitless => some .px

private theorem readWidthUnit_suffix (unit : LengthUnit) :
    (if dropBlanks (readWidthUnit (dropBlanks unit.suffix.toList)).2 ≠ [] then none
      else some (readWidthUnit (dropBlanks unit.suffix.toList)).1) = unit.ofWidth? := by
  cases unit <;> decide

/-- Boxes read the plain numerals, in pixels or percents. -/
theorem declaredWidth?_of_spelled {s : String} {n : Numeral} {unit : LengthUnit}
    (spelled : s.toList = n.spelled ++ unit.suffix.toList) :
    declaredWidth? s = if n.IsPlain then unit.ofWidth?.map (Length.mk n.value) else none := by
  obtain ⟨negative, whole, fraction, wholeDigits, fractionDigits, hasDigit⟩ := n
  obtain ⟨stops, noPoint⟩ := stops_at_suffix unit
  rw [declaredWidth?, spelled, dropBlanks_spelled]
  cases negative with
  | true => rfl
  | false =>
    have run : IsRun Char.isDigit whole (pointed fraction ++ unit.suffix.toList) :=
      isRun_whole ⟨false, whole, fraction, wholeDigits, fractionDigits, hasDigit⟩ unit
    have decimals := readDecimals_pointed fractionDigits stops noPoint
    simp only [Numeral.spelled, signed, Bool.false_eq_true, if_false, List.append_assoc,
      digitRun_eq run, decimals]
    by_cases noWhole : whole = []
    · simp [noWhole, Numeral.IsPlain]
    · by_cases noFraction : fraction = some []
      · have point : readWidthUnit (dropBlanks ('.' :: unit.suffix.toList)) =
            (.px, '.' :: unit.suffix.toList) := rfl
        have rest : dropBlanks ('.' :: unit.suffix.toList) ≠ [] := List.cons_ne_nil _ _
        simp [noFraction, Numeral.IsPlain, point, rest]
      · have plain : Numeral.IsPlain
            ⟨false, whole, fraction, wholeDigits, fractionDigits, hasDigit⟩ :=
          ⟨rfl, noWhole, noFraction⟩
        simp only [if_neg noFraction, if_pos plain, noWhole, false_or, ← readWidthUnit_suffix unit]
        split <;> rfl

end MailMarkup
