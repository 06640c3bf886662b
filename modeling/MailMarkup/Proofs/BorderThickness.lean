import MailMarkup.Layout.Box
import MailMarkup.Proofs.NearestDouble
import MailMarkup.Proofs.WordSplitting

/-!
# The thickness of borders

A border declaration is scanned by characters, but its thickness is a matter of its words: it is
the number that the first word with a digit at its start begins with. The words behind it do not
count, even if the number is not in ASCII digits. A side of a border with a declaration of its own
has that thickness, be it a declaration without a number, and any other side has the common one.
-/
namespace MailMarkup
open Decimal Text

def startsWithDigit (word : String) : Bool := word.toList.head?.any isDecimalDigit

def leadingRun (word : String) : List Char := word.toList.takeWhile isDecimalDigit

/-- No blank is a digit, so a run of digits ends with its word or before. -/
theorem takeWhile_isDecimalDigit_word (cs : List Char) :
    (cs.takeWhile (!isBlank ·)).takeWhile isDecimalDigit = cs.takeWhile isDecimalDigit := by
  rw [List.takeWhile_takeWhile]
  congr 1
  funext c
  cases digit : isDecimalDigit c with
  | false => simp
  | true => simp [isBlank_of_isDecimalDigit digit]

/-- Inside of a word no run starts, and the scan goes on with the words behind it. -/
theorem leadingDigits_words (atStart : Bool) (cs : List Char) :
    leadingDigits atStart cs =
      ((words (if atStart then cs else cs.dropWhile (!isBlank ·))).find?
        (·.head?.any isDecimalDigit)).map (·.takeWhile isDecimalDigit) := by
  induction cs generalizing atStart with
  | nil => cases atStart <;> rfl
  | cons c cs ih =>
    rw [leadingDigits, ih]
    cases here : isBlank c with
    | true =>
      have noDigit := isDecimalDigit_of_isBlank here
      cases atStart <;> simp [here, noDigit, words_of_isBlank]
    | false =>
      cases atStart with
      | false => simp [here]
      | true =>
        have run := takeWhile_isDecimalDigit_word cs
        cases digit : isDecimalDigit c <;> simp [digit, run, words_cons_of_solid here]

theorem leadingDigits_eq (s : String) :
    leadingDigits true s.toList = ((wordsOf s).find? startsWithDigit).map leadingRun := by
  have same : startsWithDigit ∘ String.ofList = (·.head?.any isDecimalDigit) := by
    funext word
    exact congrArg (·.head?.any isDecimalDigit) String.toList_ofList
  have run : leadingRun ∘ String.ofList = (·.takeWhile isDecimalDigit) := by
    funext word
    exact congrArg (·.takeWhile isDecimalDigit) String.toList_ofList
  rw [leadingDigits_words, if_pos rfl, wordsOf, List.find?_map, Option.map_map, same, run]

/-- A number is the thickness of a border declaration. -/
inductive IsThickness (s : String) : Float → Prop
  | named {word : String} {x : Float} (first : (wordsOf s).find? startsWithDigit = some word)
    (digits : ∀ d ∈ leadingRun word, d.isDigit = true)
    (closest : IsClosest false (digitsValue (leadingRun word)) x) : IsThickness s x
  | foreign {word : String} (first : (wordsOf s).find? startsWithDigit = some word)
    (other : ∃ d ∈ leadingRun word, d.isDigit = false) : IsThickness s 0
  | unnamed (none : ∀ word ∈ wordsOf s, startsWithDigit word = false) : IsThickness s 0

private theorem isClosest_whole_iff {digits : List Char} {x : Float} :
    IsClosest false (digitsValue digits) x ↔ x = numeral false digits [] := by
  have unpointed : (digitsValue digits : Rat) =
      digitsValue (digits ++ []) / 10 ^ ([] : List Char).length := by simp
  rw [unpointed]
  exact isClosest_iff

theorem borderThickness_isThickness (s : String) : IsThickness s (borderThickness s) := by
  rw [borderThickness, leadingDigits_eq]
  cases first : (wordsOf s).find? startsWithDigit with
  | none =>
    refine .unnamed fun word member => ?_
    exact eq_false_of_ne_true (List.find?_eq_none.mp first word member)
  | some word =>
    dsimp only [Option.map_some]
    split
    · next digits => exact .named first (List.all_eq_true.mp digits) (isClosest_whole_iff.mpr rfl)
    · next other =>
      rw [List.all_eq_true] at other
      push Not at other
      obtain ⟨d, member, foreign⟩ := other
      exact .foreign first ⟨d, member, eq_false_of_ne_true foreign⟩

private theorem IsThickness.eq {s : String} {x : Float} (h : IsThickness s x) :
    x = borderThickness s := by
  rw [borderThickness, leadingDigits_eq]
  cases h with
  | named first digits closest =>
    simp only [first, Option.map_some, List.all_eq_true.mpr digits, if_true]
    exact isClosest_whole_iff.mp closest
  | @foreign word first other =>
    have mixed : (leadingRun word).all Char.isDigit = false := by simpa using other
    simp [first, mixed]
  | unnamed none =>
    have first : (wordsOf s).find? startsWithDigit = Option.none := by simpa using none
    rw [first]
    rfl

theorem borderThickness_nonneg (s : String) : 0 ≤ borderThickness s := by
  have zero : (0 : Float) ≤ 0 := by decide +kernel
  unfold borderThickness
  split
  · split
    · exact numeral_nonneg _ []
    · exact zero
  · exact zero

namespace Border

/-- A side with this declaration of its own has this thickness. -/
inductive IsSide (b : Border) : Option String → Float → Prop
  | own {text : String} (nonempty : text ≠ "") : IsSide b (some text) (borderThickness text)
  | common {own : Option String} {text : String} (absent : own = none ∨ own = some "")
    (shared : b.common = some text) : IsSide b own (borderThickness text)
  | bare {own : Option String} (absent : own = none ∨ own = some "")
    (none : b.common = none) : IsSide b own 0

theorem thickness_of_absent {b : Border} {own : Option String}
    (absent : own = none ∨ own = some "") :
    b.thickness own = (b.common.map borderThickness).getD 0 := by
  rcases absent with rfl | rfl <;> rfl

theorem thickness_of_nonempty {b : Border} {text : String} (nonempty : text ≠ "") :
    b.thickness (some text) = borderThickness text := by
  have kept : (some text).filter (fun s => decide (s ≠ "")) = some text :=
    Option.filter_some_pos (decide_eq_true nonempty)
  rw [thickness, kept]
  rfl

private theorem isSide_thickness (b : Border) (own : Option String) :
    b.IsSide own (b.thickness own) := by
  by_cases absent : own = none ∨ own = some ""
  · rw [thickness_of_absent absent]
    cases shared : b.common with
    | none => exact .bare absent shared
    | some text => exact .common absent shared
  · push Not at absent
    obtain ⟨text, rfl⟩ := Option.ne_none_iff_exists'.mp absent.1
    have nonempty : text ≠ "" := fun empty => absent.2 (congrArg some empty)
    rw [thickness_of_nonempty nonempty]
    exact .own nonempty

theorem isSide_iff {b : Border} {own : Option String} {x : Float} :
    b.IsSide own x ↔ x = b.thickness own := by
  constructor
  · rintro (nonempty | ⟨absent, shared⟩ | ⟨absent, none⟩)
    · exact (thickness_of_nonempty nonempty).symm
    · rw [thickness_of_absent absent, shared]
      rfl
    · rw [thickness_of_absent absent, none]
      rfl
  · rintro rfl
    exact b.isSide_thickness own

/-- A word without digits is a declaration, so the common one does not count. -/
example : (Border.mk (some "4px solid") (some "none") none).thickness (some "none") = 0 := by cbv

/-- Borders are as thick as their words say, and a box counts the left one and the right one. -/
theorem horizontal_follows_words :
    (∀ s, 0 ≤ borderThickness s ∧ ∀ x, IsThickness s x ↔ x = borderThickness s) ∧
      ∀ b : Border, ∃ left right, (∀ x, b.IsSide b.left x ↔ x = left) ∧
        (∀ x, b.IsSide b.right x ↔ x = right) ∧ b.horizontal = left + right := by
  constructor
  · refine fun s => ⟨borderThickness_nonneg s, fun x => ⟨IsThickness.eq, ?_⟩⟩
    rintro rfl
    exact borderThickness_isThickness s
  · exact fun b => ⟨_, _, fun x => isSide_iff, fun x => isSide_iff, rfl⟩

end Border
end MailMarkup
