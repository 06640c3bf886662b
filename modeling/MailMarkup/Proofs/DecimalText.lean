import MailMarkup.Length
import Mathlib.Data.List.TakeWhile

/-!
# The characters of a written number

A number is written with digits, a point and a minus sign. Only what is not finite is written with
letters, and no other characters occur.
-/
namespace MailMarkup

namespace Decimal

/-- A digit, a point or a minus sign. -/
def IsNumeric (c : Char) : Prop := c.isDigit = true ∨ c = '.' ∨ c = '-'

theorem isDigit_of_mem_digitText {n : Nat} {c : Char} (member : c ∈ digitText n) :
    c.isDigit = true :=
  Nat.isDigit_of_mem_toDigits (by decide) (by decide) member

private theorem isNumeric_of_mem_withPoint {digits : List Char}
    (all : ∀ c ∈ digits, c.isDigit = true)
    (places : Nat) {c : Char} (member : c ∈ withPoint digits places) : IsNumeric c := by
  unfold withPoint at member
  split at member
  · rcases List.mem_append.mp member with whole | fraction
    · exact .inl (all c (List.mem_of_mem_take whole))
    · rcases List.mem_cons.mp fraction with point | fraction
      · exact .inr (.inl point)
      · exact .inl (all c (List.mem_of_mem_drop fraction))
  · rcases List.mem_cons.mp member with rfl | member
    · exact .inl rfl
    rcases List.mem_cons.mp member with point | member
    · exact .inr (.inl point)
    rcases List.mem_append.mp member with zeros | digits
    · rw [List.eq_of_mem_replicate zeros]
      exact .inl rfl
    · exact .inl (all c digits)

private theorem isNumeric_of_mem_positional {s : Scientific} {c : Char}
    (member : c ∈ s.positional) : IsNumeric c := by
  unfold Scientific.positional at member
  split at member
  · rcases List.mem_append.mp member with digits | zeros
    · exact .inl (isDigit_of_mem_digitText digits)
    · rw [List.eq_of_mem_replicate zeros]
      exact .inl rfl
  · exact isNumeric_of_mem_withPoint (fun _ => isDigit_of_mem_digitText) _ member

theorem mem_signed {negative : Bool} {cs : List Char} {c : Char} (member : c ∈ signed negative cs) :
    c = '-' ∨ c ∈ cs := by
  cases negative with
  | false => exact .inr member
  | true => exact List.mem_cons.mp member

private theorem isNumeric_of_mem_written {negative : Bool} {significand : Nat} {exponent : Int}
    {c : Char}
    (member : c ∈ (Parts.finite negative significand exponent).written) : IsNumeric c := by
  rcases mem_signed member with minus | member
  · exact .inr (.inr minus)
  · split at member
    · cases List.mem_singleton.mp member
      exact .inl rfl
    · exact isNumeric_of_mem_positional member

/-- The letters of what is not finite. -/
theorem mem_written {parts : Parts} {c : Char} (member : c ∈ parts.written) :
    IsNumeric c ∨ c ∈ ['i', 'n', 'f', 'N', 'a'] := by
  cases parts with
  | finite => exact .inl (isNumeric_of_mem_written member)
  | infinite negative =>
    rcases mem_signed member with minus | letter
    · exact .inl (.inr (.inr minus))
    · have among : ['i', 'n', 'f'] ⊆ ['i', 'n', 'f', 'N', 'a'] := by decide
      exact .inr (among letter)
  | nan =>
    have among : ['N', 'a', 'N'] ⊆ ['i', 'n', 'f', 'N', 'a'] := by decide
    exact .inr (among member)

open Float.Model in
/-- The highest exponent is that of what is not finite. -/
theorem biased_of_isFinite {x : Float} (finite : x.isFinite = true) :
    x.toBits.toNat / twoTo 52 % twoTo 11 ≠ twoTo 11 - 1 := by
  let bits := x.toModel.toBits.toBitVec
  have biased : (@UnpackedFloat.unpackExponent Format.binary64 bits).toNat =
      x.toBits.toNat / twoTo 52 % twoTo 11 := by
    simp only [UnpackedFloat.unpackExponent, BitVec.toNat_cast, BitVec.extractLsb_toNat,
      Nat.shiftRight_eq_div_pow]
    rfl
  intro special
  have exponent : @UnpackedFloat.unpackExponent Format.binary64 bits = -1#11 := by
    apply BitVec.eq_of_toNat_eq
    rw [biased, special]
    rfl
  have finite : (UnpackedFloat.unpack Format.binary64 bits).isFinite = true := finite
  unfold UnpackedFloat.unpack at finite
  dsimp only at finite
  rw [if_pos exponent] at finite
  split at finite <;> cases finite

/-- A finite double is finite to the reader of its bits. -/
theorem partsOf_of_isFinite {x : Float} (finite : x.isFinite = true) :
    ∃ negative significand exponent, partsOf x = .finite negative significand exponent := by
  unfold partsOf
  dsimp only
  rw [if_neg (biased_of_isFinite finite)]
  split <;> exact ⟨_, _, _, rfl⟩

theorem isNumeric_of_mem_text {x : Float} (finite : x.isFinite = true) {c : Char}
    (member : c ∈ (text x).toList) : IsNumeric c := by
  obtain ⟨negative, significand, exponent, parts⟩ := partsOf_of_isFinite finite
  rw [text, parts, String.toList_ofList] at member
  exact isNumeric_of_mem_written member

theorem isNumeric_of_mem_wholeText {x : Float} (finite : x.isFinite = true) {c : Char}
    (member : c ∈ (wholeText x).toList) : IsNumeric c := by
  rw [wholeText, String.toList_ofList] at member
  refine isNumeric_of_mem_text finite ?_
  rw [text, String.toList_ofList]
  exact (List.takeWhile_prefix _).subset member

end Decimal
end MailMarkup
