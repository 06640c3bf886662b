import MailMarkup.Proofs.DecimalReading
import MailMarkup.Proofs.LengthLists

/-!
# Printed lengths

A length with a finite value is printed as one word, which is read back as that length. A rule that
lists its unit and allows its sign takes it unchanged, so that validating what was printed gives
back what was printed, for one length and for a list of them.
-/
namespace MailMarkup
open Decimal Text

private theorem Length.exists_spelled {l : Length} (finite : l.value.isFinite = true) :
    ∃ n : Numeral, l.text.toList = n.spelled ++ l.unit.suffix.toList ∧ n.value = l.value := by
  obtain ⟨n, spelled, value⟩ := exists_numeral_of_isFinite finite
  exact ⟨n, by rw [Length.text, String.toList_append, spelled], value⟩

theorem Length.read?_text {l : Length} (finite : l.value.isFinite = true) :
    Length.read? l.text = some l := by
  obtain ⟨n, spelled, value⟩ := exists_spelled finite
  rw [read?_of_spelled spelled, value]

/-- A printed length is a word. -/
theorem Length.wordsOf_text {l : Length} (finite : l.value.isFinite = true) :
    wordsOf l.text = [l.text] := by
  obtain ⟨n, spelled, -⟩ := exists_spelled finite
  have nonempty : l.text.toList ≠ [] := by
    rw [spelled]
    exact List.append_ne_nil_of_left_ne_nil n.spelled_ne_nil _
  have solid := solid_of_spelled n l.unit
  rw [← spelled] at solid
  rw [wordsOf, words_of_solid solid nonempty, List.map_singleton, String.ofList_toList]

/-- The rule lists the unit of a finite length and allows its sign. -/
structure LengthRule.Declares (r : LengthRule) (l : Length) : Prop where
  finite : l.value.isFinite = true
  unit : l.unit ∈ r.units
  sign : l.value < 0 → r.signed = true

theorem LengthRule.Declares.takes {r : LengthRule} {l : Length} (h : r.Declares l) :
    (Length.read? l.text).bind r.admit? = some l := by
  rw [Length.read?_text h.finite, Option.bind_some]
  exact (LengthRule.Admits.declared h.sign h.unit).admit?

theorem LengthRule.readAll?_texts {r : LengthRule} {lengths : List Length}
    (each : ∀ l ∈ lengths, r.Declares l) (least : r.least ≤ lengths.length)
    (most : lengths.length ≤ r.most) : r.readAll? (lengths.map Length.text) = some lengths := by
  rw [readAll?, List.length_map, if_pos ⟨least, most⟩, mapM_eq_some_iff, List.forall₂_map_left_iff,
    List.forall₂_same]
  exact fun l member => (each l member).takes

private theorem wordsOf_texts {r : LengthRule} {lengths : List Length}
    (each : ∀ l ∈ lengths, r.Declares l) :
    wordsOf (joined " " (lengths.map Length.text)) = lengths.map Length.text := by
  apply wordsOf_joined
  rw [List.forall_mem_map]
  exact fun l member => Length.wordsOf_text (each l member).finite

/-- Lengths are read back as they were printed. -/
theorem Value.ofRaw_texts (name : String) (r : LengthRule) :
    (∀ l, r.Declares l → r.least ≤ 1 → r.most = 1 →
      ofRaw name l.text (.lengths r) = .ok (.length l)) ∧
    ∀ lengths, (∀ l ∈ lengths, r.Declares l) → 1 < r.most → r.least ≤ lengths.length →
      lengths.length ≤ r.most →
      ofRaw name (joined " " (lengths.map Length.text)) (.lengths r) = .ok (.shorthand lengths) := by
  have read (raw : String) (lengths : List Length)
      (all : r.readAll? (wordsOf raw) = some lengths) : r.read? (trimmed raw) =
        if r.isShorthand then some (.shorthand lengths) else lengths.head?.map .length := by
    rw [LengthRule.read?, wordsOf_trimmed, all]
    rfl
  constructor
  · intro l declares least single
    have all : r.readAll? (wordsOf l.text) = some [l] := by
      rw [Length.wordsOf_text declares.finite]
      exact LengthRule.readAll?_texts (List.forall_mem_singleton.mpr declares) least single.ge
    rw [ofRaw_eq_ok_iff]
    exact (read _ _ all).trans (if_neg (by simp [LengthRule.isShorthand, single]))
  · intro lengths declares several least most
    have all : r.readAll? (wordsOf (joined " " (lengths.map Length.text))) = some lengths := by
      rw [wordsOf_texts declares]
      exact LengthRule.readAll?_texts declares least most
    rw [ofRaw_eq_ok_iff]
    exact (read _ _ all).trans (if_pos (decide_eq_true several))

/-- A large value is printed without an exponent, and a zero with its sign. -/
theorem Value.ofRaw_texts_large :
    let one : LengthRule := ⟨[.percent, .px], false, 1, 1⟩
    let several : LengthRule := ⟨[.em, .unitless], true, 1, 4⟩
    ofRaw "width" "1000000000000000000000px" (.lengths one) = .ok (.length ⟨1e21, .px⟩) ∧
      ofRaw "margin" "-0.1em -0" (.lengths several) =
        .ok (.shorthand [⟨-0.1, .em⟩, ⟨-0.0, .unitless⟩]) := by
  intro one several
  have large : one.Declares ⟨1e21, .px⟩ :=
    { finite := by decide +kernel, unit := by decide, sign := by decide +kernel }
  have small : several.Declares ⟨-0.1, .em⟩ :=
    { finite := by decide +kernel, unit := by decide, sign := fun _ => rfl }
  have zero : several.Declares ⟨-0.0, .unitless⟩ :=
    { finite := by decide +kernel, unit := by decide, sign := fun _ => rfl }
  have both : ∀ l ∈ [⟨-0.1, .em⟩, ⟨-0.0, .unitless⟩], several.Declares l :=
    List.forall_mem_cons.mpr ⟨small, List.forall_mem_singleton.mpr zero⟩
  have text : Length.text ⟨1e21, .px⟩ = "1000000000000000000000px" := by decide +kernel
  have texts : joined " " ([⟨-0.1, .em⟩, ⟨-0.0, .unitless⟩].map Length.text) = "-0.1em -0" := by
    decide +kernel
  constructor
  · rw [← text]
    exact (ofRaw_texts "width" one).1 _ large (by decide) rfl
  · rw [← texts]
    exact (ofRaw_texts "margin" several).2 _ both (by decide) (by decide) (by decide)

end MailMarkup
