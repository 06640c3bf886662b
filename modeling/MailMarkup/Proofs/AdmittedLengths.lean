import MailMarkup.Proofs.LengthLists

/-!
# Lengths that are set

A value that is set was read from a text at the type of its attribute. A rule for a single length
sets one that it admits, and a rule for pixels admits nothing else, so the width of a body is a
number of pixels.
-/
namespace MailMarkup
open Text

namespace LengthRule

/-- A single length that is read is one that the rule admits. -/
theorem exists_admitted_of_read? {rule : LengthRule} {s : String} {l : Length}
    (h : rule.read? s = some (.length l)) : ∃ found, rule.admit? found = some l := by
  obtain ⟨lengths, read, h⟩ := Option.bind_eq_some_iff.mp h
  have first : lengths.head? = some l := by
    split at h
    · cases h
    · obtain ⟨head, found, same⟩ := Option.map_eq_some_iff.mp h
      cases same
      exact found
  unfold readAll? at read
  split at read
  · have taken := mapM_eq_some_iff.mp read
    generalize wordsOf s = tokens at taken
    cases taken with
    | nil => cases first
    | cons one others =>
      cases first
      obtain ⟨found, -, admitted⟩ := Option.bind_eq_some_iff.mp one
      exact ⟨found, admitted⟩
  · cases read

theorem exists_length_of_read? {rule : LengthRule} {s : String} {value : Value}
    (single : rule.isShorthand = false) (h : rule.read? s = some value) :
    ∃ l, value = .length l := by
  obtain ⟨lengths, -, h⟩ := Option.bind_eq_some_iff.mp h
  rw [single] at h
  obtain ⟨l, -, same⟩ := Option.map_eq_some_iff.mp h
  exact ⟨l, same.symm⟩

/-- A bare zero counts as a number of pixels, and no other unit is admitted. -/
theorem unit_of_admit? {rule : LengthRule} {l admitted : Length} (pixels : rule.units = [.px])
    (h : rule.admit? l = some admitted) : admitted.unit = .px := by
  have units : rule.units ≠ [] := by simp [pixels]
  have member := (admits_of_admit? units h).unit_mem
  rwa [pixels, List.mem_singleton] at member

end LengthRule

namespace Resolution

variable {defaults own : Table String}

/-- What is set for an attribute was read from its text at the type of the attribute. -/
theorem exists_raw_of_value? {c : Component} {name : String} {value : Value}
    (h : (resolve c defaults own).value? name = some value) :
    ∃ type text, c.typeOf? name = some type ∧ (resolve c defaults own).raw? name = some text ∧
      Value.read? type text = some value := by
  obtain ⟨setting, looked, rfl⟩ := Option.map_eq_some_iff.mp h
  obtain ⟨type, picked, declared, -, raw, read⟩ := exists_picked_of_get? looked
  rw [← raw] at read
  exact ⟨type, setting.raw, declared, congrArg (Option.map Setting.raw) looked, read⟩

private theorem exists_text_of_value? {c : Component} {name : String} {type : AttributeType}
    {value : Value} (typed : c.typeOf? name = some type)
    (h : (resolve c defaults own).value? name = some value) :
    ∃ text, Value.read? type text = some value := by
  obtain ⟨found, text, declared, -, read⟩ := exists_raw_of_value? h
  cases typed.symm.trans declared
  exact ⟨text, read⟩

theorem exists_width_text_of_value? {value : Value}
    (h : (resolve .body defaults own).value? "width" = some value) :
    ∃ text, LengthRule.read? ⟨Component.px, false, 1, 1⟩ text = some value := by
  have typed : Component.body.typeOf? "width" = some (.length Component.px) := by decide
  exact exists_text_of_value? typed h

/-- The width of a body is a number of pixels, if it is set. -/
theorem exists_px_of_value? {value : Value}
    (h : (resolve .body defaults own).value? "width" = some value) :
    ∃ w, value = .length (.px w) := by
  obtain ⟨text, read⟩ := exists_width_text_of_value? h
  obtain ⟨⟨w, unit⟩, rfl⟩ := LengthRule.exists_length_of_read? rfl read
  obtain ⟨found, admitted⟩ := LengthRule.exists_admitted_of_read? read
  cases LengthRule.unit_of_admit? rfl admitted
  exact ⟨w, rfl⟩

end Resolution

end MailMarkup
