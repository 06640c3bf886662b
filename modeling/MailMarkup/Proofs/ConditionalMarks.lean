import MailMarkup.Proofs.MarkOccurrences
import MailMarkup.Proofs.WrittenTags

/-!
# Texts without conditional marks

Of the start mark of a conditional section only its first characters `<!--[` count here, and of the
end mark only its last ones. A character that occurs in neither splits a text into parts that cannot
hold a mark together, so templates that put texts without marks between such characters make a text
without marks.
-/
namespace MailMarkup.Markup

/-- The start of the one mark and the end of the other. -/
def markCores : List (List Char) := [['<', '!', '-', '-', '['], ['-', '-', '>']]

/-- Neither of the conditional marks is in the text. -/
def IsCalm (cs : List Char) : Prop := ∀ core ∈ markCores, ¬ core <:+: cs

instance (cs : List Char) : Decidable (IsCalm cs) :=
  inferInstanceAs (Decidable (∀ core ∈ markCores, ¬ core <:+: cs))

def isMarkChar (c : Char) : Bool := c == '<' || c == '!' || c == '-' || c == '[' || c == '>'

theorem not_mem_of_core {core : List Char} (isCore : core ∈ markCores) {c : Char}
    (other : isMarkChar c = false) : c ∉ core := by
  have all : ∀ core ∈ markCores, core.all isMarkChar = true := by decide
  intro member
  rw [List.all_eq_true.mp (all core isCore) c member] at other
  cases other

theorem ne_nil_of_core {core : List Char} (isCore : core ∈ markCores) : core ≠ [] := by
  have all : ∀ core ∈ markCores, core ≠ [] := by decide
  exact all core isCore

namespace IsCalm

variable {cs before after : List Char} {c : Char}

theorem part (calm : IsCalm cs) (within : before <:+: cs) : IsCalm before :=
  fun core isCore occurs => calm core isCore (occurs.trans within)

/-- Each mark has a `<` or a `>`. -/
theorem of_no_angle (none : ∀ c ∈ cs, c ≠ '<' ∧ c ≠ '>') : IsCalm cs := by
  have angle : ∀ core ∈ markCores, '<' ∈ core ∨ '>' ∈ core := by decide
  intro core isCore occurs
  rcases angle core isCore with member | member
  · exact (none _ (occurs.subset member)).1 rfl
  · exact (none _ (occurs.subset member)).2 rfl

theorem append_cons_iff (other : isMarkChar c = false) :
    IsCalm (before ++ c :: after) ↔ IsCalm before ∧ IsCalm after := by
  simp only [IsCalm, ← forall₂_and, ← not_or]
  refine forall₂_congr fun core isCore => not_congr ?_
  exact infix_append_cons_iff (not_mem_of_core isCore other)

theorem cons_iff (other : isMarkChar c = false) : IsCalm (c :: cs) ↔ IsCalm cs := by
  have nil : IsCalm [] := of_no_angle (by simp)
  have split : IsCalm ([] ++ c :: cs) ↔ IsCalm [] ∧ IsCalm cs := append_cons_iff other
  simpa [nil] using split

theorem append_iff (others : ∀ c ∈ before, isMarkChar c = false) :
    IsCalm (before ++ after) ↔ IsCalm after := by
  induction before with
  | nil => rfl
  | cons c before ih =>
    obtain ⟨here, below⟩ := List.forall_mem_cons.mp others
    rw [List.cons_append, cons_iff here, ih below]

/-- No mark ends with a dash. -/
theorem concat_dash (calm : IsCalm cs) : IsCalm (cs ++ ['-']) := by
  have last : ∀ core ∈ markCores, core.getLast? ≠ some '-' := by decide
  intro core isCore occurs
  refine calm core isCore ?_
  exact (infix_concat_iff_of_last (ne_nil_of_core isCore) (last core isCore)).mp occurs

end IsCalm

/-- Neither angle is in the text. -/
def HasNoAngle (s : String) : Prop := ∀ c ∈ s.toList, c ≠ '<' ∧ c ≠ '>'

instance (s : String) : Decidable (HasNoAngle s) :=
  List.decidableBAll (fun c => c ≠ '<' ∧ c ≠ '>') s.toList

theorem isCalm_of_hasNoAngle {s : String} (h : HasNoAngle s) : IsCalm s.toList := .of_no_angle h

/-- No conditional mark is in the value, if there is one. -/
def IsCalmValue (value : Option String) : Prop := ∀ text ∈ value, IsCalm text.toList

theorem isCalmValue_none : IsCalmValue none := by
  intro text some
  cases some

@[simp] theorem isCalmValue_some (text : String) :
    IsCalmValue (some text) ↔ IsCalm text.toList := by
  simp [IsCalmValue]

/-- A tag that is known to be read as it was meant, with no conditional mark in any value. -/
def Tag.IsCalm : Tag → Prop
  | .opening name attributes =>
    (IsName name ∧ name ∉ voidNames) ∧ ∀ a ∈ attributes, IsName a.1 ∧ IsCalmValue a.2
  | .closing name => IsName name
  | .void name attributes => IsName name ∧ ∀ a ∈ attributes, IsName a.1 ∧ IsCalmValue a.2

namespace Tag

@[simp] theorem isCalm_opening (name : String) (attributes : Attributes) :
    (opening name attributes).IsCalm ↔
      (IsName name ∧ name ∉ voidNames) ∧ ∀ a ∈ attributes, IsName a.1 ∧ IsCalmValue a.2 :=
  Iff.rfl

@[simp] theorem isCalm_closing (name : String) : (closing name).IsCalm ↔ IsName name := Iff.rfl

@[simp] theorem isCalm_void (name : String) (attributes : Attributes) :
    (void name attributes).IsCalm ↔
      IsName name ∧ ∀ a ∈ attributes, IsName a.1 ∧ IsCalmValue a.2 :=
  Iff.rfl

end Tag

theorem Tag.IsCalm.isPlain {t : Tag} (calm : t.IsCalm) : t.IsPlain := by
  cases t with
  | opening name attributes => exact ⟨calm.1.1, calm.1.2, fun a member => (calm.2 a member).1⟩
  | closing name => exact calm
  | void name attributes => exact ⟨calm.1, fun a member => (calm.2 a member).1⟩

private theorem IsName.isMarkChar {name : String} (h : IsName name) :
    ∀ c ∈ name.toList, isMarkChar c = false := by
  intro c member
  have lower := h.2 c member
  by_contra mark
  rw [Bool.not_eq_false] at mark
  simp only [Markup.isMarkChar, Bool.or_eq_true, beq_iff_eq] at mark
  rcases mark with (((rfl | rfl) | rfl) | rfl) | rfl <;> cases lower

theorem IsName.isCalm {name : String} (h : IsName name) : IsCalm name.toList := by
  have nil : IsCalm [] := .of_no_angle (List.forall_mem_nil _)
  have whole := (IsCalm.append_iff h.isMarkChar).mpr nil
  rwa [List.append_nil] at whole

private theorem isCalm_attributesText_append {attributes : Attributes} {rest : List Char}
    (attributesCalm : ∀ a ∈ attributes, IsName a.1 ∧ IsCalmValue a.2) (calm : IsCalm rest) :
    IsCalm ((attributesText attributes).toList ++ rest) := by
  have others : ∀ c ∈ frameChars, isMarkChar c = false := by simp [frameChars, isMarkChar]
  intro core isCore
  have named : ∀ a ∈ attributes, ¬ core <:+: a.1.toList :=
    fun a member => (attributesCalm a member).1.isCalm core isCore
  rw [infix_attributesText_append_iff (ne_nil_of_core isCore)
    (fun c member => not_mem_of_core isCore (others c member)) named]
  rintro (⟨a, member, value, isSet, occurs⟩ | occurs)
  · exact (attributesCalm a member).2 value isSet core isCore occurs
  · exact calm core isCore occurs

private theorem isCalm_name_append {name : String} (h : IsName name) {rest : List Char}
    (calm : IsCalm rest) : IsCalm ('<' :: (name.toList ++ rest)) := by
  obtain ⟨c, cs, same, -⟩ := h.exists_cons
  have plain := h.isMarkChar
  rw [same] at plain ⊢
  obtain ⟨here, below⟩ := List.forall_mem_cons.mp plain
  have angle : IsCalm ['<'] := by decide
  have split : IsCalm (['<'] ++ c :: (cs ++ rest)) ↔ IsCalm ['<'] ∧ IsCalm (cs ++ rest) :=
    IsCalm.append_cons_iff here
  exact split.mpr ⟨angle, (IsCalm.append_iff below).mpr calm⟩

/-- A tag whose values have no conditional mark has none. -/
theorem Tag.isCalm_text {t : Tag} (calm : t.IsCalm) : Markup.IsCalm t.text.toList := by
  have ends : Markup.IsCalm ['>'] := by decide
  cases t with
  | opening name attributes =>
    have inner := isCalm_attributesText_append calm.2 ends
    simpa [Tag.text] using isCalm_name_append calm.1.1 inner
  | closing name =>
    have slash : Markup.IsCalm (['<'] ++ '/' :: (name.toList ++ ['>'])) :=
      (IsCalm.append_cons_iff (by decide)).mpr
        ⟨by decide, (IsCalm.append_iff (IsName.isMarkChar calm)).mpr ends⟩
    simpa [Tag.text] using slash
  | void name attributes =>
    have slash : Markup.IsCalm [' ', '/', '>'] := by decide
    have inner := isCalm_attributesText_append calm.2 slash
    simpa [Tag.text] using isCalm_name_append calm.1 inner

end MailMarkup.Markup
