import MailMarkup.Proofs.TagNesting

/-!
# Written tags

A reader of a written tag opens and closes what the tag names, whatever the values of its attributes
are: a value holds no double quote, so nothing in it ends the value or the tag.
-/
namespace MailMarkup.Markup
open Text

/-- A name in small letters, as tags and attributes have them. -/
def IsName (name : String) : Prop := name.toList ≠ [] ∧ ∀ c ∈ name.toList, c.isLower = true

instance (name : String) : Decidable (IsName name) :=
  @instDecidableAnd _ _ inferInstance (List.decidableBAll (fun c => c.isLower = true) name.toList)

namespace Tag

/-- The tags of which it is known without a look at their values what they open and close. -/
def IsPlain : Tag → Prop
  | .opening name attributes =>
    IsName name ∧ name ∉ voidNames ∧ ∀ a ∈ attributes, IsName a.1
  | .closing name => IsName name
  | .void name attributes => IsName name ∧ ∀ a ∈ attributes, IsName a.1

def settle (t : Tag) (unclosed : Unclosed) : Option Unclosed :=
  match t with
  | .opening name _ => some (name.toList :: unclosed)
  | .closing name => close name.toList unclosed
  | .void .. => some unclosed

end Tag

namespace Reader

/-- A text in which a tag that is read neither ends nor is left in the middle of a value. -/
def StaysInTag (cs : List Char) : Prop :=
  ∀ seen unclosed, read ⟨.tag false seen, unclosed⟩ cs =
    some ⟨.tag false (cs.reverse ++ seen), unclosed⟩

variable {cs others : List Char}

theorem StaysInTag.append (h : StaysInTag cs) (h' : StaysInTag others) :
    StaysInTag (cs ++ others) := by
  intro seen unclosed
  rw [read_append, h, Option.bind_some, h', List.reverse_append, List.append_assoc]

private theorem staysInTag_of_plain (plain : ∀ c ∈ cs, c ≠ '"' ∧ c ≠ '>') : StaysInTag cs := by
  induction cs with
  | nil => exact fun _ _ => rfl
  | cons c cs ih =>
    intro seen unclosed
    obtain ⟨⟨quote, angle⟩, below⟩ := List.forall_mem_cons.mp plain
    have stays : step ⟨.tag false seen, unclosed⟩ c = some ⟨.tag false (c :: seen), unclosed⟩ := by
      simp [step, quote, angle]
    rw [read_cons, stays, Option.bind_some, ih below, List.reverse_cons, List.append_assoc]
    rfl

private theorem read_value (value : ∀ c ∈ cs, c ≠ '"') (seen : List Char) (unclosed : Unclosed) :
    read ⟨.tag true seen, unclosed⟩ cs = some ⟨.tag true (cs.reverse ++ seen), unclosed⟩ := by
  induction cs generalizing seen with
  | nil => rfl
  | cons c cs ih =>
    obtain ⟨quote, below⟩ := List.forall_mem_cons.mp value
    have stays : step ⟨.tag true seen, unclosed⟩ c = some ⟨.tag true (c :: seen), unclosed⟩ := by
      simp [step, quote]
    rw [read_cons, stays, Option.bind_some, ih below, List.reverse_cons, List.append_assoc]
    rfl

private theorem staysInTag_value (value : ∀ c ∈ cs, c ≠ '"') : StaysInTag ('"' :: cs ++ ['"']) := by
  intro seen unclosed
  have opened : step ⟨.tag false seen, unclosed⟩ '"' = some ⟨.tag true ('"' :: seen), unclosed⟩ :=
    rfl
  have closed : step ⟨.tag true (cs.reverse ++ '"' :: seen), unclosed⟩ '"' =
      some ⟨.tag false ('"' :: (cs.reverse ++ '"' :: seen)), unclosed⟩ := rfl
  rw [List.cons_append, read_cons, opened, Option.bind_some, read_append, read_value value,
    Option.bind_some, read_cons, closed, Option.bind_some, read_nil]
  simp

/-- What may stand between `<` and `>`. -/
structure IsInner (cs : List Char) : Prop where
  starts : ∃ c ∈ cs.head?, startsTag c = true
  stays : StaysInTag cs

/-- A tag is settled when it ends. -/
theorem read_tag (inner : IsInner cs) (unclosed : Unclosed) :
    read ⟨.text, unclosed⟩ ('<' :: cs ++ ['>']) = (settle cs unclosed).map (Reader.mk .text) := by
  obtain ⟨c, first, starts⟩ := inner.starts
  obtain ⟨rest, rfl⟩ := List.head?_eq_some_iff.mp first
  have inTag : step ⟨.angle, unclosed⟩ c = step ⟨.tag false [], unclosed⟩ c := by
    have angle : c ≠ '<' := by
      rintro rfl
      cases starts
    have quote : c ≠ '"' := by
      rintro rfl
      cases starts
    have ends : c ≠ '>' := by
      rintro rfl
      cases starts
    simp [step, angle, quote, ends, starts]
  have angle : read ⟨.text, unclosed⟩ ('<' :: (c :: rest) ++ ['>']) =
      read ⟨.tag false [], unclosed⟩ (c :: rest ++ ['>']) := by
    rw [List.cons_append, List.cons_append, read_cons, read_cons _ c, ← inTag]
    rfl
  rw [angle, read_append, inner.stays, Option.bind_some, List.append_nil, read_cons, step]
  simp only [and_self, if_true, List.reverse_reverse]
  cases settle (c :: rest) unclosed <;> rfl

end Reader

theorem ne_quote_of_mem_escapeQuotes {cs : List Char} {c : Char} (member : c ∈ escapeQuotes cs) :
    c ≠ '"' := by
  obtain ⟨original, -, member⟩ := List.mem_flatMap.mp member
  rintro rfl
  split at member
  · exact absurd member (by decide)
  · next other => exact other (List.mem_singleton.mp member).symm

private theorem toList_attributeText (name value : String) :
    (attributeText name value).toList =
      ' ' :: name.toList ++ '=' :: ('"' :: escapeQuotes value.toList ++ ['"']) := by
  simp [attributeText, escaped]

namespace IsName

variable {name : String}

theorem exists_cons (h : IsName name) : ∃ c cs, name.toList = c :: cs ∧ c.isLower = true := by
  obtain ⟨c, cs, same⟩ := List.exists_cons_of_ne_nil h.1
  exact ⟨c, cs, same, h.2 c (by simp [same])⟩

theorem plain (h : IsName name) : ∀ c ∈ name.toList, c ≠ '"' ∧ c ≠ '>' := by
  intro c member
  have lower := h.2 c member
  constructor <;> rintro rfl <;> cases lower

theorem staysInTag (h : IsName name) : Reader.StaysInTag name.toList :=
  Reader.staysInTag_of_plain h.plain

theorem isInner (h : IsName name) {rest : List Char} (stays : Reader.StaysInTag rest) :
    Reader.IsInner (name.toList ++ rest) where
  starts := by
    obtain ⟨c, cs, same, lower⟩ := h.exists_cons
    exact ⟨c, by simp [same], startsTag_of_isLower lower⟩
  stays := h.staysInTag.append stays

end IsName

private theorem staysInTag_attributeText {name : String} (h : IsName name) (value : String) :
    Reader.StaysInTag (attributeText name value).toList := by
  rw [toList_attributeText]
  have start : ∀ c ∈ ' ' :: name.toList ++ ['='], c ≠ '"' ∧ c ≠ '>' := by
    have name := h.plain
    simp only [List.cons_append, List.forall_mem_cons, List.forall_mem_append]
    exact ⟨by simp, name, by simp⟩
  have value : Reader.StaysInTag ('"' :: escapeQuotes value.toList ++ ['"']) :=
    Reader.staysInTag_value fun c => ne_quote_of_mem_escapeQuotes
  simpa using (Reader.staysInTag_of_plain start).append value

private theorem staysInTag_attributesText {attributes : Attributes}
    (names : ∀ a ∈ attributes, IsName a.1) :
    Reader.StaysInTag (attributesText attributes).toList := by
  induction attributes with
  | nil => exact fun _ _ => rfl
  | cons a rest ih =>
    obtain ⟨name, _ | value⟩ := a
    · exact ih fun a member => names a (List.mem_cons_of_mem _ member)
    · obtain ⟨here, below⟩ := List.forall_mem_cons.mp names
      rw [attributesText]
      split
      · exact ih below
      · rw [String.toList_append]
        exact (staysInTag_attributeText here value).append (ih below)

/-- Attributes start with a blank and end with a quote, if any is written. -/
theorem attributesText_ends (attributes : Attributes) :
    (attributesText attributes).toList = [] ∨
      ∃ between, (attributesText attributes).toList = ' ' :: between ++ ['"'] := by
  induction attributes with
  | nil => exact .inl rfl
  | cons a rest ih =>
    obtain ⟨name, _ | value⟩ := a
    · exact ih
    · rw [attributesText]
      split
      · exact ih
      · right
        rw [String.toList_append, toList_attributeText]
        rcases ih with none | ⟨between, some⟩
        · rw [none]
          exact ⟨name.toList ++ '=' :: '"' :: escapeQuotes value.toList, by simp⟩
        · rw [some]
          exact ⟨name.toList ++ '=' :: ('"' :: escapeQuotes value.toList ++ ['"']) ++
            ' ' :: between, by simp⟩

/-- A name ends where the attributes start or the tag does. -/
theorem tagName_append {name : String} (h : IsName name) {rest : List Char}
    (ends : rest = [] ∨ ∃ others, rest = ' ' :: others) :
    tagName (name.toList ++ rest) = name.toList := by
  have kept : ∀ c ∈ name.toList, (!isBlank c && c != '/') = true := by
    intro c member
    have lower := h.2 c member
    have solid : isBlank c = false := Reader.isBlank_of_startsTag (startsTag_of_isLower lower)
    have slash : c ≠ '/' := by
      rintro rfl
      cases lower
    simp [solid, slash]
  have stops : rest.takeWhile (fun c => !isBlank c && c != '/') = [] := by
    rcases ends with rfl | ⟨others, rfl⟩ <;> rfl
  have small : ∀ c ∈ name.toList, c.toLower = c := by
    intro c member
    exact toLower_of_isLower (h.2 c member)
  rw [tagName, List.takeWhile_append_of_pos kept, stops, List.append_nil]
  exact (List.map_congr_left small).trans (List.map_id _)

private theorem settle_of_isLower {c : Char} (lower : c.isLower = true) (cs : List Char)
    (unclosed : Unclosed) :
    settle (c :: cs) unclosed =
      some (if isComplete (c :: cs) then unclosed else tagName (c :: cs) :: unclosed) := by
  unfold settle
  split
  · next same =>
    cases same
    cases lower
  · next same =>
    cases same
    cases lower
  · next same =>
    cases same
    cases lower
  · rfl

private theorem settle_void {name : String} (h : IsName name) (attributes : Attributes)
    (unclosed : Unclosed) :
    settle (name.toList ++ ((attributesText attributes).toList ++ [' ', '/'])) unclosed =
      some unclosed := by
  obtain ⟨c, cs, same, lower⟩ := h.exists_cons
  have complete :
      isComplete (name.toList ++ ((attributesText attributes).toList ++ [' ', '/'])) = true := by
    simp [isComplete]
  rw [same, List.cons_append] at complete ⊢
  rw [settle_of_isLower lower, if_pos complete]

private theorem settle_opening {name : String} (h : IsName name) (content : name ∉ voidNames)
    (attributes : Attributes) (unclosed : Unclosed) :
    settle (name.toList ++ (attributesText attributes).toList) unclosed =
      some (name.toList :: unclosed) := by
  have ends := attributesText_ends attributes
  have named : tagName (name.toList ++ (attributesText attributes).toList) = name.toList := by
    refine tagName_append h (ends.imp id ?_)
    rintro ⟨between, same⟩
    exact ⟨between ++ ['"'], same⟩
  have incomplete : isComplete (name.toList ++ (attributesText attributes).toList) = false := by
    have slash : (name.toList ++ (attributesText attributes).toList).getLast? ≠ some '/' := by
      rcases ends with none | ⟨between, same⟩
      · rw [none, List.append_nil]
        intro last
        have lower := h.2 _ (List.mem_of_getLast? last)
        cases lower
      · rw [same, ← List.append_assoc, List.getLast?_concat]
        decide
    have fresh : name.toList ∉ voidNames.map String.toList := by
      intro member
      obtain ⟨other, listed, same⟩ := List.mem_map.mp member
      exact content (String.toList_injective same ▸ listed)
    rw [isComplete, named, Bool.or_eq_false_iff]
    exact ⟨beq_eq_false_iff_ne.mpr slash, by simpa using fresh⟩
  obtain ⟨c, cs, same, lower⟩ := h.exists_cons
  rw [same, List.cons_append] at incomplete named ⊢
  rw [settle_of_isLower lower, incomplete, named]
  rfl

namespace Tag

/-- A reader of a tag does what the tag says. -/
theorem read_text {t : Tag} (plain : t.IsPlain) (unclosed : Unclosed) :
    Reader.read ⟨.text, unclosed⟩ t.text.toList = (t.settle unclosed).map (Reader.mk .text) := by
  cases t with
  | opening name attributes =>
    obtain ⟨isName, content, names⟩ := plain
    have written : (Tag.opening name attributes).text.toList =
        '<' :: (name.toList ++ (attributesText attributes).toList) ++ ['>'] := by
      simp [Tag.text]
    rw [written, Reader.read_tag (isName.isInner (staysInTag_attributesText names)),
      settle_opening isName content]
    rfl
  | closing name =>
    have written : (Tag.closing name).text.toList = '<' :: ('/' :: name.toList) ++ ['>'] := by
      simp [Tag.text]
    have slash : Reader.StaysInTag ['/'] := Reader.staysInTag_of_plain (by simp)
    have inner : Reader.IsInner ('/' :: name.toList) :=
      ⟨⟨'/', rfl, rfl⟩, slash.append plain.staysInTag⟩
    have named := tagName_append plain (.inl rfl)
    rw [List.append_nil] at named
    rw [written, Reader.read_tag inner, Markup.settle, named]
    rfl
  | void name attributes =>
    obtain ⟨isName, names⟩ := plain
    have written : (Tag.void name attributes).text.toList =
        '<' :: (name.toList ++ ((attributesText attributes).toList ++ [' ', '/'])) ++ ['>'] := by
      simp [Tag.text]
    have slash : Reader.StaysInTag [' ', '/'] := Reader.staysInTag_of_plain (by simp)
    have stays := (staysInTag_attributesText names).append slash
    rw [written, Reader.read_tag (isName.isInner stays), settle_void isName]
    rfl

end Tag

end MailMarkup.Markup
