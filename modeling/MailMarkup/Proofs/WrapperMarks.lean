import MailMarkup.Proofs.CalmTemplates
import MailMarkup.Proofs.ClientViews

/-!
# Taking wrappers off

What stands between the first end of a conditional section and the last start of one is the text
that was wrapped, whatever marks this text holds itself. The tag of the cell in front of it is
written with texts of the node, and one of them may be any text: where the classes hold the end of
a section, the section ends within the tag.
-/
namespace MailMarkup
open Markup Text

namespace Markup

/-- The end of a comment, which a conditional section is for all clients but Outlook. -/
def commentEnd : List Char := "-->".toList

def endMarks : List (List Char) := [endMark, commentEnd]

/-- What is left of a text when all up to its first end mark and all from its last start mark is
taken off, with one more character on each side. -/
def unwrapped? (cs : List Char) : Option (List Char) := do
  let before ← lengthThrough? endMark cs
  let behind ← lengthThrough? startMark.reverse cs.reverse
  return (cs.drop (before + 1)).rdrop (behind + 1)

/-- What the end marks have in common: their last character, and that no character of theirs is
written around words or around values. -/
structure IsEnd (mark : List Char) : Prop where
  suffix : mark <:+ endMark
  last : mark.getLast? = some '>'
  solid : ∀ c ∈ mark, isBlank c = false
  apart : ∀ c ∈ frameChars, c ∉ mark

namespace IsEnd

variable {mark : List Char}

theorem of_mem (member : mark ∈ endMarks) : IsEnd mark := by
  have suffix : ∀ mark ∈ endMarks, mark <:+ endMark := by decide +kernel
  have last : ∀ mark ∈ endMarks, mark.getLast? = some '>' := by decide +kernel
  have solid : ∀ mark ∈ endMarks, mark.all (!isBlank ·) = true := by decide +kernel
  have apart : ∀ mark ∈ endMarks, frameChars.all (· ∉ mark) = true := by decide +kernel
  refine ⟨suffix mark member, last mark member, ?_, ?_⟩
  · simpa using solid mark member
  · simpa using apart mark member

variable (h : IsEnd mark)
include h

theorem nonempty : mark ≠ [] := by
  rintro rfl
  cases h.last

private theorem not_infix_of_no_angle {cs : List Char} (plain : ∀ c ∈ cs, c ≠ '<' ∧ c ≠ '>') :
    ¬ mark <:+: cs := fun occurs =>
  (plain '>' (occurs.subset (List.mem_of_getLast? h.last))).2 rfl

private theorem not_infix_of_isName {name : String} (named : IsName name) :
    ¬ mark <:+: name.toList := by
  refine h.not_infix_of_no_angle fun c member => ?_
  have lower := named.2 c member
  constructor <;> rintro rfl <;> cases lower

/-- An end mark is in a class with its suffix if it is in the class. -/
theorem infix_suffixed_word_iff (word : String) :
    mark <:+: (word ++ "-" ++ "outlook").toList ↔ mark <:+: word.toList := by
  have shape : (word ++ "-" ++ "outlook").toList =
      (word.toList ++ ['-']) ++ 'o' :: "utlook".toList := by simp
  have rest : ¬ mark <:+: "utlook".toList := h.not_infix_of_no_angle (by simp)
  have last : mark.getLast? ≠ some '-' := by
    rw [h.last]
    decide
  rw [shape, infix_append_cons_iff (h.apart 'o' (by decide)), or_iff_left rest,
    infix_concat_iff_of_last h.nonempty last]

private theorem exists_suffixed_iff (classes : Option String) :
    (∃ text ∈ Outlook.suffixed "outlook" classes, mark <:+: text.toList) ↔
      ∃ text ∈ classes, mark <:+: text.toList := by
  have whole : (∃ text ∈ classes, mark <:+: text.toList) ↔
      ∃ word ∈ wordsOf (classes.getD ""), mark <:+: word.toList := by
    rw [wordsOf]
    simp only [List.mem_map, exists_exists_and_eq_and, String.toList_ofList]
    rw [← infix_iff_exists_word h.nonempty h.solid]
    cases classes <;> simp [h.nonempty]
  rw [whole, Outlook.suffixed]
  split
  · next none => simp [none]
  · next words _ =>
    simp only [Option.mem_some_iff, exists_eq_left',
      infix_joined_iff h.nonempty (h.apart ' ' (by decide)), List.mem_map,
      exists_exists_and_eq_and, h.infix_suffixed_word_iff]

end IsEnd

end Markup

namespace Outlook

/-- The section in front of what is wrapped. -/
def cellStart (attributes : Attributes) : List Char :=
  (Piece.outlook [.opening "tr" [], .opening "td" attributes]).html.toList

/-- The section behind what is wrapped. -/
def cellEnd : List Char := (Piece.outlook [.closing "td", .closing "tr"]).html.toList

private theorem cellStart_eq (attributes : Attributes) :
    cellStart attributes = startMark ++ "<tr><".toList ++ 't' :: 'd' ::
      ((attributesText attributes).toList ++ '>' :: endMark) := by
  simp [cellStart, Piece.html, conditional, Tag.text, attributesText, startMark, endMark]

private theorem endMark_suffix_cellStart (attributes : Attributes) :
    endMark <:+ cellStart attributes := by
  refine ⟨startMark ++ "<tr><td".toList ++ (attributesText attributes).toList ++ ['>'], ?_⟩
  simp [cellStart_eq]

/-- Up to its last character the section holds an end mark where a value of the cell does. -/
theorem infix_dropLast_cellStart_iff {mark : List Char} (isEnd : mark ∈ endMarks)
    {attributes : Attributes} (named : ∀ a ∈ attributes, IsName a.1) :
    mark <:+: (cellStart attributes).dropLast ↔
      ∃ a ∈ attributes, ∃ value ∈ a.2, mark <:+: value.toList := by
  have h := IsEnd.of_mem isEnd
  have split : cellStart attributes = startMark ++ "<tr><".toList ++ 't' :: 'd' ::
      ((attributesText attributes).toList ++ '>' :: endMark.dropLast) ++ ['>'] := by
    have ends : endMark = endMark.dropLast ++ ['>'] := by decide +kernel
    rw [cellStart_eq]
    nth_rewrite 1 [ends]
    simp
  have start : ∀ mark ∈ endMarks, ¬ mark <:+: startMark ++ "<tr><".toList := by decide +kernel
  have stop : ∀ mark ∈ endMarks, ¬ mark <:+: '>' :: endMark.dropLast := by decide +kernel
  have head : ∀ mark ∈ endMarks, mark.head? ≠ some 'd' := by decide +kernel
  rw [split, List.dropLast_concat, infix_append_cons_iff (h.apart 't' (by decide)),
    or_iff_right (start mark isEnd), infix_cons_iff_of_head h.nonempty (head mark isEnd),
    infix_attributesText_append_iff h.nonempty h.apart
      fun a member => h.not_infix_of_isName (named a member),
    or_iff_left (stop mark isEnd)]

/-- The last start mark is the one of the section behind. -/
theorem lengthThrough?_reverse_cellEnd (before : List Char) :
    lengthThrough? startMark.reverse (before ++ cellEnd).reverse = some cellEnd.length := by
  have nonempty : startMark.reverse ≠ [] := by decide +kernel
  have starts : startMark.reverse <:+ cellEnd.reverse := by decide +kernel
  have single : ¬ startMark.reverse <:+: cellEnd.reverse.dropLast := by decide +kernel
  obtain ⟨n, -, found, first⟩ := exists_lengthThrough? nonempty starts before.reverse
  rw [List.reverse_append, found, first.mpr single, List.length_reverse]

/-- The text that was wrapped is what is left, unless there is an end mark before the end of the
section in front of it. -/
theorem unwrapped?_eq_some_iff (attributes : Attributes) (inner : List Char) (b d : Char) :
    unwrapped? (cellStart attributes ++ b :: (inner ++ d :: cellEnd)) = some inner ↔
      ¬ endMark <:+: (cellStart attributes).dropLast := by
  obtain ⟨n, bound, before, first⟩ := exists_lengthThrough? (by decide +kernel)
    (endMark_suffix_cellStart attributes) (b :: (inner ++ d :: cellEnd))
  have shape : cellStart attributes ++ b :: (inner ++ d :: cellEnd) =
      (cellStart attributes ++ b :: (inner ++ [d])) ++ cellEnd := by simp
  have behind : lengthThrough? startMark.reverse
      (cellStart attributes ++ b :: (inner ++ d :: cellEnd)).reverse = some cellEnd.length := by
    rw [shape, lengthThrough?_reverse_cellEnd]
  rw [unwrapped?, before, behind, ← first]
  simp only [Option.bind_eq_bind, Option.bind_some, Option.pure_def, Option.some_inj]
  constructor
  · intro left
    have lengths := congrArg List.length left
    simp only [List.rdrop, List.length_take, List.length_drop, List.length_append,
      List.length_cons] at lengths
    omega
  · rintro rfl
    have dropped : (cellStart attributes ++ b :: (inner ++ d :: cellEnd)).drop
        ((cellStart attributes).length + 1) = inner ++ d :: cellEnd := by
      rw [← List.drop_drop, List.drop_left, List.drop_one, List.tail_cons]
    rw [dropped]
    exact List.rdrop_append_length

/-- The alignment of a cell is one of three words. -/
theorem hasNoAngle_align {c : Component} {defaults own : Table String} :
    ∀ text ∈ (Resolution.resolve c defaults own).raw? "align", HasNoAngle text := by
  have choices : ∀ type ∈ c.typeOf? "align", type = .choice ["left", "center", "right"] := by
    cases c <;> decide
  have plain : ∀ word ∈ ["left", "center", "right"], HasNoAngle word := by
    simp [HasNoAngle]
  exact fun text isSet => plain text (Resolution.mem_of_raw?_choice choices isSet)

/-- What the section in front of a node holds of an end mark, up to its own, the classes of the node
hold. -/
theorem infix_dropLast_cellStart_ofNode_iff {mark : List Char} (isEnd : mark ∈ endMarks)
    {c : Component} (notRaw : c ≠ .raw) {r : Resolution} (context : Context)
    (aligned : ∀ text ∈ r.raw? "align", HasNoAngle text) :
    mark <:+: (cellStart (Wrap.ofNode c r context).attributes).dropLast ↔
      ∃ text ∈ r.raw? "css-class", mark <:+: text.toList := by
  have h := IsEnd.of_mem isEnd
  have attributes : (Wrap.ofNode c r context).attributes =
      [("align", r.raw? "align"), ("class", outlookClass r),
        ("width", some context.widthText)] := by
    rw [Wrap.ofNode, Component.isRaw, if_neg (by simpa using notRaw)]
  have named : ∀ a ∈ (Wrap.ofNode c r context).attributes, IsName a.1 := by
    simp [attributes, IsName]
  have align : ¬ ∃ text ∈ r.raw? "align", mark <:+: text.toList := fun ⟨text, isSet, occurs⟩ =>
    h.not_infix_of_no_angle (aligned text isSet) occurs
  have width : ¬ mark <:+: context.widthText.toList :=
    h.not_infix_of_no_angle (Length.hasNoAngle_text_px context.width)
  rw [infix_dropLast_cellStart_iff isEnd named, attributes, ← h.exists_suffixed_iff]
  simp only [List.exists_mem_cons_iff, List.not_mem_nil, false_and, exists_false, or_false,
    align, false_or, Option.mem_some_iff, exists_eq_left', width]
  rfl

/-- A wrapper can be taken off again exactly if the classes of the node do not hold the end of a
section, whatever marks the wrapped text holds. The first occurrence of either end mark is at the
end of the section in front exactly if the classes do not hold that mark. -/
theorem Wrap.around_isReversible {c : Component} (notRaw : c ≠ .raw)
    (defaults own : Table String) (context : Context) :
    let r := Resolution.resolve c defaults own
    let w := Wrap.ofNode c r context
    ∀ inner : String,
      (w.around inner).toList =
        cellStart w.attributes ++ '\n' :: (inner.toList ++ '\n' :: cellEnd) ∧
      (unwrapped? (w.around inner).toList = some inner.toList ↔
        ∀ text ∈ r.raw? "css-class", ¬ endMark <:+: text.toList) ∧
      ∀ mark ∈ endMarks,
        (lengthThrough? mark (w.around inner).toList = some (cellStart w.attributes).length ↔
          ∀ text ∈ r.raw? "css-class", ¬ mark <:+: text.toList) := by
  intro r w
  have inClasses {mark : List Char} (isEnd : mark ∈ endMarks) :
      ¬ mark <:+: (cellStart w.attributes).dropLast ↔
        ∀ text ∈ r.raw? "css-class", ¬ mark <:+: text.toList := by
    rw [infix_dropLast_cellStart_ofNode_iff isEnd notRaw context hasNoAngle_align]
    simp only [not_exists, not_and]
    rfl
  have around (inner : String) : (w.around inner).toList =
      cellStart w.attributes ++ '\n' :: (inner.toList ++ '\n' :: cellEnd) := by
    have needed : w.needed = true := by
      simp [w, Wrap.ofNode, Component.isRaw, notRaw]
    rw [Wrap.around, if_pos needed]
    simp [html, Piece.html, Piece.line, cellStart, cellEnd]
  refine fun inner => ⟨around inner, ?_, fun mark isEnd => ?_⟩
  · rw [around, unwrapped?_eq_some_iff]
    exact inClasses (by decide +kernel)
  · have h := IsEnd.of_mem isEnd
    have ends := h.suffix.trans (endMark_suffix_cellStart w.attributes)
    obtain ⟨n, -, found, first⟩ := exists_lengthThrough? h.nonempty ends
      ('\n' :: (inner.toList ++ '\n' :: cellEnd))
    rw [around, found, Option.some_inj, first]
    exact inClasses isEnd

/-- The text that is wrapped may hold sections of its own. -/
theorem Wrap.around_isReversible_marked :
    let r := Resolution.resolve .badge .empty (.ofList [("css-class", "pill <!big")])
    let w := Wrap.ofNode .badge r ⟨480, none⟩
    let inner := "a<![endif]-->\n<!--[if mso | IE]>b"
    Component.badge ≠ .raw ∧ r.raw? "css-class" = some "pill <!big" ∧
      unwrapped? (w.around inner).toList = some inner.toList := by
  intro r w inner
  have isSet : r.raw? "css-class" = some "pill <!big" := by decide +kernel
  have free : ∀ text ∈ r.raw? "css-class", ¬ endMark <:+: text.toList := by
    rw [isSet]
    decide +kernel
  have reversible := Wrap.around_isReversible (c := .badge) nofun .empty
    (.ofList [("css-class", "pill <!big")]) ⟨480, none⟩ inner
  exact ⟨nofun, isSet, reversible.2.1.mpr free⟩

/-- A class that ends a section ends the one it is written in. -/
theorem Wrap.around_isReversible_ended :
    let r := Resolution.resolve .badge .empty (.ofList [("css-class", "<![endif]-->")])
    let w := Wrap.ofNode .badge r ⟨600, none⟩
    (unwrapped? (w.around "New").toList).map String.ofList =
        some "outlook\" width=\"600px\"><![endif]-->\nNew" ∧
      unwrapped? (w.around "New").toList ≠ some "New".toList := by
  intro r w
  have left : (unwrapped? (w.around "New").toList).map String.ofList =
      some "outlook\" width=\"600px\"><![endif]-->\nNew" := by decide +kernel
  refine ⟨left, fun same => ?_⟩
  rw [same] at left
  exact absurd left (by decide)

end Outlook

end MailMarkup
