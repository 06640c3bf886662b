import MailMarkup.Proofs.DocumentGrammar
import MailMarkup.Proofs.WrapperSpan

/-!
# The root is optional

A text is the same document, or has the same problem, whether or not it is put in an `mjml` element.
It has the same tokens there, so the items inside the element are those that were at the top, with
their sources.
-/
namespace MailMarkup
open Xml

namespace Xml

/-- An element without attributes has no fault of its own, but may have faults inside. -/
theorem bindingFault?_element {name : Name} (unqualified : name.qualifier = [])
    (children : List Item) (opening closing : List Char) :
    bindingFault? [] (.element name [] children opening closing) = bindingFaults? [] children := by
  have own : elementFault? [] name [] = none := by
    simp [elementFault?, unqualified, bindings, plainAttributes, Scope.expanded?, xmlns]
  exact (congrArg (Option.or · (bindingFaults? [] children)) own).trans (Option.none_or ..)

private theorem bindingFaults?_singleton (scope : Scope) (item : Item) :
    bindingFaults? scope [item] = bindingFault? scope item := by
  rw [bindingFaults?, bindingFaults?, Option.or_none]

end Xml

namespace Document

def mjml : List Char := "mjml".toList

def mjmlName : Name := ⟨[], mjml⟩

private theorem isTagName_mjml : IsTagName mjml mjmlName where
  parts := List.all_eq_true.mp (by decide)
  named := by decide
  last := by
    rintro _ ⟨⟩
    decide

/-- The tags of the elements at the top of a text, none of a text that cannot be read. -/
def topTags (s : String) : List String :=
  ((Xml.read (enclosed s)).toOption.elim [] topOf).map Element.tag

private theorem topTags_of_read {s : String} {root : Item}
    (read : Xml.read (enclosed s) = .ok root) : topTags s = (topOf root).map Element.tag := by
  rw [topTags, read]
  rfl

private theorem toList_mjml (s : String) : ("<mjml>" ++ s ++ "</mjml>").toList =
    openingTag mjml ++ (s.toList ++ closingTag mjml []) := by
  simp [openingTag, closingTag, mjml]

/-- In an `mjml` element a text is read as before, as what is inside the element. -/
theorem exists_root_mjml {s : String} {root : Item} (read : Xml.read (enclosed s) = .ok root) :
    ∃ other, Xml.read (enclosed ("<mjml>" ++ s ++ "</mjml>")) = .ok other ∧
      topOf other = [⟨"mjml", Element.tableOf [], root.children⟩] := by
  obtain ⟨inside, children, readInside, spells, -, rfl⟩ := exists_inside_of_read read
  obtain ⟨-, -, -, bound⟩ := read_eq_ok_iff.mp read
  let inner : Item := .element mjmlName [] children (openingTag mjml) (closingTag mjml [])
  let outer : Item := .element wrapperName [] [inner] (openingTag wrapper) (closingTag wrapper [])
  have readInner := isTagName_mjml.tokens_enclosed readInside
  have spellsInner : Spells (⟨.opening mjmlName [], openingTag mjml⟩ ::
      (inside ++ [⟨.closing mjmlName, closingTag mjml []⟩])) [inner] :=
    .element rfl rfl spells .nil
  have outerBound : bindingFault? [] outer = none := by
    rw [bindingFault?_element rfl] at bound
    rw [bindingFault?_element rfl, bindingFaults?_singleton, bindingFault?_element rfl, bound]
  refine ⟨outer, ?_, rfl⟩
  rw [enclosed_eq, toList_mjml, read_eq_ok_iff]
  exact ⟨_, isTagName_wrapper.tokens_enclosed readInner, spellsInner.treeOf_eq rfl rfl, outerBound⟩

private theorem parts_eq_self {top : List Element} (other : top.map Element.tag ≠ ["mjml"]) :
    parts top = top := by
  unfold parts
  split
  · next e =>
    rw [if_neg]
    exact fun tag => other (by rw [List.map_singleton, tag])
  · rfl

/-- Inside one `mjml` element there are the same parts of a document as without it. -/
theorem ofElements_mjml {e : Element} (tag : e.tag = "mjml") (filled : e.elements ≠ [])
    (other : e.elements.map Element.tag ≠ ["mjml"]) : ofElements [e] = ofElements e.elements := by
  have inside : parts [e] = e.elements := by rw [parts, if_pos tag]
  rw [ofElements, ofElements, inside, parts_eq_self other, if_neg (by simp),
    if_neg (by simpa using filled)]

/-- A text that is well formed, with elements at its top that are not one `mjml` element, can be put
in one: the document is the same, with all contents, or the problem is. -/
theorem ofMarkup_mjml (s : String)
    (wellFormed : ∀ fault, ofMarkup s ≠ .error (.malformedMarkup fault))
    (filled : topTags s ≠ []) (other : topTags s ≠ ["mjml"]) :
    ofMarkup ("<mjml>" ++ s ++ "</mjml>") = ofMarkup s := by
  obtain ⟨root, read⟩ := exists_root_of_wellFormed wellFormed
  obtain ⟨outer, readOuter, top⟩ := exists_root_mjml read
  rw [topTags_of_read read] at filled other
  rw [ofMarkup_of_read readOuter, ofMarkup_of_read read, top]
  exact ofElements_mjml rfl (List.map_eq_nil_iff.not.mp filled) other

/-- The content of a block is the same part of the text, further to the right. -/
theorem ofMarkup_mjml_moved :
    let s := "<mj-head/>,<!--1--><mj-body><mj-raw> <b>2 &lt; 3</b>]]<!--4--></mj-raw></mj-body>"
    ∃ d, ofMarkup s = .ok d ∧ ofMarkup ("<mjml>" ++ s ++ "</mjml>") = .ok d ∧
      d.body.children.map Node.content = [" <b>2 &lt; 3</b>]]<!--4-->"] := by
  intro s
  have contents : (ofMarkup s).toOption.map (fun d => d.body.children.map Node.content) =
      some [" <b>2 &lt; 3</b>]]<!--4-->"] := by decide +kernel
  obtain ⟨d, found, content⟩ := Option.map_eq_some_iff.mp contents
  have parsed := FirstFailure.toOption_eq_some_iff.mp found
  have wellFormed : ∀ fault, ofMarkup s ≠ .error (.malformedMarkup fault) := by
    intro fault malformed
    cases parsed.symm.trans malformed
  have tags : topTags s = ["mj-head", "mj-body"] := by decide +kernel
  have moved := ofMarkup_mjml s wellFormed (by rw [tags]; decide) (by rw [tags]; decide)
  exact ⟨d, parsed, moved.trans parsed, content⟩

end Document

end MailMarkup
