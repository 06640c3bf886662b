import MailMarkup.Proofs.ElementExtents
import MailMarkup.Proofs.MarkupCompilation

/-!
# The extents of blocks

The blocks of a document that is read from markup are in one body, which is the only body among the
elements of the document. Where they stand in the tokens is determined by the tokens, and each of
them is read from the element that stands there.
-/
namespace MailMarkup
open Xml

namespace Xml.Extent

def tag (x : Extent) : String := String.ofList x.name.base

def isBody (x : Extent) : Bool := x.tag == "mj-body"

end Xml.Extent

/-- The extent is that of the element. -/
structure Element.HasExtent (e : Element) (x : Extent) : Prop where
  tag : x.tag = e.tag
  spells : Spells x.inside e.children

/-- Items have the elements among them, in order, as extents of their tokens. -/
theorem exists_extents {ts : List Token} {items : List Item} (h : Spells ts items) :
    ∃ xs, Extents ts xs ∧ List.Forall₂ Element.HasExtent (items.filterMap Element.ofItem?) xs := by
  induction h with
  | nil => exact ⟨[], .nil, .nil⟩
  | @piece t value ts items lexeme _ ih =>
    obtain ⟨xs, extents, matched⟩ := ih
    have other : t.isTag = false := by
      rcases lexeme with lexeme | lexeme <;> simp [Token.isTag, lexeme]
    exact ⟨xs, .skip other extents, matched⟩
  | @aside t ts items lexeme _ ih =>
    obtain ⟨xs, extents, matched⟩ := ih
    have other : t.isTag = false := by simp [Token.isTag, lexeme]
    exact ⟨xs, .skip other extents, matched⟩
  | @empty t name attributes ts items lexeme _ ih =>
    obtain ⟨xs, extents, matched⟩ := ih
    exact ⟨⟨name, []⟩ :: xs, .empty lexeme extents, .cons ⟨rfl, .nil⟩ matched⟩
  | @element t u name attributes inside ts children items opening closing spells _ ihInside ih =>
    obtain ⟨inner, extentsInside, -⟩ := ihInside
    obtain ⟨xs, extents, matched⟩ := ih
    exact ⟨⟨name, inside⟩ :: xs, .element opening closing extentsInside extents,
      .cons ⟨rfl, spells⟩ matched⟩

private theorem Element.HasExtent.exists_elements {e : Element} {x : Extent} (h : e.HasExtent x) :
    ∃ xs, Extents x.inside xs ∧ List.Forall₂ Element.HasExtent e.elements xs :=
  exists_extents h.spells

/-- Every item that is an element has a view as one, and no other item has. -/
theorem Element.filterMap_ofItem? (items : List Item) :
    items.filterMap ofItem? = (items.filter Item.isElement).filterMap ofItem? := by
  rw [List.filterMap_filter]
  apply List.filterMap_congr
  intro item _
  cases item <;> rfl

private theorem Element.exists_of_isElement {item : Item} (h : item.isElement = true) :
    ∃ e, ofItem? item = some e := by
  cases item with
  | element => exact ⟨_, rfl⟩
  | text => cases h
  | aside => cases h

namespace Document

/-- The extents of the elements of a document: those inside its one `mjml` element, or else those at
the top. -/
def HasParts (top parts : List Extent) : Prop :=
  match top with
  | [x] => if x.tag = "mjml" then Extents x.inside parts else parts = top
  | _ => parts = top

theorem HasParts.unique {top parts others : List Extent} (first : HasParts top parts)
    (second : HasParts top others) : others = parts := by
  unfold HasParts at first second
  split at first
  · split at first
    · next mjml =>
      simp only [if_pos mjml] at second
      exact second.unique first
    · next other =>
      simp only [if_neg other] at second
      rw [first, second]
  · simp only at second
    rw [first, second]

theorem HasParts.isIn {ts : List Token} {top parts : List Extent} (h : HasParts top parts)
    (inside : ∀ x ∈ top, x.IsIn ts) : ∀ x ∈ parts, x.IsIn ts := by
  unfold HasParts at h
  split at h
  · next y =>
    have outer : y.IsIn ts := inside y (List.mem_singleton_self y)
    split at h
    · exact fun x member => (h.isIn x member).trans outer
    · rwa [h]
  · rwa [h]

private theorem exists_parts {top : List Element} {xs : List Extent}
    (matched : List.Forall₂ Element.HasExtent top xs) :
    ∃ parts, HasParts xs parts ∧ List.Forall₂ Element.HasExtent (Document.parts top) parts := by
  unfold HasParts Document.parts
  cases matched with
  | nil => exact ⟨[], rfl, .nil⟩
  | @cons e x _ _ first rest =>
    cases rest with
    | cons second others => exact ⟨_, rfl, .cons first (.cons second others)⟩
    | nil =>
      simp only [first.tag]
      split
      · exact first.exists_elements
      · exact ⟨_, rfl, .cons first .nil⟩

/-- The extents of the blocks in the one body of a document that has the tokens. -/
def HasBlocks (ts : List Token) (blocks : List Extent) : Prop :=
  ∃ root top parts body, Extents ts [root] ∧ Extents root.inside top ∧ HasParts top parts ∧
    parts.filter Extent.isBody = [body] ∧ Extents body.inside blocks

theorem HasBlocks.unique {ts : List Token} {blocks others : List Extent}
    (first : HasBlocks ts blocks) (second : HasBlocks ts others) : others = blocks := by
  obtain ⟨root, top, parts, body, rootOnly, topLevel, hasParts, bodyOnly, inBody⟩ := first
  obtain ⟨root', top', parts', body', rootOnly', topLevel', hasParts', bodyOnly', inBody'⟩ := second
  cases rootOnly.unique rootOnly'
  cases topLevel.unique topLevel'
  cases hasParts.unique hasParts'
  cases bodyOnly.symm.trans bodyOnly'
  exact inBody'.unique inBody

theorem HasBlocks.isIn {ts : List Token} {blocks : List Extent} (h : HasBlocks ts blocks) :
    ∀ x ∈ blocks, x.IsIn ts := by
  obtain ⟨root, top, parts, body, rootOnly, topLevel, hasParts, bodyOnly, inBody⟩ := h
  have rootIn : root.IsIn ts := rootOnly.isIn root (List.mem_singleton_self root)
  have topIn : ∀ x ∈ top, x.IsIn ts := fun x member => (topLevel.isIn x member).trans rootIn
  have member : body ∈ parts := by
    have filtered : body ∈ parts.filter Extent.isBody :=
      bodyOnly ▸ List.mem_singleton_self body
    exact List.mem_of_mem_filter filtered
  have bodyIn : body.IsIn ts := hasParts.isIn topIn body member
  exact fun x member => (inBody.isIn x member).trans bodyIn

/-- The root of a text that can be read is the one element of its tokens. -/
theorem exists_root_of_read {cs : List Char} {root : Item} (read : Xml.read cs = .ok root) :
    ∃ ts e x, tokens cs = .ok ts ∧ Element.ofItem? root = some e ∧ Extents ts [x] ∧
      e.HasExtent x := by
  obtain ⟨ts, tokenized, built, -⟩ := read_eq_ok_iff.mp read
  obtain ⟨items, spells, single, -⟩ := spells_of_treeOf built
  have element : root.isElement = true := by
    have member : root ∈ items.filter Item.isElement := single ▸ List.mem_singleton_self root
    exact List.of_mem_filter member
  obtain ⟨e, view⟩ := Element.exists_of_isElement element
  obtain ⟨xs, extents, matched⟩ := exists_extents spells
  rw [Element.filterMap_ofItem?, single, List.filterMap_cons_some view] at matched
  obtain _ | ⟨here, rest⟩ := matched
  cases rest
  exact ⟨ts, e, _, tokenized, view, extents, here⟩

/-- The blocks of a document are read from the elements in its body, one from each. -/
theorem exists_blocks_of_ofMarkup {s : String} {d : Document} (parsed : ofMarkup s = .ok d) :
    ∃ ts blocks, tokens (enclosed s) = .ok ts ∧ HasBlocks ts blocks ∧
      ∃ es : List Element, List.Forall₂ Element.HasExtent es blocks ∧
        List.Forall₂ (fun e n => Node.ofBlock e = .ok n) es d.body.children := by
  unfold ofMarkup at parsed
  split at parsed
  · cases parsed
  · next root read =>
    obtain ⟨ts, e, x, tokenized, view, rootOnly, rootMatched⟩ := exists_root_of_read read
    rw [view, Option.map_some, Option.getD_some] at parsed
    obtain ⟨top, topLevel, topMatched⟩ := rootMatched.exists_elements
    obtain ⟨parts, hasParts, partsMatched⟩ := exists_parts topMatched
    obtain ⟨body, bodyOnly, bodyRead⟩ := exists_body_of_ofElements parsed
    have isBody : ∀ e x, Element.HasExtent e x → (e.isBody = true ↔ x.isBody = true) := by
      intro e x h
      rw [Element.isBody, Extent.isBody, h.tag]
    have bodyMatched := List.rel_filter isBody partsMatched
    rw [bodyOnly, List.forall₂_cons_left_iff] at bodyMatched
    obtain ⟨y, others, here, empty, filtered⟩ := bodyMatched
    rw [List.forall₂_nil_left_iff] at empty
    rw [empty] at filtered
    obtain ⟨blocks, inBody, blocksMatched⟩ := here.exists_elements
    obtain ⟨children, childrenRead, node⟩ := FirstFailure.map_eq_ok_iff.mp bodyRead
    rw [FirstFailure.mapM_eq_ok_iff] at childrenRead
    have hasBlocks : HasBlocks ts blocks :=
      ⟨x, top, parts, y, rootOnly, topLevel, hasParts, filtered, inBody⟩
    refine ⟨ts, blocks, tokenized, hasBlocks, body.elements, blocksMatched, ?_⟩
    rw [← node]
    exact childrenRead

end Document

end MailMarkup
