import MailMarkup.Document.Markup
import MailMarkup.Proofs.ComponentTables
import MailMarkup.Proofs.TreeSource

/-!
# The skeleton of a document

Between the elements that make up the structure of a document there may be texts, comments and
instructions, which do not count. The skeleton of a tree is what remains without them, and without
the spelling of the tags around them; titles, previews and blocks stay as they are. Reading a
document reads its skeleton.
-/
namespace MailMarkup
open Xml

namespace Xml.Item

/-- The names of the elements in which only elements count. -/
def isStructural (base : List Char) : Bool :=
  ["mjml".toList, "mj-head".toList, "mj-attributes".toList, "mj-body".toList].contains base

def children : Item → List Item
  | .element _ _ children _ _ => children
  | _ => []

mutual

def skeleton : Item → Item
  | .element name attributes children opening closing =>
    if isStructural name.base then .element name attributes (skeletons children) [] []
    else .element name attributes children opening closing
  | item => item

def skeletons : List Item → List Item
  | [] => []
  | item :: rest => if item.isElement then item.skeleton :: skeletons rest else skeletons rest

end

end Xml.Item

namespace Element

def skeleton (e : Element) : Element :=
  if Item.isStructural e.tag.toList then { e with children := Item.skeletons e.children } else e

@[simp] theorem tag_skeleton (e : Element) : e.skeleton.tag = e.tag := by
  unfold skeleton
  split <;> rfl

@[simp] theorem attributes_skeleton (e : Element) : e.skeleton.attributes = e.attributes := by
  unfold skeleton
  split <;> rfl

private theorem skeleton_of_leaf {e : Element} (leaf : Item.isStructural e.tag.toList = false) :
    e.skeleton = e := by
  rw [skeleton, leaf]
  rfl

private theorem ofItem?_skeleton (item : Item) :
    ofItem? item.skeleton = (ofItem? item).map Element.skeleton := by
  cases item with
  | text => simp only [Item.skeleton, ofItem?, Option.map_none]
  | aside => simp only [Item.skeleton, ofItem?, Option.map_none]
  | element name attributes children opening closing =>
    rw [Item.skeleton, ofItem?, Option.map_some, skeleton, String.toList_ofList]
    split <;> rfl

private theorem filterMap_skeletons (items : List Item) :
    (Item.skeletons items).filterMap ofItem? =
      (items.filterMap ofItem?).map Element.skeleton := by
  induction items with
  | nil => rw [Item.skeletons]; rfl
  | cons item rest ih =>
    rw [Item.skeletons]
    cases item with
    | text => exact ih
    | aside => exact ih
    | element =>
      rw [Item.isElement, if_pos rfl, List.filterMap_cons, List.filterMap_cons, ofItem?_skeleton, ih]
      rfl

private theorem elements_skeleton {e : Element}
    (structural : Item.isStructural e.tag.toList = true) :
    e.skeleton.elements = e.elements.map Element.skeleton := by
  rw [skeleton, if_pos structural]
  exact filterMap_skeletons e.children

end Element

private theorem Defaults.addElement_skeleton (d : Defaults) (e : Element) :
    d.addElement e.skeleton = d.addElement e := by
  simp only [addElement, Element.tag_skeleton, Element.attributes_skeleton]

private theorem Defaults.ofElements_skeletons (es : List Element) :
    ofElements (es.map Element.skeleton) = ofElements es := by
  simp only [ofElements, List.foldlM_map, addElement_skeleton]

private theorem Head.addElement_skeleton (h : Head) (e : Element) :
    h.addElement e.skeleton = h.addElement e := by
  unfold addElement
  rw [Element.tag_skeleton]
  split
  · next tag => rw [Element.skeleton_of_leaf (by rw [tag]; decide)]
  · split
    · next tag => rw [Element.skeleton_of_leaf (by rw [tag]; decide)]
    · split
      · next tag =>
        rw [Element.elements_skeleton (by rw [tag]; decide), Defaults.ofElements_skeletons]
      · rfl

private theorem Head.ofElements_skeletons (es : List Element) :
    ofElements (es.map Element.skeleton) = ofElements es := by
  simp only [ofElements, List.foldlM_map, addElement_skeleton]

private theorem Node.ofBlock_skeleton (e : Element) : ofBlock e.skeleton = ofBlock e := by
  unfold ofBlock
  rw [Element.tag_skeleton, Element.attributes_skeleton]
  split
  · rfl
  · next c known =>
    split
    · next accepted =>
      have block := ((Component.acceptsChild_iff _ _).mp accepted).2
      have tag := Component.ofTag?_eq_some_iff.mp known
      have leaf : Item.isStructural e.tag.toList = false := by
        rw [tag]
        cases c with
        | body => exact absurd rfl block
        | badge => decide
        | raw => decide
      rw [Element.skeleton_of_leaf leaf]
    · rfl

private theorem Node.ofBody_skeleton {e : Element} (tag : e.tag = "mj-body") :
    ofBody e.skeleton = ofBody e := by
  unfold ofBody
  rw [Element.elements_skeleton (by rw [tag]; decide), Element.tag_skeleton,
    Element.attributes_skeleton, List.mapM_map]
  simp only [Function.comp_def, ofBlock_skeleton]

namespace Document

private theorem Draft.addElement_skeleton (d : Draft) (e : Element) :
    d.addElement e.skeleton = d.addElement e := by
  unfold addElement
  rw [Element.tag_skeleton]
  split
  · next tag => rw [Element.elements_skeleton (by rw [tag]; decide), Head.ofElements_skeletons]
  · split
    · next tag => rw [Node.ofBody_skeleton tag]
    · rfl

private theorem parts_skeletons (top : List Element) :
    parts (top.map Element.skeleton) = (parts top).map Element.skeleton := by
  match top with
  | [] => rfl
  | [e] =>
    simp only [List.map_cons, List.map_nil, parts, Element.tag_skeleton]
    split
    · next tag => exact Element.elements_skeleton (by rw [tag]; decide)
    · rfl
  | _ :: _ :: _ => rfl

private theorem ofElements_skeletons (top : List Element) :
    ofElements (top.map Element.skeleton) = ofElements top := by
  simp only [ofElements, List.isEmpty_map, parts_skeletons, List.foldlM_map,
    Draft.addElement_skeleton]

/-- Reading a document reads the skeletons of the items at its top. -/
theorem ofElements_filterMap_skeletons (items : List Item) :
    ofElements ((Item.skeletons items).filterMap Element.ofItem?) =
      ofElements (items.filterMap Element.ofItem?) := by
  rw [Element.filterMap_skeletons, ofElements_skeletons]

end Document

end MailMarkup
