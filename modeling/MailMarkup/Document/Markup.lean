import MailMarkup.Component
import MailMarkup.Document.Basic
import MailMarkup.Log
import MailMarkup.Problem
import MailMarkup.Xml.Binding

/-!
# Documents in markup

A document is a head and a body, in an `mjml` element or without it. Only elements count where the
structure is concerned; inside a badge and inside raw markup the source is kept as content. The
first problem in the order of the document is the one reported.
-/
namespace MailMarkup
open Xml

/-- An element as the document sees it: without qualifiers and bindings. -/
structure Element where
  tag : String
  attributes : Table String
  children : List Item

namespace Element

def tableOf (attributes : List Attribute) : Table String :=
  .ofList ((plainAttributes attributes).map fun a =>
    (String.ofList a.name.base, String.ofList a.value))

def ofItem? : Item → Option Element
  | .element name attributes children _ _ =>
    some ⟨String.ofList name.base, tableOf attributes, children⟩
  | _ => none

def elements (e : Element) : List Element := e.children.filterMap ofItem?

/-- The text inside, without blanks around it. -/
def text (e : Element) : String := String.ofList (Text.trim (Item.values e.children))

def content (e : Element) : String := String.ofList (Item.inner e.children)

end Element

namespace Defaults

/-- What one element of an `mj-attributes` block adds to the defaults. -/
def addElement (d : Defaults) (e : Element) : Except Problem Defaults :=
  if e.tag = "mj-all" then .ok { d with all := d.all.overlay e.attributes }
  else if e.tag = "mj-class" then
    match e.attributes.get? "name" with
    | some name => .ok { d with classes := extend d.classes name (e.attributes.erase "name") }
    | none => .error .namelessClass
  else if (Component.ofTag? e.tag).isSome then
    .ok { d with tags := extend d.tags e.tag e.attributes }
  else .error (.strayInAttributes e.tag)

def ofElements (es : List Element) : Except Problem Defaults := es.foldlM addElement .empty

end Defaults

namespace Head

def addElement (h : Head) (e : Element) : Except Problem Head :=
  if e.tag = "mj-title" then .ok { h with title := some e.text }
  else if e.tag = "mj-preview" then .ok { h with preview := some e.text }
  else if e.tag = "mj-attributes" then
    (Defaults.ofElements e.elements).map fun d => { h with defaults := d }
  else .error (.strayInHead e.tag)

def ofElements (es : List Element) : Except Problem Head := es.foldlM addElement {}

end Head

namespace Node

/-- A block, which takes what is inside as its content. -/
def ofBlock (e : Element) : Except Problem Node :=
  match Component.ofTag? e.tag with
  | none => .error (.unknownComponent e.tag)
  | some c =>
    if Component.body.acceptsChild c then
      .ok { tag := e.tag, attributes := e.attributes, content := e.content }
    else .error (.misplacedComponent Component.body.tag e.tag)

def ofBody (e : Element) : Except Problem Node :=
  (e.elements.mapM ofBlock).map fun children =>
    { tag := e.tag, attributes := e.attributes, children := children }

end Node

namespace Document

/-- The head and the body met so far. -/
structure Draft where
  head : Head := {}
  body : Option Node := none

def Draft.addElement (d : Draft) (e : Element) : Except Problem Draft :=
  if e.tag = "mj-head" then (Head.ofElements e.elements).map fun h => { d with head := h }
  else if e.tag = Component.body.tag then
    if d.body.isSome then .error .multipleBodies
    else (Node.ofBody e).map fun n => { d with body := some n }
  else .error (.strayInRoot e.tag)

def Draft.finish (d : Draft) : Except Problem Document :=
  match d.body with
  | some body => .ok ⟨d.head, body⟩
  | none => .error .missingBody

/-- The elements of a document: those inside its one `mjml` element, or else those at the top. -/
def parts (top : List Element) : List Element :=
  match top with
  | [e] => if e.tag = "mjml" then e.elements else top
  | _ => top

def ofElements (top : List Element) : Except Problem Document :=
  if top.isEmpty then .error .emptyDocument
  else do (← (parts top).foldlM Draft.addElement {}).finish

/-- The element put around a text, so that a head and a body can stand at the top. -/
def wrapper : List Char := "__mjml_root__".toList

def enclosed (s : String) : List Char :=
  ['<'] ++ wrapper ++ ['>'] ++ s.toList ++ ['<', '/'] ++ wrapper ++ ['>']

def ofMarkup (s : String) : Except Problem Document :=
  match Xml.read (enclosed s) with
  | .error fault => .error (.malformedMarkup fault)
  | .ok root => ofElements ((Element.ofItem? root).map Element.elements |>.getD [])

/-- What is reported of a document that was read from markup. -/
def readLine (d : Document) : Log.Line :=
  ⟨.debug, "parsed document: " ++ toString d.body.children.length
    ++ " top-level block(s) in body"⟩

def ofMarkupLines (s : String) : List Log.Line :=
  match ofMarkup s with
  | .ok d => [d.readLine]
  | .error _ => []

end Document

end MailMarkup
