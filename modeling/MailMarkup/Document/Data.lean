import MailMarkup.Datum
import MailMarkup.Document.Basic

/-!
# Documents as data

A document is written as a data tree and read back from one. Written out, a title and a preview
are there only if they are set, a content and children only if they are not empty. Read in, what
is missing is empty, fields of other names are ignored, and only the body and the tag of a node
must be there.
-/
namespace MailMarkup
open Datum

def Defaults.ofDatum? (d : Datum) : Option Defaults := do
  let fields ← d.fields? ["all", "tags", "classes"] 0
  return {
    all := ← field? fields "all" .empty (table? text?)
    tags := ← field? fields "tags" .empty (table? (table? text?))
    classes := ← field? fields "classes" .empty (table? (table? text?)) }

def Defaults.toDatum (d : Defaults) : Datum :=
  let layers (t : Table (Table String)) : Datum :=
    .record (t.entries.map fun e => (e.1, ofTexts e.2))
  .record [("all", ofTexts d.all), ("tags", layers d.tags), ("classes", layers d.classes)]

def Head.ofDatum? (d : Datum) : Option Head := do
  let fields ← d.fields? ["title", "preview", "attributes"] 2
  return {
    title := ← field? fields "title" none optionalText?
    preview := ← field? fields "preview" none optionalText?
    defaults := ← field? fields "attributes" .empty Defaults.ofDatum? }

def optionalField (name : String) (value : Option String) : List (String × Datum) :=
  value.toList.map fun s => (name, .text s)

def Head.toDatum (h : Head) : Datum :=
  .record (optionalField "title" h.title ++ optionalField "preview" h.preview
    ++ [("attributes", h.defaults.toDatum)])

namespace Node

/-- The fields of a node met so far. -/
structure Draft where
  tag : Option String := none
  attributes : Option (Table String) := none
  content : Option String := none
  children : Option (List Node) := none

def Draft.finish (d : Draft) : Option Node := do
  let tag ← d.tag
  return {
    tag := tag
    attributes := d.attributes.getD .empty
    content := d.content.getD ""
    children := d.children.getD [] }

def Draft.withTag (d : Draft) (value : Datum) : Option Draft :=
  if d.tag.isSome then none else value.text?.map fun s => { d with tag := some s }

def Draft.withAttributes (d : Draft) (value : Datum) : Option Draft :=
  if d.attributes.isSome then none
  else (table? text? value).map fun t => { d with attributes := some t }

def Draft.withContent (d : Draft) (value : Datum) : Option Draft :=
  if d.content.isSome then none else value.text?.map fun s => { d with content := some s }

def Draft.withChildren (d : Draft) (children : List Node) : Option Draft :=
  if d.children.isSome then none else some { d with children := some children }

mutual

def ofDatum? : Datum → Option Node
  | .record fields => do (← draft? {} fields).finish
  | .list items => positional? items
  | _ => none

def draft? (d : Draft) : List (String × Datum) → Option Draft
  | [] => some d
  | (name, value) :: rest => do
    let next ←
      if name = "tag" then d.withTag value
      else if name = "attributes" then d.withAttributes value
      else if name = "content" then d.withContent value
      else if name = "children" then do d.withChildren (← children? value)
      else some d
    draft? next rest

def positional? : List Datum → Option Node
  | [tag] => do (← Draft.withTag {} tag).finish
  | [tag, attributes] => do (← (← Draft.withTag {} tag).withAttributes attributes).finish
  | [tag, attributes, content] => do
    (← (← (← Draft.withTag {} tag).withAttributes attributes).withContent content).finish
  | [tag, attributes, content, children] => do
    let d ← (← (← Draft.withTag {} tag).withAttributes attributes).withContent content
    (← d.withChildren (← children? children)).finish
  | _ => none

def children? : Datum → Option (List Node)
  | .list items => ofData? items
  | _ => none

def ofData? : List Datum → Option (List Node)
  | [] => some []
  | d :: rest => do
    let first ← ofDatum? d
    let others ← ofData? rest
    return first :: others

end

mutual

def toDatum : Node → Datum
  | ⟨tag, attributes, content, children⟩ =>
    .record ([("tag", .text tag), ("attributes", ofTexts attributes)]
      ++ (if content = "" then [] else [("content", .text content)])
      ++ (match children with
        | [] => []
        | first :: rest => [("children", .list (toDatum first :: toData rest))]))

def toData : List Node → List Datum
  | [] => []
  | n :: rest => toDatum n :: toData rest

end

end Node

namespace Document

def ofDatum? (d : Datum) : Option Document := do
  let fields ← d.fields? ["head", "body"] 2
  let body ← fields.lookup "body"
  return {
    head := ← field? fields "head" {} Head.ofDatum?
    body := ← Node.ofDatum? body }

def toDatum (d : Document) : Datum := .record [("head", d.head.toDatum), ("body", d.body.toDatum)]

end Document
end MailMarkup
