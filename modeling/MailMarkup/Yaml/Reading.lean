import MailMarkup.Datum
import MailMarkup.Decimal.Numeral
import MailMarkup.Shape
import MailMarkup.Yaml.Node

/-!
# Reading against a shape

The data tree that a graph of nodes has under a shape. A scalar is read as its leaf asks for, and
an empty plain scalar also stands for an empty collection. Aliases are followed where the shape
leads, so the tree can be larger than the text, but not without bound: a text may follow a hundred
aliases for each of its nodes and ends of collections, and collections may lie 128 deep.
-/
namespace MailMarkup.Yaml

def nullWords : List String := ["null", "Null", "NULL", "~"]

def isNothing (s : String) : Bool := s == "" || nullWords.contains s

/-- A scalar that may be left out. The tag of nothing is for the words for nothing only. -/
def optionalText? (style : Style) (tag : Option Tag) (s : String) : Option Datum :=
  match style, tag with
  | .plain, none => some (if isNothing s then .null else .text s)
  | .plain, some t =>
    if t = .null then (if nullWords.contains s then some .null else none) else some (.text s)
  | _, _ => some (.text s)

/-- A numeral is plain, or it is literal and tagged as one. -/
def number? (style : Style) (tag : Option Tag) (s : String) : Option Datum :=
  if style = .plain ∨ (style = .literal ∧ tag = some .float) then
    (Decimal.readScalar? s).map .number
  else none

/-- A choice is a text, or the tag of nothing. -/
def choice? (style : Style) (tag : Option Tag) (s : String) : Option Datum :=
  match tag.bind Tag.name? with
  | some name => if style = .plain ∧ isNothing s then some (.text name) else none
  | none => some (.text s)

def leaf? (l : Leaf) : Node → Option Datum
  | .scalar style tag s =>
    match l with
    | .text => some (.text s)
    | .optionalText => optionalText? style tag s
    | .number => number? style tag s
    | .choice => choice? style tag s
  | _ => none

/-- What an empty plain scalar stands for. -/
def emptyOf : Form → Datum
  | .list _ => .list []
  | _ => .record []

/-- A reading that counts down the aliases that may still be followed. -/
abbrev Reading := StateT Nat Option

namespace Graph

def follow (g : Graph) : Node → Reading Node
  | .alias number => do
    match ← get, g.anchored.lookup number with
    | left + 1, some n =>
      set left
      return n
    | _, _ => failure
  | n => return n

def nameOf (g : Graph) (key : Node) : Reading String := do
  match ← g.follow key with
  | .scalar _ _ s => return s
  | _ => failure

/-- The fields that a record may have; the others are not looked into. -/
def readFields (g : Graph) (inside : Shape → Node → Reading Datum)
    (shapes : List (String × Shape)) : List (Node × Node) → Reading (List (String × Datum))
  | [] => return []
  | (key, value) :: rest => do
    let name ← g.nameOf key
    let first ← match shapes.lookup name with
      | some shape => do pure [(name, ← inside shape value)]
      | none => pure []
    return first ++ (← readFields g inside shapes rest)

/-- The data of a collection whose items are read by `inside`. -/
def readCollection (g : Graph) (inside : Shape → Node → Reading Datum) (form : Form) (n : Node) :
    Reading Datum :=
  match form, n with
  | .list item, .sequence items => return .list (← items.mapM (inside item))
  | .table value, .mapping fields =>
    return .record (← fields.mapM fun f => do return (← g.nameOf f.1, ← inside value f.2))
  | .record shapes, .mapping fields => return .record (← g.readFields inside shapes fields)
  | _, _ => failure

/-- The data of a node in which collections may lie `depth` deep. -/
def read (g : Graph) : Nat → Shape → Node → Reading Datum
  | depth, shape, n => do
    let n ← g.follow n
    match shape.form, n, depth with
    | .leaf l, n, _ => leaf? l n
    | form, .scalar .plain _ "", _ => return emptyOf form
    | form, n, depth + 1 => g.readCollection (g.read depth) form n
    | _, _, 0 => failure

end Graph

mutual

/-- How many nodes and ends of collections a node takes. -/
def Node.size : Node → Nat
  | .scalar .. | .alias _ => 1
  | .sequence items => sizes items + 2
  | .mapping fields => fieldSizes fields + 2

def Node.sizes : List Node → Nat
  | [] => 0
  | n :: rest => n.size + sizes rest

def Node.fieldSizes : List (Node × Node) → Nat
  | [] => 0
  | (key, value) :: rest => key.size + value.size + fieldSizes rest

end

def maxDepth : Nat := 128

/-- The data of a text under a shape. -/
def read (shape : Shape) (s : String) : Option Datum := do
  let g ← readGraph s
  ((g.read maxDepth shape g.root).run' (100 * g.root.size))

end MailMarkup.Yaml
