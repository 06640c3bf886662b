import MailMarkup.Xml.Token

/-!
# Element trees

An element keeps the text of its two tags, a self-closed one all of it in the first, so that its
source can be put together again. Texts and literal sections are kept apart as pieces of text, of
which several may follow each other.
-/
namespace MailMarkup.Xml

inductive Item where
  | element (name : Name) (attributes : List Attribute) (children : List Item)
      (opening closing : List Char)
  | text (value source : List Char)
  | aside (source : List Char)

namespace Item

def isText : Item → Bool
  | .text .. => true
  | _ => false

mutual

def source : Item → List Char
  | .element _ _ children opening closing => opening ++ sources children ++ closing
  | .text _ source => source
  | .aside source => source

def sources : List Item → List Char
  | [] => []
  | item :: rest => item.source ++ sources rest

end

mutual

/-- All text inside, in order. -/
def value : Item → List Char
  | .element _ _ children _ _ => values children
  | .text value _ => value
  | .aside _ => []

def values : List Item → List Char
  | [] => []
  | item :: rest => item.value ++ values rest

end

/-- The items up to the first piece of the text that ends them, if a text does. -/
def upToLastText : List Item → List Item
  | [] => []
  | item :: rest =>
    if item.isText && rest.all isText then [item] else item :: upToLastText rest

/-- The source of the children of an element. Pieces of text that follow each other count as one
text with the source of the first, so that those at the end do not add to it. -/
def inner (children : List Item) : List Char := sources (upToLastText children)

end Item

/-- An element that is still open, with its children so far, the newest first. -/
structure Frame where
  name : Name
  attributes : List Attribute
  source : List Char
  children : List Item

def Frame.close (f : Frame) (closing : List Char) : Item :=
  .element f.name f.attributes f.children.reverse f.source closing

/-- The elements that are open, innermost first, and the root once it is closed. -/
structure Progress where
  stack : List Frame := []
  root : Option Item := none

namespace Progress

def add (p : Progress) (item : Item) : Except Fault Progress :=
  match p.stack, p.root with
  | f :: fs, _ => .ok { p with stack := { f with children := item :: f.children } :: fs }
  | [], none => .ok { p with root := some item }
  | [], some _ => .error .contentOutsideRoot

def step (p : Progress) (t : Token) : Except Fault Progress :=
  match t.lexeme with
  | .opening name attributes =>
    if p.stack = [] ∧ p.root.isSome then .error .contentOutsideRoot
    else .ok { p with stack := ⟨name, attributes, t.source, []⟩ :: p.stack }
  | .empty name attributes => p.add (.element name attributes [] t.source [])
  | .closing name =>
    match p.stack with
    | [] => .error (.mismatchedTag (String.ofList name.base))
    | f :: fs =>
      if f.name = name then { p with stack := fs }.add (f.close t.source)
      else .error (.mismatchedTag (String.ofList name.base))
  | .text value =>
    match p.stack with
    | [] => if t.source.all isSpace then .ok p else .error .contentOutsideRoot
    | _ => p.add (.text value t.source)
  | .section value =>
    match p.stack with
    | [] => .error .contentOutsideRoot
    | _ => p.add (.text value t.source)
  | .aside =>
    match p.stack with
    | [] => .ok p
    | _ => p.add (.aside t.source)

def finish (p : Progress) : Except Fault Item :=
  match p.stack, p.root with
  | f :: _, _ => .error (.unclosedTag (String.ofList f.name.base))
  | [], some root => .ok root
  | [], none => .error .noRoot

end Progress

/-- The one element that the tokens make up, with nothing but spaces and asides around it. -/
def treeOf (ts : List Token) : Except Fault Item := do
  let p ← ts.foldlM Progress.step {}
  p.finish

end MailMarkup.Xml
