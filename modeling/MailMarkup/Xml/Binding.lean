import MailMarkup.Xml.Tree

/-!
# Bound names

An attribute with the qualifier `xmlns` binds its name, for the element it stands on and those
inside, to the space that is its value; so does an attribute named `xmlns` for names without a
qualifier. Every other qualifier must be bound, and no two attributes of an element may have the
same name in the same space. The qualifier `xml` is bound for attributes only.
-/
namespace MailMarkup.Xml

def xmlSpace : List Char := "http://www.w3.org/XML/1998/namespace".toList

def xmlnsSpace : List Char := "http://www.w3.org/2000/xmlns/".toList

def xml : List Char := ['x', 'm', 'l']

def xmlns : List Char := ['x', 'm', 'l', 'n', 's']

/-- Qualifiers with the spaces they are bound to, the innermost first. -/
abbrev Scope := List (List Char × List Char)

namespace Attribute

def isQualifiedBinding (a : Attribute) : Bool := a.name.qualifier == xmlns

def isBinding (a : Attribute) : Bool := a.isQualifiedBinding || a.name.base == xmlns

/-- The two reserved spaces are bound to nothing but the qualifier `xml` to its own. -/
def isAdmissible (a : Attribute) : Bool :=
  a.value != xmlnsSpace &&
    (if a.isQualifiedBinding && a.name.base == xml then a.value == xmlSpace
     else a.value != xmlSpace)

end Attribute

def plainAttributes (attributes : List Attribute) : List Attribute :=
  attributes.filter (!·.isBinding)

/-- What the attributes of an element bind, apart from `xml`, which is bound already. -/
def bindings (attributes : List Attribute) : Scope :=
  (attributes.filter fun a => a.isQualifiedBinding && a.name.base != xml).map fun a =>
    (a.name.base, a.value)

/-- The space of an attribute's name, none for a name without a qualifier. -/
def Scope.spaceOf? (scope : Scope) (a : Attribute) : Option (Option (List Char)) :=
  if a.name.qualifier = [] then some none
  else if a.name.qualifier = xml then some (some xmlSpace)
  else (scope.lookup a.name.qualifier).map some

def Scope.expanded? (scope : Scope) (attributes : List Attribute) :
    Option (List (Option (List Char) × List Char)) :=
  (plainAttributes attributes).mapM fun a => (scope.spaceOf? a).map (·, a.name.base)

/-- Why an element is refused whose own bindings are already in scope. -/
def elementFault? (scope : Scope) (name : Name) (attributes : List Attribute) : Option Fault :=
  if !(attributes.filter Attribute.isBinding).all Attribute.isAdmissible then some .badNamespace
  else if ¬ ((bindings attributes).map Prod.fst).Nodup then some .badNamespace
  else if name.qualifier = xmlns then some .badName
  else if name.qualifier ≠ [] ∧ (scope.lookup name.qualifier).isNone then some .unboundName
  else
    match scope.expanded? attributes with
    | none => some .unboundName
    | some names => if names.Nodup then none else some .repeatedAttribute

mutual

def bindingFault? (scope : Scope) : Item → Option Fault
  | .element name attributes children _ _ =>
    let inside := bindings attributes ++ scope
    (elementFault? inside name attributes).or (bindingFaults? inside children)
  | _ => none

def bindingFaults? (scope : Scope) : List Item → Option Fault
  | [] => none
  | item :: rest => (bindingFault? scope item).or (bindingFaults? scope rest)

end

/-- The root element of a text. -/
def read (cs : List Char) : Except Fault Item := do
  let root ← treeOf (← tokens cs)
  match bindingFault? [] root with
  | some fault => throw fault
  | none => return root

end MailMarkup.Xml
