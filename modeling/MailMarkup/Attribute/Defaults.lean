import MailMarkup.Log
import MailMarkup.Table

/-!
# Defaults

Attribute texts that hold for many nodes: for all of them, for those of a tag, and for those that
name a class. For one node the layers apply in that order, and the classes in the order in which
the node names them; a later layer wins.
-/
namespace MailMarkup

structure Defaults where
  all : Table String := .empty
  tags : Table (Table String) := .empty
  classes : Table (Table String) := .empty
  deriving DecidableEq

namespace Defaults

def empty : Defaults := {}

/-- Adds attributes to the layer of a name, which comes to exist even without attributes. -/
def extend (layers : Table (Table String)) (name : String) (attributes : Table String) :
    Table (Table String) :=
  layers.insert name (((layers.get? name).getD .empty).overlay attributes)

def extendAll (layers upper : Table (Table String)) : Table (Table String) :=
  upper.entries.foldl (fun t e => extend t e.1 e.2) layers

/-- Both sets of defaults layer by layer, `upper` winning for each attribute. -/
def merge (d upper : Defaults) : Defaults where
  all := d.all.overlay upper.all
  tags := extendAll d.tags upper.tags
  classes := extendAll d.classes upper.classes

def ofClass (d : Defaults) (name : String) : Table String := (d.classes.get? name).getD .empty

/-- The defaults of a node with the given tag and classes. -/
def forNode (d : Defaults) (tag : String) (classes : List String) : Table String :=
  classes.foldl (fun t name => t.overlay (d.ofClass name))
    (d.all.overlay ((d.tags.get? tag).getD .empty))

/-- The classes among `names` that no layer declares, as often as they are named. -/
def undeclared (d : Defaults) (names : List String) : List String :=
  names.filter (!d.classes.contains ·)

def undeclaredLine (tag name : String) : Log.Line :=
  ⟨.warn, "<" ++ tag ++ ">: mj-class '" ++ name ++ "' is not declared"⟩

end Defaults
end MailMarkup
