import MailMarkup.Attribute.Defaults
import MailMarkup.Text.Blank

/-!
# Documents

A document is a head, with its title, its preview text and its defaults, and a tree of nodes. A
node is known by its tag alone: the tree may hold tags that no component has.
-/
namespace MailMarkup

structure Node where
  tag : String
  attributes : Table String := .empty
  content : String := ""
  children : List Node := []

namespace Node

def withAttribute (n : Node) (name value : String) : Node :=
  { n with attributes := n.attributes.insert name value }

def withChild (n : Node) (child : Node) : Node := { n with children := n.children ++ [child] }

/-- The classes that the node's own `mj-class` attribute names. -/
def classes (n : Node) : List String :=
  ((n.attributes.get? "mj-class").map Text.wordsOf).getD []

end Node

structure Head where
  title : Option String := none
  preview : Option String := none
  defaults : Defaults := .empty
  deriving DecidableEq

structure Document where
  head : Head := {}
  body : Node

end MailMarkup
