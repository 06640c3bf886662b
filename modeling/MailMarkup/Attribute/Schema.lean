import MailMarkup.Attribute.Type

/-!
# Schemas

The attributes a component declares, each with its type, and default texts for some of them. A
default is given to declared attributes only.
-/
namespace MailMarkup

structure Schema where
  attributes : List (String × AttributeType)
  defaults : List (String × String)
  defaults_declared : ∀ d ∈ defaults, d.1 ∈ attributes.map Prod.fst := by decide

namespace Schema

def typeOf? (s : Schema) (name : String) : Option AttributeType := s.attributes.lookup name

def defaultOf? (s : Schema) (name : String) : Option String := s.defaults.lookup name

def declares (s : Schema) (name : String) : Bool := (s.typeOf? name).isSome

/-- The attributes every component accepts. -/
def shared : Schema where
  attributes := [("css-class", .text), ("mj-class", .text)]
  defaults := []

end Schema
end MailMarkup
