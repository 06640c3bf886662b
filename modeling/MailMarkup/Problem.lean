import MailMarkup.Attribute.Type
import MailMarkup.Xml.Fault

/-!
# Problems

Everything that can go wrong, with its wording. A diagnostic degrades the output and is collected;
any other problem ends the work at hand.
-/
namespace MailMarkup

inductive Problem where
  | unknownAttribute (component name : String)
  | invalidValue (name value : String) (expected : AttributeType)
  | impossibleBox (component : String) (width : Float)
  | unknownComponent (tag : String)
  | strayInRoot (tag : String)
  | strayInHead (tag : String)
  | strayInAttributes (tag : String)
  | namelessClass
  | emptyDocument
  | missingBody
  | multipleBodies
  | misplacedComponent (parent tag : String)
  | malformedMarkup (fault : Xml.Fault)
  | malformedConfig
  | impossibleWidth (width : Float)
  | unreadableConfig (path reason : String)
  | inputOutput (reason : String)

namespace Problem

def isDiagnostic : Problem → Bool
  | .unknownAttribute .. | .invalidValue .. | .impossibleBox .. => true
  | _ => false

def stray (parent tag reason : String) : String :=
  "Invalid element <" ++ tag ++ "> in " ++ parent ++ ": " ++ reason

def message : Problem → String
  | .unknownAttribute component name =>
    "Unknown attribute '" ++ name ++ "' on <" ++ component ++ ">: dropped"
  | .invalidValue name value expected =>
    "Invalid value '" ++ value ++ "' for attribute '" ++ name ++ "': expected "
      ++ expected.describe
  | .impossibleBox component width =>
    "Impossible box on <" ++ component ++ ">: paddings and borders leave " ++ Decimal.text width
      ++ "px of content width"
  | .unknownComponent tag => "Unknown component <" ++ tag ++ ">"
  | .strayInRoot tag => stray "mjml" tag "expected <mj-head> or <mj-body>"
  | .strayInHead tag =>
    stray "mj-head" tag "expected <mj-title>, <mj-preview> or <mj-attributes>"
  | .strayInAttributes tag =>
    stray "mj-attributes" tag "expected <mj-all>, <mj-class> or a component tag"
  | .namelessClass => stray "mj-attributes" "mj-class" "missing required attribute 'name'"
  | .emptyDocument => "Empty document: no <mj-body> found"
  | .missingBody => "Document has content but is missing an <mj-body> section"
  | .multipleBodies =>
    "Multiple <mj-body> sections found. A document must have exactly one body"
  | .misplacedComponent parent tag => "<" ++ tag ++ "> cannot be placed inside <" ++ parent ++ ">"
  | .malformedMarkup fault => "XML parse error: " ++ fault.message
  | .malformedConfig => "Configuration error: the settings are not of the expected form"
  | .impossibleWidth width =>
    "Configuration error: container_width must be a positive number, got " ++ Decimal.text width
  | .unreadableConfig path reason =>
    "Configuration error: failed to read " ++ path ++ ": " ++ reason
  | .inputOutput reason => "I/O error: " ++ reason

end Problem
end MailMarkup
