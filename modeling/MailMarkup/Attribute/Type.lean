import MailMarkup.Length
import MailMarkup.Text.Blank

/-!
# Attribute types

The closed set of types an attribute can have. A length type bounds how many lengths the value
lists, and names the units each of them may carry.
-/
namespace MailMarkup

structure LengthRule where
  units : List LengthUnit
  signed : Bool := false
  least : Nat := 1
  most : Nat := 1
  deriving DecidableEq

def LengthRule.isShorthand (r : LengthRule) : Bool := 1 < r.most

inductive AttributeType where
  | choice (values : List String)
  | lengths (rule : LengthRule)
  | color
  | text
  deriving DecidableEq

namespace AttributeType

def length (units : List LengthUnit) : AttributeType := .lengths ⟨units, false, 1, 1⟩

def signedLength (units : List LengthUnit) : AttributeType := .lengths ⟨units, true, 1, 1⟩

/-- One to four lengths, one for each side of a box. -/
def shorthand (units : List LengthUnit) : AttributeType := .lengths ⟨units, false, 1, 4⟩

end AttributeType

def LengthUnit.name : LengthUnit → String
  | .unitless => "unitless"
  | unit => unit.suffix

def LengthRule.describe (r : LengthRule) : String :=
  let sign := if r.signed then "signed " else ""
  let units := Text.joined ", " (r.units.map LengthUnit.name)
  if r.isShorthand then
    toString r.least ++ "-" ++ toString r.most ++ " " ++ sign ++ "lengths in " ++ units
  else "a " ++ sign ++ "length in " ++ units

def AttributeType.describe : AttributeType → String
  | .choice values => "one of: " ++ Text.joined ", " values
  | .lengths rule => rule.describe
  | .color => "a color (#rgb, #rrggbb, rgb(), rgba() or a named color)"
  | .text => "a string"

end MailMarkup
