import MailMarkup.Decimal.Positional

/-!
# Lengths

A number with its unit, such as `10px` or `1.5`. A length is read from a single token: an optional
minus sign, digits with at most one point, and a unit up to the end of the token.
-/
namespace MailMarkup

inductive LengthUnit where
  | px | percent | em | unitless
  deriving DecidableEq

def LengthUnit.suffix : LengthUnit → String
  | .px => "px"
  | .percent => "%"
  | .em => "em"
  | .unitless => ""

def LengthUnit.ofSuffix? (suffix : String) : Option LengthUnit :=
  [.px, .percent, .em, .unitless].find? (·.suffix == suffix)

structure Length where
  value : Float
  unit : LengthUnit

namespace Length

def px (value : Float) : Length := ⟨value, .px⟩

def text (l : Length) : String := Decimal.text l.value ++ l.unit.suffix

def isBareZero (l : Length) : Bool := l.value == 0 && l.unit = .unitless

def readMagnitude (negative : Bool) (cs : List Char) : Option Length :=
  let whole := Decimal.digitRun cs
  let fraction := Decimal.readFraction whole.2
  if whole.1 = [] ∧ fraction.1 = [] then none
  else (LengthUnit.ofSuffix? (String.ofList fraction.2)).map
    (Length.mk (Decimal.numeral negative whole.1 fraction.1))

def read? (token : String) : Option Length :=
  match token.toList with
  | '-' :: cs => readMagnitude true cs
  | cs => readMagnitude false cs

end Length
end MailMarkup
