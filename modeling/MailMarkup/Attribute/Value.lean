import MailMarkup.Color
import MailMarkup.Problem

/-!
# Attribute values

A text is read at the type of its attribute, blanks around it set aside. A list of lengths is
expanded to the four sides of a box by the rule for one, two, three and four lengths.
-/
namespace MailMarkup
open Text

inductive Side where
  | top | right | bottom | left
  deriving DecidableEq

def Side.name : Side → String
  | .top => "top"
  | .right => "right"
  | .bottom => "bottom"
  | .left => "left"

/-- Which of `count` lengths belongs to a side. -/
def Side.index (count : Nat) : Side → Nat
  | .top => 0
  | .right => if count = 1 then 0 else 1
  | .bottom => if count = 1 ∨ count = 2 then 0 else 2
  | .left => if count = 1 then 0 else if count = 2 ∨ count = 3 then 1 else 3

def sideOf (lengths : List Length) (side : Side) : Length :=
  lengths[side.index lengths.length]?.getD (.px 0)

inductive Value where
  | choice (text : String)
  | length (l : Length)
  | shorthand (lengths : List Length)
  | color (c : Color)
  | text (s : String)

namespace LengthRule

/-- The unit of a bare zero where the rule has no unitless form. -/
def zeroUnit (r : LengthRule) : LengthUnit :=
  if r.units.contains .px then .px else r.units.head?.getD .px

def admit? (r : LengthRule) (l : Length) : Option Length :=
  if l.value < 0 ∧ r.signed = false then none
  else if r.units.contains l.unit then some l
  else if l.isBareZero then some { l with unit := r.zeroUnit }
  else none

def readAll? (r : LengthRule) (tokens : List String) : Option (List Length) :=
  if r.least ≤ tokens.length ∧ tokens.length ≤ r.most then
    tokens.mapM fun token => (Length.read? token).bind r.admit?
  else none

def read? (r : LengthRule) (s : String) : Option Value := do
  let lengths ← r.readAll? (wordsOf s)
  if r.isShorthand then some (.shorthand lengths) else lengths.head?.map .length

end LengthRule

namespace Value

def read? (type : AttributeType) (s : String) : Option Value :=
  match type with
  | .choice values => if values.contains s then some (.choice s) else none
  | .lengths rule => rule.read? s
  | .color => (Color.read? s).map .color
  | .text => some (.text s)

def ofRaw (name raw : String) (type : AttributeType) : Except Problem Value :=
  match read? type (trimmed raw) with
  | some value => .ok value
  | none => .error (.invalidValue name (trimmed raw) type)

end Value

def Color.ofText (name s : String) : Except Problem Color :=
  match Color.read? s with
  | some color => .ok color
  | .none => .error (.invalidValue name s .color)

end MailMarkup
