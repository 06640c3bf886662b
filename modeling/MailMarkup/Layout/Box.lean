import MailMarkup.Layout.Context

/-!
# Boxes

Horizontal extents in pixels: the thickness of borders, the paddings of the sides, and what they
leave of a declared width. A width that is not in pixels cannot be resolved here. Nothing is
clamped, so paddings and borders that do not fit leave a negative width.
-/
namespace MailMarkup
open Text Decimal

/-- The first run of decimal digits that stands at the start or after a blank. -/
def leadingDigits : Bool → List Char → Option (List Char)
  | _, [] => none
  | atStart, c :: cs =>
    if atStart && isDecimalDigit c then some ((c :: cs).takeWhile isDecimalDigit)
    else leadingDigits (isBlank c) cs

/-- The thickness that a border declaration names, zero if it names none in ASCII digits. -/
def borderThickness (s : String) : Float :=
  match leadingDigits true s.toList with
  | some digits => if digits.all Char.isDigit then numeral false digits [] else 0
  | none => 0

structure Border where
  common : Option String := none
  left : Option String := none
  right : Option String := none

namespace Border

def ofAttributes (r : Resolution) : Border where
  common := r.raw? "border"
  left := r.raw? "border-left"
  right := r.raw? "border-right"

def thickness (b : Border) (own : Option String) : Float :=
  (((own.filter (· ≠ "")).or b.common).map borderThickness).getD 0

def horizontal (b : Border) : Float := b.thickness b.left + b.thickness b.right

end Border

structure Sides where
  top : Float := 0
  right : Float := 0
  bottom : Float := 0
  left : Float := 0

namespace Sides

def uniform (x : Float) : Sides := ⟨x, x, x, x⟩

def ofAttribute (r : Resolution) (name : String) : Sides where
  top := r.side name .top
  right := r.side name .right
  bottom := r.side name .bottom
  left := r.side name .left

def horizontal (s : Sides) : Float := s.left + s.right

end Sides

/-- The digits after a point, if a point with digits follows, and the rest. -/
def readDecimals (cs : List Char) : List Char × List Char :=
  match cs with
  | '.' :: rest => if (digitRun rest).1 = [] then ([], cs) else digitRun rest
  | _ => ([], cs)

def readWidthUnit : List Char → LengthUnit × List Char
  | 'p' :: 'x' :: cs => (.px, cs)
  | '%' :: cs => (.percent, cs)
  | cs => (.px, cs)

/-- A declared width, with blanks around its number and its unit. A bare number is in pixels. -/
def declaredWidth? (s : String) : Option Length :=
  let whole := digitRun (dropBlanks s.toList)
  let fraction := readDecimals whole.2
  let unit := readWidthUnit (dropBlanks fraction.2)
  if whole.1 = [] ∨ dropBlanks unit.2 ≠ [] then none
  else some ⟨numeral false whole.1 fraction.1, unit.1⟩

/-- What paddings and borders leave of a declared width in pixels. -/
def innerWidth (width : Option String) (border : Border) (padding : Sides) : Option Float :=
  match width.bind declaredWidth? with
  | some ⟨value, .px⟩ => some (value - padding.horizontal - border.horizontal)
  | _ => none

structure BoxWidths where
  total : Float
  borders : Float
  paddings : Float
  box : Float

def BoxWidths.ofAttributes (r : Resolution) (context : Context) : BoxWidths :=
  let paddings := (Sides.ofAttribute r "padding").horizontal
  let borders := (Border.ofAttributes r).horizontal
  ⟨context.width, borders, paddings, context.width - paddings - borders⟩

/-- The width of the label of a badge; the other components have no content width. -/
def Component.contentWidth : Component → Resolution → Option Float
  | .badge, r =>
    innerWidth (r.raw? "width") (.ofAttributes r) (.ofAttribute r "inner-padding")
  | _, _ => none

end MailMarkup
