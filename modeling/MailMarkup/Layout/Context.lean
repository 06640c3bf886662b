import MailMarkup.Attribute.Resolution

/-!
# Layout contexts

What a node knows of its surroundings: the width it may fill and the background behind it. A
layout owner hands its own width and background to its children; any other component hands on what
it was given.
-/
namespace MailMarkup

structure Context where
  width : Float
  background : Option String := none

namespace Context

def widthText (c : Context) : String := (Length.px c.width).text

/-- The width in pixels that a layout owner sets, if it sets one. -/
def ownWidth? (r : Resolution) : Option Float :=
  match r.value? "width" with
  | some (.length ⟨value, .px⟩) => some value
  | _ => none

/-- The context of the children of a node. -/
def inside (context : Context) (c : Component) (r : Resolution) : Context :=
  if c.ownsLayout then
    { width := (ownWidth? r).getD context.width
      background := (r.raw? "background-color").or context.background }
  else context

def insideLine (c : Component) (inner : Context) : Log.Line :=
  ⟨.debug, "<" ++ c.tag ++ "> children get container width " ++ Decimal.text inner.width ++ "px"⟩

end Context

/-- The background that the body announces for the enclosing page. -/
structure Background where
  color : Option String := none

namespace Background

/-- The last announcement counts. -/
def announce (_ : Background) (color : String) : Background := ⟨some color⟩

def announceLines (b : Background) (color : String) : List Log.Line :=
  b.color.toList.map fun previous =>
    ⟨.debug, "background color " ++ previous ++ " replaced by " ++ color⟩

end Background
end MailMarkup
