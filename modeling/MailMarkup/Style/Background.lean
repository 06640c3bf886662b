import MailMarkup.Attribute.Resolution
import MailMarkup.Style.Styles

/-!
# Background declarations

A background image is declared property by property, since the combined property is not understood
by every client; a color alone is declared both ways. The position of an image is a pair of axes,
horizontal first.
-/
namespace MailMarkup
open Text

namespace BackgroundPosition

def isVertical (word : String) : Bool := word == "top" || word == "bottom"

def isHorizontal (word : String) : Bool := word == "left" || word == "right"

def ofWords : List String → String × String
  | [word] => if isVertical word then ("center", word) else (word, "center")
  | [first, second] =>
    if isVertical first || (first == "center" && isHorizontal second) then (second, first)
    else (first, second)
  | _ => ("center", "top")

/-- The horizontal and the vertical position that a text names. -/
def axes (s : String) : String × String := ofWords (wordsOf s)

/-- The position of a node's background; the attribute of one axis replaces that axis. -/
def ofAttributes (r : Resolution) : String :=
  let both := axes ((r.raw? "background-position").getD "")
  (r.raw? "background-position-x").getD both.1 ++ " "
    ++ (r.raw? "background-position-y").getD both.2

end BackgroundPosition

def backgroundStyles (r : Resolution) : Styles :=
  match r.raw? "background-url" with
  | some url => .ofOptions
      [("background-color", r.raw? "background-color"),
       ("background-image", some ("url('" ++ url ++ "')")),
       ("background-position", some (BackgroundPosition.ofAttributes r)),
       ("background-repeat", r.raw? "background-repeat"),
       ("background-size", r.raw? "background-size")]
  | none => .ofOptions
      [("background", r.raw? "background-color"),
       ("background-color", r.raw? "background-color")]

end MailMarkup
