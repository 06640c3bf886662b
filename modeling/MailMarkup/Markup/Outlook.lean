import MailMarkup.Layout.Context
import MailMarkup.Markup.Piece

/-!
# Outlook wrappers

Outlook needs a table cell of a fixed width around every block that lays itself out. The cell
stands in conditional comments before and after the block, whose own markup is left untouched. Raw
markup is never wrapped.
-/
namespace MailMarkup.Outlook
open Markup Text

structure Wrap where
  needed : Bool := false
  attributes : Attributes := []

/-- Each class with a suffix, if there is one at all. -/
def suffixed (suffix : String) (classes : Option String) : Option String :=
  match wordsOf (classes.getD "") with
  | [] => none
  | words => some (joined " " (words.map fun word => word ++ "-" ++ suffix))

def outlookClass (r : Resolution) : Option String := suffixed "outlook" (r.raw? "css-class")

def Wrap.ofNode (c : Component) (r : Resolution) (context : Context) : Wrap :=
  if c.isRaw then {}
  else
    { needed := true
      attributes :=
        [("align", r.raw? "align"), ("class", outlookClass r), ("width", some context.widthText)] }

def Wrap.around (w : Wrap) (inner : String) : String :=
  if w.needed then
    html
      [.outlook [.opening "tr" [], .opening "td" w.attributes], .line, .text inner, .line,
       .outlook [.closing "td", .closing "tr"]]
  else inner

end MailMarkup.Outlook
