import MailMarkup.Template.Standard

/-!
# What the standard templates read

Of a node the templates read its component, its content and the attributes that are set, of its
surroundings the width, and of its children the wrapped markup. The body alone writes its children,
between a start and an end that do not look at them.
-/
namespace MailMarkup
open Markup

/-- What the templates read of a bundle, apart from the children. -/
structure View where
  component : Component
  content : String
  settings : Table Setting
  width : Float

/-- A bundle with nothing more in it than the view. -/
def View.bundle (v : View) : Bundle :=
  let r : Resolution := ⟨v.settings, []⟩
  let context : Context := { width := v.width }
  { component := v.component
    node := { tag := v.component.tag, content := v.content }
    attributes := r
    styles := .ofComponent v.component r context
    box := .ofAttributes r context
    contentWidth := v.component.contentWidth r
    wrap := .ofNode v.component r context
    context := context }

def Bundle.view (b : Bundle) : View :=
  ⟨b.component, b.node.content, b.attributes.settings, b.context.width⟩

section View

variable (c : Component) (n : Node) (defaults : Table String) (context : Context)

theorem Template.pieces_view (children : List Rendered) :
    pieces (.ofNode c n defaults context) children =
      pieces (Bundle.ofNode c n defaults context).view.bundle children := by
  cases c <;> rfl

theorem Bundle.wrap_view :
    (Bundle.ofNode c n defaults context).wrap =
      (Bundle.ofNode c n defaults context).view.bundle.wrap := by
  cases c <;> rfl

end View

namespace Template

/-- Children count by their wrapped markup. -/
theorem pieces_congr (b : Bundle) {children others : List Rendered}
    (same : children.map Rendered.wrapped = others.map Rendered.wrapped) :
    pieces b children = pieces b others := by
  simp only [pieces, body, centered, column, same]

def columnStart (b : Bundle) : List Piece :=
  [.opening "div"
    [("class", b.attributes.raw? "css-class"), ("style", some (b.styles.css "div"))], .line,
   .opening "table" (("align", some "center") :: layoutTable
    [presentation, ("style", some (b.styles.css "table"))]), .line,
   .opening "tbody", .line,
   .opening "tr", .line,
   .opening "td"
    [("style", some (b.styles.css "td")), ("class", b.attributes.raw? "wrapper-class")], .line,
   outlookRows, .line]

def columnEnd : List Piece :=
  [.line, .outlook [.closing "table"], .line, .closing "td", .line, .closing "tr", .line,
   .closing "tbody", .line, .closing "table", .line, .closing "div"]

def centeredStart (b : Bundle) : List Piece := [outlookColumn b, .line] ++ columnStart b

def centeredEnd : List Piece := columnEnd ++ [.line, outlookColumnEnd]

/-- The markup of a body up to its children. -/
def bodyStart (b : Bundle) : List Piece :=
  if Buckets.isFullWidth b.attributes then
    [.opening "table" ([("align", some "center"), ("class", b.attributes.raw? "css-class")]
      ++ layoutTable [presentation, ("style", some (b.styles.css "tableFullwidth"))]), .line,
     .opening "tbody", .line, .opening "tr", .line, .opening "td", .line] ++ centeredStart b
  else centeredStart b

/-- The markup of a body after its children. -/
def bodyEnd (b : Bundle) : List Piece :=
  if Buckets.isFullWidth b.attributes then
    centeredEnd ++ [.line, .closing "td", .line, .closing "tr", .line, .closing "tbody", .line,
      .closing "table"]
  else centeredEnd

private theorem centered_eq (b : Bundle) (children : List Rendered) :
    centered b children = centeredStart b ++
      [.text (Text.joined "\n" (children.map Rendered.wrapped))] ++ centeredEnd :=
  rfl

private theorem body_eq (b : Bundle) (children : List Rendered) :
    body b children =
      bodyStart b ++ [.text (Text.joined "\n" (children.map Rendered.wrapped))] ++ bodyEnd b := by
  unfold body bodyStart bodyEnd
  split
  · rw [fullWidth, centered_eq]
    simp only [List.append_assoc]
  · exact centered_eq b children

end Template

theorem Markup.html_append (pieces others : List Piece) :
    html (pieces ++ others) = html pieces ++ html others := by
  rw [html, List.map_append, String.join_append]
  rfl

theorem Markup.html_text (s : String) : html [.text s] = s := String.empty_append

/-- A body writes its children one under the other, between its start and its end. -/
theorem Template.html_body (b : Bundle) (children : List Rendered) :
    html (body b children) = html (bodyStart b) ++
      Text.joined "\n" (children.map Rendered.wrapped) ++ html (bodyEnd b) := by
  rw [body_eq, html_append, html_append, html_text]

end MailMarkup
