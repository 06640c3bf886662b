import MailMarkup.Template.Bundle

/-!
# The standard templates

Nested tables, which is what mail clients lay out alike. The body centers a column and puts its
children under each other; a badge is a cell with a label, which is a link if it has a target; raw
markup is copied.
-/
namespace MailMarkup.Template
open Markup Piece

/-- A table that is there for its layout only. -/
def layoutTable (attributes : Attributes) : Attributes :=
  [("border", some "0"), ("cellpadding", some "0"), ("cellspacing", some "0")] ++ attributes

def presentation : String × Option String := ("role", some "presentation")

def outlookColumn (b : Bundle) : Piece :=
  .outlook
    [.opening "table" (("align", some "center") :: layoutTable
      [("class", Outlook.outlookClass b.attributes),
       ("style", some ("width:" ++ b.context.widthText ++ ";")),
       ("width", some (Decimal.wholeText b.context.width))]),
     .opening "tr" [],
     .opening "td"
      [("style", some "line-height:0px;font-size:0px;mso-line-height-rule:exactly;")]]

def outlookColumnEnd : Piece := .outlook [.closing "td", .closing "tr", .closing "table"]

def outlookRows : Piece :=
  .outlook [.opening "table" (presentation :: layoutTable [])]

def column (b : Bundle) (children : List Rendered) : List Piece :=
  [opening "div"
    [("class", b.attributes.raw? "css-class"), ("style", some (b.styles.css "div"))], line,
   opening "table" (("align", some "center") :: layoutTable
    [presentation, ("style", some (b.styles.css "table"))]), line,
   opening "tbody", line,
   opening "tr", line,
   opening "td"
    [("style", some (b.styles.css "td")), ("class", b.attributes.raw? "wrapper-class")], line,
   outlookRows, line,
   .text (Text.joined "\n" (children.map Rendered.wrapped)), line,
   .outlook [.closing "table"], line,
   closing "td", line, closing "tr", line, closing "tbody", line, closing "table", line,
   closing "div"]

def centered (b : Bundle) (children : List Rendered) : List Piece :=
  [outlookColumn b, line] ++ column b children ++ [line, outlookColumnEnd]

def fullWidth (b : Bundle) (inner : List Piece) : List Piece :=
  [opening "table" ([("align", some "center"), ("class", b.attributes.raw? "css-class")]
    ++ layoutTable [presentation, ("style", some (b.styles.css "tableFullwidth"))]), line,
   opening "tbody", line, opening "tr", line, opening "td", line] ++ inner ++
  [line, closing "td", line, closing "tr", line, closing "tbody", line, closing "table"]

def body (b : Bundle) (children : List Rendered) : List Piece :=
  if Buckets.isFullWidth b.attributes then fullWidth b (centered b children)
  else centered b children

/-- The color of the cell, which has none if the background is declared as `none`. -/
def cellColor (r : Resolution) : Option String :=
  match r.value? "background-color" with
  | some (.color .none) | none => none
  | some _ => r.raw? "background-color"

def image (r : Resolution) : List Piece :=
  match r.raw? "img" with
  | some source => [.tag (.void "img" [("src", some source)])]
  | none => []

def labelAttributes (b : Bundle) : Attributes :=
  [("href", b.attributes.raw? "href"), ("rel", b.attributes.raw? "rel"),
   ("name", b.attributes.raw? "name"), ("style", some (b.styles.css "content")),
   ("target", (b.attributes.raw? "href").bind fun _ => b.attributes.raw? "target")]

def labelTag (r : Resolution) : String := if (r.raw? "href").isSome then "a" else "p"

def badge (b : Bundle) : List Piece :=
  let label := labelTag b.attributes
  [opening "table" (layoutTable [presentation, ("style", some (b.styles.css "table"))]), line,
   opening "tr", line,
   opening "td"
    [("align", some "center"), ("bgcolor", cellColor b.attributes), presentation,
     ("style", some (b.styles.css "td")), ("valign", b.attributes.raw? "vertical-align")], line,
   opening label (labelAttributes b), line] ++ image b.attributes ++
  [.text (Text.trimmed b.node.content), line,
   closing label, line, closing "td", line, closing "tr", line, closing "table"]

def pieces (b : Bundle) (children : List Rendered) : List Piece :=
  match b.component with
  | .body => body b children
  | .badge => badge b
  | .raw => [.text b.node.content]

def standard : Renderer := fun b children => .ok (html (pieces b children))

end MailMarkup.Template
