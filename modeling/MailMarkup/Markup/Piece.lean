/-!
# Markup pieces

What a template writes: tags, texts, and comments whose content only Outlook reads. An attribute
without a value, or with an empty one, is not written; a double quote in a value is written as its
entity, so that a value never ends early.
-/
namespace MailMarkup.Markup

abbrev Attributes := List (String × Option String)

def escapeQuotes (cs : List Char) : List Char :=
  cs.flatMap fun c => if c = '"' then ['&', 'q', 'u', 'o', 't', ';'] else [c]

def escaped (s : String) : String := String.ofList (escapeQuotes s.toList)

def attributeText (name value : String) : String := " " ++ name ++ "=\"" ++ escaped value ++ "\""

def attributesText : Attributes → String
  | [] => ""
  | (_, none) :: rest => attributesText rest
  | (name, some value) :: rest =>
    if value = "" then attributesText rest
    else attributeText name value ++ attributesText rest

inductive Tag where
  | opening (name : String) (attributes : Attributes)
  | closing (name : String)
  | void (name : String) (attributes : Attributes)

def Tag.text : Tag → String
  | .opening name attributes => "<" ++ name ++ attributesText attributes ++ ">"
  | .closing name => "</" ++ name ++ ">"
  | .void name attributes => "<" ++ name ++ attributesText attributes ++ " />"

def startConditional : String := "<!--[if mso | IE]>"

def endConditional : String := "<![endif]-->"

/-- Content that only Outlook and old browsers of its family read. -/
def conditional (content : String) : String := startConditional ++ content ++ endConditional

inductive Piece where
  | tag (t : Tag)
  | outlook (tags : List Tag)
  | text (s : String)

namespace Piece

def opening (name : String) (attributes : Attributes := []) : Piece := .tag (.opening name attributes)

def closing (name : String) : Piece := .tag (.closing name)

def line : Piece := .text "\n"

def html : Piece → String
  | .tag t => t.text
  | .outlook tags => conditional (String.join (tags.map Tag.text))
  | .text s => s

end Piece

def html (pieces : List Piece) : String := String.join (pieces.map Piece.html)

end MailMarkup.Markup
