import MailMarkup.Text.Blank
import MailMarkup.Text.DecimalDigit

/-!
# Colors

A color is written as `none`, `transparent`, a hexadecimal triple, a functional triple with an
optional opacity, or a name. The spelling is kept as it stands.
-/
namespace MailMarkup
open Text

inductive Color where
  | hex (text : String)
  | functional (text : String)
  | named (text : String)
  | transparent
  | none
  deriving DecidableEq

namespace Color

def text : Color → String
  | .hex s | .functional s | .named s => s
  | .transparent => "transparent"
  | .none => "none"

def names : List String :=
  ["aliceblue", "antiquewhite", "aqua", "aquamarine", "azure", "beige", "bisque", "black",
   "blanchedalmond", "blue", "blueviolet", "brown", "burlywood", "cadetblue", "chartreuse",
   "chocolate", "coral", "cornflowerblue", "cornsilk", "crimson", "cyan", "darkblue",
   "darkcyan", "darkgoldenrod", "darkgray", "darkgreen", "darkgrey", "darkkhaki",
   "darkmagenta", "darkolivegreen", "darkorange", "darkorchid", "darkred", "darksalmon",
   "darkseagreen", "darkslateblue", "darkslategray", "darkslategrey", "darkturquoise",
   "darkviolet", "deeppink", "deepskyblue", "dimgray", "dimgrey", "dodgerblue", "firebrick",
   "floralwhite", "forestgreen", "fuchsia", "gainsboro", "ghostwhite", "gold", "goldenrod",
   "gray", "green", "greenyellow", "grey", "honeydew", "hotpink", "indianred", "indigo",
   "ivory", "khaki", "lavender", "lavenderblush", "lawngreen", "lemonchiffon", "lightblue",
   "lightcoral", "lightcyan", "lightgoldenrodyellow", "lightgray", "lightgreen", "lightgrey",
   "lightpink", "lightsalmon", "lightseagreen", "lightskyblue", "lightslategray",
   "lightslategrey", "lightsteelblue", "lightyellow", "lime", "limegreen", "linen", "magenta",
   "maroon", "mediumaquamarine", "mediumblue", "mediumorchid", "mediumpurple",
   "mediumseagreen", "mediumslateblue", "mediumspringgreen", "mediumturquoise",
   "mediumvioletred", "midnightblue", "mintcream", "mistyrose", "moccasin", "navajowhite",
   "navy", "oldlace", "olive", "olivedrab", "orange", "orangered", "orchid", "palegoldenrod",
   "palegreen", "paleturquoise", "palevioletred", "papayawhip", "peachpuff", "peru", "pink",
   "plum", "powderblue", "purple", "rebeccapurple", "red", "rosybrown", "royalblue",
   "saddlebrown", "salmon", "sandybrown", "seagreen", "seashell", "sienna", "silver",
   "skyblue", "slateblue", "slategray", "slategrey", "snow", "springgreen", "steelblue", "tan",
   "teal", "thistle", "tomato", "turquoise", "violet", "wheat", "white", "whitesmoke",
   "yellow", "yellowgreen"]

def isHexDigit (c : Char) : Bool :=
  c.isDigit || ('a' ≤ c && c ≤ 'f') || ('A' ≤ c && c ≤ 'F')

def isHex : List Char → Bool
  | '#' :: ds => (ds.length == 3 || ds.length == 6) && ds.all isHexDigit
  | _ => false

def dropPercent : List Char → List Char
  | '%' :: cs => cs
  | cs => cs

/-- The text after a component: one to three decimal digits with an optional percent sign, blanks
around it. -/
def afterComponent (cs : List Char) : Option (List Char) :=
  let digits := (dropBlanks cs).takeWhile isDecimalDigit
  let rest := (dropBlanks cs).dropWhile isDecimalDigit
  if 1 ≤ digits.length ∧ digits.length ≤ 3 then some (dropBlanks (dropPercent rest))
  else .none

/-- The text after an opacity: digits, or optional digits, a point and digits, blanks around it. -/
def afterOpacity (cs : List Char) : Option (List Char) :=
  let digits := (dropBlanks cs).takeWhile isDecimalDigit
  match (dropBlanks cs).dropWhile isDecimalDigit with
  | '.' :: rest =>
    if rest.takeWhile isDecimalDigit = [] then .none
    else some (dropBlanks (rest.dropWhile isDecimalDigit))
  | rest => if digits = [] then .none else some (dropBlanks rest)

def afterComma : List Char → Option (List Char)
  | ',' :: cs => some cs
  | _ => .none

def afterFunction : List Char → Option (List Char)
  | 'r' :: 'g' :: 'b' :: 'a' :: '(' :: cs => some cs
  | 'r' :: 'g' :: 'b' :: '(' :: cs => some cs
  | _ => .none

def afterComponents (cs : List Char) : Option (List Char) := do
  let cs ← afterFunction cs
  let cs ← afterComponent cs
  let cs ← afterComma cs
  let cs ← afterComponent cs
  let cs ← afterComma cs
  afterComponent cs

def isFunctional (cs : List Char) : Bool :=
  match afterComponents cs with
  | some (',' :: rest) => afterOpacity rest = some [')']
  | some rest => rest = [')']
  | .none => false

def lowercase (s : String) : String := String.ofList (s.toList.map Char.toLower)

def read? (s : String) : Option Color :=
  if s = "none" then some .none
  else if s = "transparent" then some .transparent
  else if isHex s.toList then some (.hex s)
  else if isFunctional s.toList then some (.functional s)
  else if names.contains (lowercase s) then some (.named s)
  else Option.none

end Color
end MailMarkup
