import MailMarkup.Attribute.Schema

/-!
# Components

The three components of a document: the body, which holds blocks and lays them out, and the two
blocks, a badge and raw markup.
-/
namespace MailMarkup

inductive Component where
  | body | badge | raw
  deriving DecidableEq

namespace Component

def tag : Component → String
  | .body => "mj-body"
  | .badge => "mj-badge"
  | .raw => "mj-raw"

def ofTag? (tag : String) : Option Component :=
  [.body, .badge, .raw].find? (·.tag == tag)

def isRaw (c : Component) : Bool := c = .raw

/-- A layout owner sets the width and the background its children see. -/
def ownsLayout (c : Component) : Bool := c = .body

def establishesBackground (c : Component) : Bool := c = .body

/-- The elements inside are components; inside the others they are content. -/
def acceptsChildren (c : Component) : Bool := c = .body

def acceptsChild (c child : Component) : Bool := c.acceptsChildren && child != .body

def px : List LengthUnit := [.px]

def pxOrPercent : List LengthUnit := [.px, .percent]

def bodySchema : Schema where
  attributes :=
    [("width", .length px), ("wrapper-class", .text), ("background-color", .color),
     ("background-url", .text), ("background-repeat", .choice ["repeat", "no-repeat"]),
     ("background-size", .text), ("background-position", .text),
     ("background-position-x", .text), ("background-position-y", .text), ("border", .text),
     ("border-bottom", .text), ("border-left", .text), ("border-radius", .text),
     ("border-right", .text), ("border-top", .text), ("direction", .choice ["ltr", "rtl"]),
     ("full-width", .choice ["full-width"]), ("padding", .shorthand pxOrPercent),
     ("padding-top", .length pxOrPercent), ("padding-bottom", .length pxOrPercent),
     ("padding-left", .length pxOrPercent), ("padding-right", .length pxOrPercent),
     ("text-align", .choice ["left", "center", "right"]),
     ("text-padding", .shorthand pxOrPercent)]
  defaults :=
    [("background-repeat", "repeat"), ("background-size", "auto"),
     ("background-position", "top center"), ("direction", "ltr"), ("width", "600px"),
     ("padding", "20px 0"), ("text-align", "center"), ("text-padding", "4px 4px 4px 0")]

def badgeSchema : Schema where
  attributes :=
    [("align", .choice ["left", "center", "right"]), ("img", .text),
     ("background-color", .color), ("border-bottom", .text), ("border-left", .text),
     ("border-radius", .text), ("border-right", .text), ("border-top", .text),
     ("border", .text), ("color", .color), ("container-background-color", .color),
     ("font-family", .text), ("font-size", .length px), ("font-style", .text),
     ("font-weight", .text), ("height", .length pxOrPercent), ("href", .text), ("name", .text),
     ("inner-padding", .shorthand pxOrPercent), ("letter-spacing", .signedLength [.px, .em]),
     ("line-height", .length [.px, .percent, .unitless]),
     ("padding-bottom", .length pxOrPercent), ("padding-left", .length pxOrPercent),
     ("padding-right", .length pxOrPercent), ("padding-top", .length pxOrPercent),
     ("padding", .shorthand pxOrPercent), ("rel", .text), ("target", .text),
     ("text-decoration", .text), ("text-transform", .text),
     ("vertical-align", .choice ["top", "bottom", "middle"]),
     ("text-align", .choice ["left", "right", "center"]), ("width", .length pxOrPercent)]
  defaults :=
    [("align", "center"), ("color", "#000000"),
     ("font-family", "Ubuntu, Helvetica, Arial, sans-serif"), ("font-size", "12px"),
     ("font-weight", "bold"), ("inner-padding", "7px 16px"), ("line-height", "120%"),
     ("padding", "10px 25px"), ("target", "_blank"), ("border", "1px solid #babbbe"),
     ("text-decoration", "none"), ("text-transform", "none"), ("vertical-align", "middle")]

def rawSchema : Schema where
  attributes := []
  defaults := []

def schema : Component → Schema
  | .body => bodySchema
  | .badge => badgeSchema
  | .raw => rawSchema

/-- What a node of the component may set: its own attributes, then the shared ones. -/
def declared (c : Component) : List (String × AttributeType) :=
  c.schema.attributes ++ Schema.shared.attributes

end Component
end MailMarkup
