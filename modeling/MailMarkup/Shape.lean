/-!
# Shapes

What may stand at each place of a document or of settings. A text whose scalars have no type of
their own is read against a shape; what no shape mentions is left unread.
-/
namespace MailMarkup

/-- What a scalar is read as. -/
inductive Leaf where
  | text | optionalText | number | choice
  deriving DecidableEq

inductive Shape where
  | leaf (l : Leaf)
  | texts | layers | defaults | head | node | nodes | document | config
  deriving DecidableEq

/-- How a shape is put together from others. -/
inductive Form where
  | leaf (l : Leaf)
  | list (item : Shape)
  | table (value : Shape)
  | record (fields : List (String × Shape))

namespace Shape

def text : Shape := .leaf .text

def optionalText : Shape := .leaf .optionalText

def form : Shape → Form
  | .leaf l => .leaf l
  | .texts => .table text
  | .layers => .table .texts
  | .defaults => .record [("all", .texts), ("tags", .layers), ("classes", .layers)]
  | .head => .record [("title", optionalText), ("preview", optionalText), ("attributes", .defaults)]
  | .node => .record
      [("tag", text), ("attributes", .texts), ("content", text), ("children", .nodes)]
  | .nodes => .list .node
  | .document => .record [("head", .head), ("body", .node)]
  | .config => .record
      [("container_width", .leaf .number), ("validation", .leaf .choice),
       ("attributes", .defaults)]

end Shape
end MailMarkup
