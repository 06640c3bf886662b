import MailMarkup.Document.Basic
import MailMarkup.Layout.Box
import MailMarkup.Markup.Outlook
import MailMarkup.Style.Buckets

/-!
# Bundles

Everything that is known of a node when its markup is written. A renderer turns a bundle and the
rendered children of its node into markup, or refuses; a parent is responsible for wrapping its
children.
-/
namespace MailMarkup

structure Bundle where
  component : Component
  node : Node
  attributes : Resolution
  styles : Buckets
  box : BoxWidths
  contentWidth : Option Float
  wrap : Outlook.Wrap
  context : Context

/-- The bundle of a node in a context, under the defaults of the layers for it. -/
def Bundle.ofNode (c : Component) (n : Node) (defaults : Table String) (context : Context) :
    Bundle :=
  let r := Resolution.resolve c defaults n.attributes
  { component := c
    node := n
    attributes := r
    styles := .ofComponent c r context
    box := .ofAttributes r context
    contentWidth := c.contentWidth r
    wrap := .ofNode c r context
    context := context }

structure Rendered where
  bundle : Bundle
  html : String

def Rendered.wrapped (r : Rendered) : String := r.bundle.wrap.around r.html

abbrev Renderer := Bundle → List Rendered → Except Problem String

end MailMarkup
