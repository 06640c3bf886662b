import MailMarkup.Layout.Box
import MailMarkup.Style.Background
import MailMarkup.Table

/-!
# Style buckets

The style texts of a node, one for each element of its template. A full-width body carries its
background on the outermost table, any other body on its column.
-/
namespace MailMarkup

abbrev Buckets := Table Styles

namespace Buckets

/-- The style text of a bucket, empty if there is no such bucket. -/
def css (b : Buckets) (name : String) : String := ((b.get? name).map Styles.css).getD ""

def isFullWidth (r : Resolution) : Bool := r.raw? "full-width" == some "full-width"

def outerBackground (r : Resolution) : Styles :=
  if isFullWidth r then backgroundStyles r else .empty

def innerBackground (r : Resolution) : Styles :=
  if isFullWidth r then .empty else backgroundStyles r

def bodyCell (r : Resolution) : Styles :=
  .ofOptions
    [("border", r.raw? "border"), ("border-bottom", r.raw? "border-bottom"),
     ("border-left", r.raw? "border-left"), ("border-right", r.raw? "border-right"),
     ("border-top", r.raw? "border-top"), ("direction", r.raw? "direction"),
     ("font-size", some "0px"), ("padding", r.raw? "padding"),
     ("padding-bottom", r.raw? "padding-bottom"), ("padding-left", r.raw? "padding-left"),
     ("padding-right", r.raw? "padding-right"), ("padding-top", r.raw? "padding-top"),
     ("text-align", r.raw? "text-align")]

def ofBody (r : Resolution) (context : Context) : Buckets :=
  let radius := r.raw? "border-radius"
  .ofList
    [("tableFullwidth", ((outerBackground r).set "width" "100%").set? "border-radius" radius),
     ("table", ((innerBackground r).set "width" "100%").set? "border-radius" radius),
     ("td", bodyCell r),
     ("div", (((innerBackground r).set "margin" "0px auto").set? "border-radius" radius).set
        "max-width" context.widthText),
     ("innerDiv", .ofList [("line-height", "0"), ("font-size", "0")])]

def badgeTable (r : Resolution) : Styles :=
  .ofOptions
    [("border-collapse", some "separate"), ("width", r.raw? "width"),
     ("line-height", some "100%")]

def badgeCell (r : Resolution) : Styles :=
  .ofOptions
    [("border", r.raw? "border"), ("border-bottom", r.raw? "border-bottom"),
     ("border-left", r.raw? "border-left"), ("border-radius", r.raw? "border-radius"),
     ("border-right", r.raw? "border-right"), ("border-top", r.raw? "border-top"),
     ("cursor", some "auto"), ("font-style", r.raw? "font-style"), ("height", r.raw? "height"),
     ("mso-padding-alt", r.raw? "inner-padding"), ("text-align", r.raw? "text-align"),
     ("background", r.raw? "background-color")]

def badgeLabel (r : Resolution) : Styles :=
  .ofOptions
    [("display", some "inline-block"),
     ("width", (Component.badge.contentWidth r).map fun w => (Length.px w).text),
     ("background", r.raw? "background-color"), ("color", r.raw? "color"),
     ("font-family", r.raw? "font-family"), ("font-size", r.raw? "font-size"),
     ("font-style", r.raw? "font-style"), ("font-weight", r.raw? "font-weight"),
     ("line-height", r.raw? "line-height"), ("letter-spacing", r.raw? "letter-spacing"),
     ("margin", some "0"), ("text-decoration", r.raw? "text-decoration"),
     ("text-transform", r.raw? "text-transform"), ("padding", r.raw? "inner-padding"),
     ("mso-padding-alt", some "0px"), ("border-radius", r.raw? "border-radius")]

def ofBadge (r : Resolution) : Buckets :=
  .ofList [("table", badgeTable r), ("td", badgeCell r), ("content", badgeLabel r)]

def ofComponent (c : Component) (r : Resolution) (context : Context) : Buckets :=
  match c with
  | .body => ofBody r context
  | .badge => ofBadge r
  | .raw => .empty

end Buckets
end MailMarkup
