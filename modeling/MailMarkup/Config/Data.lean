import MailMarkup.Config.Basic
import MailMarkup.Document.Data

/-!
# Settings as data

What is missing has its default, and fields of other names are ignored.
-/
namespace MailMarkup
open Datum

def Config.ofDatum? (d : Datum) : Option Config := do
  let fields ← d.fields? ["container_width", "validation", "attributes"] 0
  return {
    containerWidth := ← field? fields "container_width" 600 number?
    validation := ← field? fields "validation" .soft fun v => v.choice?.bind Validation.ofName?
    defaults := ← field? fields "attributes" .empty Defaults.ofDatum? }

end MailMarkup
