import MailMarkup.Config.Data
import MailMarkup.Yaml.Reading

/-!
# Settings in YAML
-/
namespace MailMarkup

/-- The settings that a text gives. An empty text gives none, so that all have their defaults. -/
def Config.ofYaml (s : String) : Except Problem Config :=
  match (Yaml.read .config s).bind Config.ofDatum? with
  | some c => c.checked
  | none => .error .malformedConfig

end MailMarkup
