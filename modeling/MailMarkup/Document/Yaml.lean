import MailMarkup.Document.Data
import MailMarkup.Yaml.Reading

/-!
# Documents in YAML
-/
namespace MailMarkup

def Document.ofYaml? (s : String) : Option Document :=
  (Yaml.read .document s).bind Document.ofDatum?

end MailMarkup
