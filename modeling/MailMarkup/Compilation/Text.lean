import MailMarkup.Compilation.Visit
import MailMarkup.Document.Markup

/-!
# Compilation of texts
-/
namespace MailMarkup

/-- The markup of a text is read first, and what is wrong with it comes before all else. -/
def compileText (s : String) (config : Config) : Except Problem Output := do
  compile (← Document.ofMarkup s) config

end MailMarkup
