/-!
# Log lines

What the library reports beside its results. Each level includes the more severe ones.
-/
namespace MailMarkup.Log

inductive Level where
  | error | warn | debug | trace
  deriving DecidableEq

def Level.name : Level → String
  | .error => "ERROR"
  | .warn => "WARN"
  | .debug => "DEBUG"
  | .trace => "TRACE"

def Level.verbosity : Level → Nat
  | .error => 1
  | .warn => 2
  | .debug => 4
  | .trace => 5

structure Line where
  level : Level
  text : String
  deriving DecidableEq

def Line.written (l : Line) : String := l.level.name ++ " " ++ l.text

/-- The lines at a level or a more severe one. -/
def upTo (level : Level) (lines : List Line) : List Line :=
  lines.filter (·.level.verbosity ≤ level.verbosity)

end MailMarkup.Log
