import MailMarkup.Compilation.Text
import MailMarkup.Config.Yaml

/-!
# The command line

The arguments name files of markup, which are compiled one after the other, and perhaps a file of
settings for all of them. The markup goes to the standard output and everything else to the standard
error. A file that cannot be compiled does not keep the others from it; settings that cannot be read
do.
-/
namespace MailMarkup.CommandLine

/-- Files by their paths, each with its text or with why it cannot be read. -/
abbrev Files := String → Except String String

structure Invocation where
  settings : Option String := none
  paths : List String
  deriving DecidableEq

/-- Splits the arguments at the first option for settings, if a path follows it. -/
def Invocation.ofArguments? (arguments : List String) : Option Invocation :=
  let before := arguments.takeWhile (· ≠ "--config")
  match arguments.drop before.length with
  | [] => some { paths := arguments }
  | [_] => none
  | _ :: path :: rest => some { settings := path, paths := before ++ rest }

/-- The lines written so far, and whether anything failed. -/
structure Report where
  output : List String := []
  errors : List String := []
  isFailure : Bool := false

namespace Report

def append (a b : Report) : Report :=
  ⟨a.output ++ b.output, a.errors ++ b.errors, a.isFailure || b.isFailure⟩

instance : Append Report := ⟨append⟩

def failure (errors : List String) : Report := { errors := errors, isFailure := true }

def exitCode (r : Report) : Nat := if r.isFailure then 1 else 0

def written (lines : List String) : String := String.join (lines.map (· ++ "\n"))

end Report

def usage : List String :=
  ["Usage: mjml-compile [--config config.yaml] <file.mjml>...",
   "",
   "Examples:",
   "  mjml-compile newsletter.mjml",
   "  RUST_LOG=debug mjml-compile --config mjml.yaml *.mjml"]

def settings (files : Files) : Option String → Except Problem Config
  | none => .ok {}
  | some path =>
    match files path with
    | .ok s => Config.ofYaml s
    | .error reason => .error (.unreadableConfig path reason)

def compileFile (files : Files) (config : Config) (path : String) : Except Problem Output :=
  match files path with
  | .ok s => compileText s config
  | .error reason => .error (.inputOutput ("Failed to read " ++ path ++ ": " ++ reason))

def verdict (path : String) : List Problem → List String
  | [] => ["✓ " ++ path]
  | found =>
    ("! " ++ path ++ " compiled with " ++ toString found.length ++ " warning(s):")
      :: found.map ("    " ++ ·.message)

def reportFile (files : Files) (config : Config) (path : String) : Report :=
  match compileFile files config path with
  | .ok o => { output := [o.html], errors := verdict path o.diagnostics }
  | .error p => .failure ["✗ " ++ path ++ " failed:", "  " ++ p.message]

def reportFiles (files : Files) (config : Config) (paths : List String) : Report :=
  (paths.map (reportFile files config)).foldl (· ++ ·) {}

def run (files : Files) (arguments : List String) : Report :=
  match Invocation.ofArguments? arguments with
  | none => .failure ["--config expects a file path"]
  | some i =>
    match settings files i.settings with
    | .error p => .failure ["✗ " ++ p.message]
    | .ok config =>
      if i.paths = [] then .failure usage else reportFiles files config i.paths

end MailMarkup.CommandLine
