import MailMarkup.CommandLine

/-!
# The program

It reads the files that its arguments name and writes the report on them.
-/
namespace MailMarkup.CommandLine

/-- The system's number for a reason, which may come with its sign turned. -/
def reasonNumber (code : UInt32) : Nat := if code < 0x80000000 then code.toNat else (-code).toNat

/-- Why the system refuses a file. -/
def reasonOf : IO.Error → String
  | .noFileOrDirectory _ code details
  | .permissionDenied _ code details
  | .inappropriateType _ code details
  | .invalidArgument _ code details
  | .resourceExhausted _ code details
  | .illegalOperation code details =>
    details.capitalize ++ " (os error " ++ toString (reasonNumber code) ++ ")"
  | .userError _ => "stream did not contain valid UTF-8"
  | e => toString e

def readFile (path : String) : IO (Except String String) := do
  try
    return .ok (← IO.FS.readFile path)
  catch e => return .error (reasonOf e)

/-- Reads every file that an argument may name, then writes what there is to report. -/
def execute (arguments : List String) : IO UInt32 := do
  let texts ← arguments.mapM fun path => return (path, ← readFile path)
  let r := run (fun path => (texts.lookup path).getD (.error "not read")) arguments
  IO.eprint (Report.written r.errors)
  IO.print (Report.written r.output)
  return r.exitCode.toUInt32

end MailMarkup.CommandLine

def main (arguments : List String) : IO UInt32 := MailMarkup.CommandLine.execute arguments
