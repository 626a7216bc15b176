import SchemaChange.CommandLine.Outcome

/-!
# The command line

Reads the files that an invocation names, prints what it yields and ends with its code: one
after a failure and two after a misuse.
-/
namespace SchemaChange.CommandLine

def usage : String :=
  "Usage: schema-change [--config FILE] split [--dialect NAME] [--strip-comments] FILE\n" ++
  "       schema-change [--config FILE] generate [--dialect NAME] [--mode strict|emulate]\n" ++
  "                                              [--switches TEXT] FILE\n"

/-- The text of a file, or why it cannot be read. -/
def readText (path : String) : IO (Except String String) := do
  try
    return .ok (← IO.FS.readFile path)
  catch
    | .noFileOrDirectory .. => return .error "No such file or directory (os error 2)"
    | e => return .error (toString e)

/-- Read the files of an invocation beforehand. -/
def readFiles (i : Invocation) : IO Files := do
  let file ← readText i.file
  match i.config with
  | none => return fun _ => file
  | some path =>
      let config ← readText path
      return fun name => if name = path then config else file

def run (i : Invocation) : IO UInt32 := do
  let outcome := i.outcome (← readFiles i)
  IO.print outcome.output
  match outcome.failure with
  | some failure =>
      IO.eprintln failure.text
      return 1
  | none => return 0

end SchemaChange.CommandLine

open SchemaChange.CommandLine in
def main (arguments : List String) : IO UInt32 := do
  match Invocation.ofArguments arguments with
  | .ok i => run i
  | .error .help =>
      IO.print usage
      return 0
  | .error .version =>
      IO.println "schema-change 0.1.0"
      return 0
  | .error .misuse =>
      IO.eprint usage
      return 2
