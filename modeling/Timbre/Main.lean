import Timbre.Command

/-!
# The executable

Reads the file that the options name, runs the command and writes its streams.
-/

namespace Timbre

/-- What the executable counts on: eight workers, and all the memory that has addresses. -/
def host : Host := ⟨8, (· < 1 <<< 47)⟩

/-- The script itself, or the contents of its file. -/
def readScript (options : Options) : IO (Option String) :=
  if options.file then
    try
      return some (← IO.FS.readFile options.contents)
    catch _ => return none
  else return some options.contents

/-- What the arguments ask for. -/
def runCommand (arguments : List String) : IO Outcome :=
  match Options.ofArguments arguments with
  | .error halt => return halt.outcome
  | .ok options => return options.execute defaultBudget host (← readScript options)

end Timbre

/-- Run the command and leave with its exit code. -/
def main (arguments : List String) : IO UInt32 := do
  let outcome ← Timbre.runCommand arguments
  (← IO.getStdout).putStr outcome.output
  (← IO.getStderr).putStr outcome.errors
  return UInt32.ofNat outcome.exitCode
