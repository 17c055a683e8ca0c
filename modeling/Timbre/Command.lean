import Timbre.Note
import Timbre.Options
import Timbre.Performance

/-!
# The command

The command writes the samples of a definition, one to a line, or lists the
names that can be rendered. Everything that can go wrong is written to the error
stream and gives a nonzero exit code: two for arguments that make no sense, that of
the crash for a rendering that crashes, and one for all else.

Reading the file and writing the streams is left to the caller.
-/

namespace Timbre

/-- What a run of the command leaves behind. -/
structure Outcome where
  exitCode : Nat
  output : String
  errors : String
  deriving DecidableEq, Repr

namespace Outcome

/-- Lines of output and no error. -/
def lines (texts : List String) : Outcome := ⟨0, String.join (texts.map (· ++ "\n")), ""⟩

/-- A message and no output. -/
def failure (message : String) : Outcome := ⟨1, "", message ++ "\n"⟩

/-- The message of a crash and no output. -/
def crash (reason : Crash) : Outcome := ⟨reason.exitCode, "", reason.message ++ "\n"⟩

end Outcome

/-- The name and the version of the command. -/
def versionText : String := "sythin 0.1.0"

/-- How the command is called. -/
def usageText : String :=
  "usage: [-f|--file] [-l|--list] [-d|--definition NAME] [--frequency HZ | -n|--note NOTE] "
    ++ "[-s|--seconds SECONDS] [-r|--sample-rate RATE] [-t|--threads COUNT] CONTENTS"

/-- What happens when reading the arguments ends early. -/
def Halt.outcome : Halt → Outcome
  | usage => ⟨2, "", usageText ++ "\n"⟩
  | version => .lines [versionText]
  | help => .lines [usageText]

namespace Options

/-- List the names that can be rendered. -/
def listNames (script : String) : Outcome :=
  match (load script).value with
  | .error reason => .failure reason.message
  | .ok loaded => .lines loaded.program.playable

/-- The frequency asked for, or the text of a note that has none. -/
def chosenFrequency (options : Options) : Except String Float :=
  match options.note with
  | none => .ok options.frequency
  | some text =>
      match Note.ofText text with
      | none => .error text
      | some note => .ok note.frequency

/-- Render the chosen definition. -/
def renderScript (options : Options) (budget : Nat) (host : Host) (script : String) :
    Outcome :=
  match options.chosenFrequency with
  | .error text => .failure ("'" ++ text ++ "' is not a note name such as A4 or C#3.")
  | .ok frequency =>
      let score : Score := {
        source := script
        name := options.definition
        frequency
        seconds := options.seconds
        rate := options.sampleRate
        workers := options.threads }
      match (score.perform budget host).value with
      | .error (.notRendered (.crashed reason)) => .crash reason
      | .error reason => .failure reason.message
      | .ok samples => .lines (samples.map numberText)

/-- Run the command on a script, which is absent if its file could not be
read. -/
def execute (options : Options) (budget : Nat) (host : Host)
    (script : Option String) : Outcome :=
  match script with
  | none =>
      .failure ("Failed to read the input file '" ++ options.contents
        ++ "'. Perhaps this file does not exist?")
  | some script =>
      if options.list then listNames script
      else options.renderScript budget host script

end Options

end Timbre
