import Timbre.Number.Reader

/-!
# Options of the command

Arguments are read from left to right. A setting takes its value from the same
argument, after an equals sign or directly after its letter, or else from the
next argument, which then must not look like an option. Letters of flags may be
joined, and the last letter of such a group may be a setting. After `--` every
argument is taken as it is.

Nothing may be given twice. A mistake ends the reading, and so does a question
for the version or for help; what follows is then not looked at. Whether the
options fit together is decided last.
-/

namespace Timbre

/-- Options without a value. -/
inductive Flag where
  | file | list
  deriving DecidableEq, Repr

/-- Options with a value. -/
inductive Setting where
  | definition | frequency | note | seconds | sampleRate | threads
  deriving DecidableEq, Repr

/-- Why reading arguments ends early. -/
inductive Halt where
  | usage | version | help
  deriving DecidableEq, Repr

/-- What an option's name stands for. -/
inductive OptionName where
  | flag (flag : Flag)
  | setting (setting : Setting)
  | halt (halt : Halt)
  deriving DecidableEq, Repr

namespace OptionName

/-- The option with a long name. -/
def ofLong (name : List Char) : Option OptionName :=
  match String.ofList name with
  | "file" => some (.flag .file)
  | "list" => some (.flag .list)
  | "definition" => some (.setting .definition)
  | "frequency" => some (.setting .frequency)
  | "note" => some (.setting .note)
  | "seconds" => some (.setting .seconds)
  | "sample-rate" => some (.setting .sampleRate)
  | "threads" => some (.setting .threads)
  | "version" => some (.halt .version)
  | "help" => some (.halt .help)
  | _ => none

/-- The option with a letter. -/
def ofLetter : Char → Option OptionName
  | 'f' => some (.flag .file)
  | 'l' => some (.flag .list)
  | 'd' => some (.setting .definition)
  | 'n' => some (.setting .note)
  | 's' => some (.setting .seconds)
  | 'r' => some (.setting .sampleRate)
  | 't' => some (.setting .threads)
  | 'V' => some (.halt .version)
  | 'h' => some (.halt .help)
  | _ => none

end OptionName

/-- What has been given so far. -/
structure Given where
  file : Bool
  list : Bool
  definition : Option String
  frequency : Option Float
  note : Option String
  seconds : Option Float
  sampleRate : Option UInt32
  threads : Option UInt64
  contents : Option String

namespace Given

/-- Nothing. -/
def nothing : Given := ⟨false, false, none, none, none, none, none, none, none⟩

/-- Put a value into an empty place. -/
def fill {α : Type} (place value : Option α) : Except Halt (Option α) :=
  match place, value with
  | none, some value => .ok (some value)
  | _, _ => .error .usage

/-- Add a flag. -/
def raise (given : Given) : Flag → Except Halt Given
  | .file => if given.file then .error .usage else .ok { given with file := true }
  | .list => if given.list then .error .usage else .ok { given with list := true }

/-- Add a setting with the text of its value. -/
def assign (given : Given) (setting : Setting) (text : List Char) : Except Halt Given := do
  match setting with
  | .definition =>
      return { given with definition := ← fill given.definition (some (String.ofList text)) }
  | .frequency => return { given with frequency := ← fill given.frequency (readDecimal text) }
  | .note => return { given with note := ← fill given.note (some (String.ofList text)) }
  | .seconds => return { given with seconds := ← fill given.seconds (readDecimal text) }
  | .sampleRate =>
      let rate := (readNatural UInt32.size text).map UInt32.ofNat
      return { given with sampleRate := ← fill given.sampleRate rate }
  | .threads =>
      let count := (readNatural UInt64.size text).map UInt64.ofNat
      return { given with threads := ← fill given.threads count }

/-- Add an argument that is no option. -/
def operand (given : Given) (text : List Char) : Except Halt Given := do
  return { given with contents := ← fill given.contents (some (String.ofList text)) }

/-- Read a group of letters. The answer names the setting whose value is still
to come, if the last letter is one. -/
def letters (given : Given) : List Char → Except Halt (Given × Option Setting)
  | [] => .ok (given, none)
  | letter :: rest =>
      match OptionName.ofLetter letter with
      | none => .error .usage
      | some (.halt halt) => .error halt
      | some (.flag flag) =>
          match given.raise flag with
          | .error halt => .error halt
          | .ok given => given.letters rest
      | some (.setting setting) =>
          match rest with
          | [] => .ok (given, some setting)
          | '=' :: value => (given.assign setting value).map (·, none)
          | value => (given.assign setting value).map (·, none)

/-- Read an option with a long name and perhaps an attached value. -/
def long (given : Given) (text : List Char) : Except Halt (Given × Option Setting) :=
  let attached := text.dropWhile (· ≠ '=')
  match OptionName.ofLong (text.takeWhile (· ≠ '=')), attached with
  | some (.halt halt), [] => .error halt
  | some (.flag flag), [] => (given.raise flag).map (·, none)
  | some (.setting setting), [] => .ok (given, some setting)
  | some (.setting setting), _ :: value => (given.assign setting value).map (·, none)
  | _, _ => .error .usage

/-- Whether an argument cannot be a separate value or an operand. A single dash
is an operand. -/
def looksLikeOption : List Char → Bool
  | '-' :: _ :: _ => true
  | _ => false

/-- Read one argument. -/
def argument (given : Given) (text : List Char) : Except Halt (Given × Option Setting) :=
  match text with
  | '-' :: '-' :: name => given.long name
  | '-' :: letter :: rest => given.letters (letter :: rest)
  | _ => (given.operand text).map (·, none)

/-- Read all arguments. `awaiting` is the setting whose value comes next. -/
def read (given : Given) (awaiting : Option Setting) : List (List Char) → Except Halt Given
  | [] => if awaiting.isSome then .error .usage else .ok given
  | text :: rest =>
      match awaiting with
      | some setting =>
          if looksLikeOption text then .error .usage
          else
            match given.assign setting text with
            | .error halt => .error halt
            | .ok given => given.read none rest
      | none =>
          if text = ['-', '-'] then rest.foldlM operand given
          else
            match given.argument text with
            | .error halt => .error halt
            | .ok (given, awaiting) => given.read awaiting rest

end Given

/-- The options of a run, complete. -/
structure Options where
  /-- `contents` names a file. -/
  file : Bool
  /-- Only list the names that can be rendered. -/
  list : Bool
  definition : String
  frequency : Float
  /-- Takes the place of the frequency. -/
  note : Option String
  seconds : Float
  sampleRate : UInt32
  threads : UInt64
  contents : String

namespace Options

/-- Fill in what was not given. A note and a frequency exclude each other, and
the contents are required. -/
def complete (given : Given) : Except Halt Options :=
  match given.contents with
  | none => .error .usage
  | some contents =>
      if given.note.isSome ∧ given.frequency.isSome then .error .usage
      else .ok {
        file := given.file
        list := given.list
        definition := given.definition.getD "main"
        frequency := given.frequency.getD 440
        note := given.note
        seconds := given.seconds.getD 1
        sampleRate := given.sampleRate.getD 48000
        threads := given.threads.getD 1
        contents }

/-- The options that arguments stand for. -/
def ofArguments (arguments : List String) : Except Halt Options :=
  (Given.nothing.read none (arguments.map String.toList)).bind complete

end Options

end Timbre
