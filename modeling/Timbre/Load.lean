import Timbre.Diagnostic
import Timbre.Program.Source

/-!
# Loading

A source text is loaded when it is a program without errors. Warnings do not
keep it from being loaded. All diagnostics are logged, whatever the outcome.
-/

namespace Timbre

/-- Why a source text cannot be loaded. -/
inductive LoadError where
  | unparsable (reason : ParseError)
  /-- All diagnostics of a program that has errors. -/
  | invalid (diagnostics : List Diagnostic)
  deriving DecidableEq, Repr

/-- The text of a message: of an invalid program only the errors, one to a
line. -/
def LoadError.message : LoadError → String
  | unparsable reason => reason.message
  | invalid diagnostics =>
      "\n".intercalate ((diagnostics.filter Diagnostic.isError).map Diagnostic.text)

/-- A program without errors, and what was found in it. -/
structure Loaded where
  program : Program
  diagnostics : List Diagnostic

/-- The record about a diagnostic. -/
def Diagnostic.record (diagnostic : Diagnostic) : Record :=
  let level := match diagnostic.severity with
    | .warning => Level.warn
    | .error => Level.error
  ⟨level, diagnostic.text⟩

/-- Load a source text. -/
def load (source : String) : Logged (Except LoadError Loaded) :=
  match Program.ofSource source with
  | .error reason => ⟨.error (.unparsable reason), []⟩
  | .ok program =>
      let diagnostics := program.diagnostics
      let records := diagnostics.map Diagnostic.record
      if diagnostics.any Diagnostic.isError then ⟨.error (.invalid diagnostics), records⟩
      else
        let count := toString program.definitions.length
        ⟨.ok ⟨program, diagnostics⟩,
          records ++ [⟨.debug, "loaded " ++ count ++ " definitions"⟩]⟩

end Timbre
