import Timbre.Evaluation

/-!
# Diagnostics

What can be said about a program without running it. A repeated name is an
error. Statements without effect, definitions of the circle constant and clauses
after a wildcard are warnings, since none of them changes what is heard.

Diagnostics come in the order of the source text. An entry is checked against
the definitions that can be driven as waveforms: two lambdas around a body that
is not a lambda itself.
-/

namespace Timbre

/-- How bad a finding is. -/
inductive Severity where
  | warning | error
  deriving DecidableEq, Repr

/-- The name of a severity. -/
def Severity.name : Severity → String
  | warning => "warning"
  | error => "error"

/-- What was found. -/
inductive Finding where
  | noEffect
  | alreadyDefined (name : String) (firstLine : Nat)
  | circleConstantDefined
  | unreachableClause
  | undefinedEntry (name : String)
  | unplayableEntry (name : String)
  deriving DecidableEq, Repr

namespace Finding

/-- How bad a finding is. -/
def severity : Finding → Severity
  | noEffect | circleConstantDefined | unreachableClause => .warning
  | alreadyDefined .. | undefinedEntry _ | unplayableEntry _ => .error

/-- A finding in words. -/
def message : Finding → String
  | noEffect => "expression has no effect"
  | alreadyDefined name firstLine =>
      "'" ++ name ++ "' is already defined on line " ++ toString firstLine
  | circleConstantDefined =>
      "'" ++ circleConstantName ++ "' is a builtin constant; this definition is never used"
  | unreachableClause => "clause after '_' is unreachable"
  | undefinedEntry name => "no definition named '" ++ name ++ "'"
  | unplayableEntry name =>
      "'" ++ name ++ "' must have the form \\frequency. \\time. body"

end Finding

/-- A finding and its line. Line zero stands for the program as a whole. -/
structure Diagnostic where
  finding : Finding
  line : Nat
  deriving DecidableEq, Repr

namespace Diagnostic

/-- How bad a diagnostic is. -/
def severity (diagnostic : Diagnostic) : Severity := diagnostic.finding.severity

/-- A diagnostic in words, without its line. -/
def message (diagnostic : Diagnostic) : String := diagnostic.finding.message

/-- The text of a diagnostic. -/
def text (diagnostic : Diagnostic) : String :=
  diagnostic.severity.name ++ " on line " ++ toString diagnostic.line ++ ": "
    ++ diagnostic.message

/-- Whether a diagnostic keeps a program from being loaded. -/
def isError (diagnostic : Diagnostic) : Bool := diagnostic.severity = .error

end Diagnostic

mutual

/-- The lines of the clauses in a term that stand after a wildcard. -/
def Term.deadClauses : Term → List Nat
  | .number _ _ | .builtin _ _ | .identifier _ _ => []
  | .lambda _ body _ => body.deadClauses
  | .application function argument _ => function.deadClauses ++ argument.deadClauses
  | .conditional condition consequent alternative _ =>
      condition.deadClauses ++ consequent.deadClauses ++ alternative.deadClauses
  | .selection scrutinee clauses _ =>
      scrutinee.deadClauses ++ deadAmongClauses false clauses
  | .binding definitions body _ => deadAmongDefinitions definitions ++ body.deadClauses

/-- The same for a list of clauses; `covered` says whether a wildcard came
before. -/
def deadAmongClauses (covered : Bool) : List (ClauseOf Term) → List Nat
  | [] => []
  | ⟨pattern, result, line⟩ :: rest =>
      (if covered then [line] else []) ++ result.deadClauses
        ++ deadAmongClauses (covered || pattern.isNone) rest

/-- The same for a list of definitions. -/
def deadAmongDefinitions : List (DefinitionOf Term) → List Nat
  | [] => []
  | ⟨_, body, _⟩ :: rest => body.deadClauses ++ deadAmongDefinitions rest

end

/-- The diagnostics about a term. -/
def Term.diagnostics (term : Term) : List Diagnostic :=
  term.deadClauses.map fun line => ⟨.unreachableClause, line⟩

namespace DefinitionOf

/-- The diagnostics about a definition by itself. -/
def diagnostics (definition : Definition) : List Diagnostic :=
  let constant :=
    if definition.name = circleConstantName then
      [⟨.circleConstantDefined, definition.line⟩]
    else []
  constant ++ definition.body.diagnostics

/-- Whether a definition is two lambdas around a body that is not a lambda. -/
def isPlayable (definition : Definition) : Bool :=
  match definition.body.asWaveform with
  | some (_, _, body) => body.asLambda.isNone
  | none => false

end DefinitionOf

namespace Program

/-- The diagnostics about statements, where the first definitions of some names have been
met on the lines noted. -/
def diagnosticsFrom (firstLines : Table Nat) : List Statement → List Diagnostic
  | [] => []
  | .expression term line :: rest =>
      ⟨.noEffect, line⟩ :: term.diagnostics ++ diagnosticsFrom firstLines rest
  | .definition definition :: rest =>
      match firstLines.get? definition.name with
      | some first =>
          ⟨.alreadyDefined definition.name first, definition.line⟩ :: definition.diagnostics
            ++ diagnosticsFrom firstLines rest
      | none =>
          definition.diagnostics
            ++ diagnosticsFrom (firstLines.insert definition.name definition.line) rest

/-- The diagnostics about a program. -/
def diagnostics (program : Program) : List Diagnostic :=
  diagnosticsFrom .empty program.statements

/-- The names that can be driven as waveforms, each once, in the order in which
a playable definition of it first appears. -/
def playable (program : Program) : List String :=
  program.definitions.foldl
    (fun names definition =>
      if definition.name ∉ names ∧ definition.isPlayable then names ++ [definition.name]
      else names)
    []

/-- Why a name cannot be driven as a waveform, if it cannot. -/
def entryDiagnostic (program : Program) (name : String) : Option Diagnostic :=
  match program.definition name with
  | none => some ⟨.undefinedEntry name, 0⟩
  | some definition =>
      if name ∈ program.playable then none
      else some ⟨.unplayableEntry name, definition.line⟩

end Program

end Timbre
