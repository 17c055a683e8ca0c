import Timbre.Diagnostic
import Timbre.Proofs.FirstDefinitions

/-!
# Kinds of diagnostics

The diagnostics about a statement are those about itself and those about its term.
The latter are the ones about clauses. The former are not, and depend on the
statements before only through the names and lines of their definitions. So the
diagnostics about clauses, and the others, can be looked at by themselves.

The lines that the check has noted after some definitions are those of the first
definition of each name among them. So what it says about the next statement can be
told from these definitions, without the table.
-/

namespace Timbre

/-- The message about a repeated definition names the name and the line of the first one. -/
theorem Finding.message_alreadyDefined (name : String) (firstLine : Nat) :
    (alreadyDefined name firstLine).message =
      "'" ++ name ++ "' is already defined on line " ++ toString firstLine := rfl

namespace Program

/-- The diagnostics about statements that come after `earlier` definitions. -/
def diagnosticsAfter (earlier : List Definition) (statements : List Statement) :
    List Diagnostic :=
  diagnosticsFrom (noteLines .empty earlier) statements

/-- The check of a program starts with no definition before. -/
theorem diagnostics_eq (program : Program) :
    program.diagnostics = diagnosticsAfter [] program.statements := rfl

/-- What diagnostics say about an earlier definition. -/
def heading (definition : Definition) : String × Nat := (definition.name, definition.line)

/-- The diagnostics about a statement that are not about its term. -/
def headDiagnostics (earlier : List Definition) : Statement → List Diagnostic
  | .expression _ line => [⟨.noEffect, line⟩]
  | .definition definition =>
      ((earlier.find? (·.name = definition.name)).map heading).toList.map
        (fun first => ⟨.alreadyDefined definition.name first.2, definition.line⟩) ++
      if definition.name = circleConstantName then [⟨.circleConstantDefined, definition.line⟩]
      else []

/-- One statement of the check: what is said about it, and what is noted for those after it. A
definition whose name has a line leaves the lines as they are. -/
theorem diagnosticsAfter_cons (earlier : List Definition) (statement : Statement)
    (rest : List Statement) :
    diagnosticsAfter earlier (statement :: rest) =
      headDiagnostics earlier statement ++ statement.term.diagnostics ++
        diagnosticsAfter (earlier ++ statement.asDefinition.toList) rest := by
  cases statement with
  | expression term line =>
    simp [diagnosticsAfter, diagnosticsFrom, headDiagnostics, Statement.term,
      Statement.asDefinition]
  | definition definition =>
    have line : (noteLines .empty earlier).get? definition.name =
        (earlier.find? (·.name = definition.name)).map (·.line) := by
      rw [get?_noteLines, Table.get?_empty, Option.none_or]
    have noted : noteLines .empty (earlier ++ [definition]) =
        (noteLines .empty earlier).insertNew definition.name definition.line := by
      simp [noteLines]
    simp only [diagnosticsAfter, diagnosticsFrom, headDiagnostics, Statement.asDefinition,
      Option.toList_some, noted, Table.insertNew, Statement.term, DefinitionOf.diagnostics]
    cases found : earlier.find? (·.name = definition.name) with
    | some first =>
      rw [found] at line
      simp [line, heading]
    | none =>
      rw [found] at line
      simp [line]

/-- What is said about a statement itself is not about a clause. -/
theorem head_not_clause {earlier : List Definition} {statement : Statement}
    {diagnostic : Diagnostic} (member : diagnostic ∈ headDiagnostics earlier statement) :
    diagnostic.finding ≠ .unreachableClause := by
  cases statement with
  | expression term line =>
    cases List.mem_singleton.mp member
    simp
  | definition definition =>
    obtain member | member := List.mem_append.mp member
    · obtain ⟨first, -, rfl⟩ := List.mem_map.mp member
      simp
    · split at member
      · cases List.mem_singleton.mp member
        simp
      · cases member

/-- What is said about a term is about a clause. -/
theorem term_clause {term : Term} {diagnostic : Diagnostic}
    (member : diagnostic ∈ term.diagnostics) : diagnostic.finding = .unreachableClause := by
  obtain ⟨line, -, rfl⟩ := List.mem_map.mp member
  rfl

/-- The diagnostics about clauses, statement by statement. -/
theorem filter_diagnosticsAfter (earlier : List Definition) (statements : List Statement) :
    (diagnosticsAfter earlier statements).filter (·.finding = .unreachableClause) =
      statements.flatMap (·.term.diagnostics) := by
  induction statements generalizing earlier with
  | nil => rfl
  | cons statement rest inductionHypothesis =>
    have heads : (headDiagnostics earlier statement).filter (·.finding = .unreachableClause) = [] :=
      List.filter_eq_nil_iff.mpr fun diagnostic member => by simpa using head_not_clause member
    have terms : statement.term.diagnostics.filter (·.finding = .unreachableClause) =
        statement.term.diagnostics :=
      List.filter_eq_self.mpr fun diagnostic member => by simpa using term_clause member
    rw [diagnosticsAfter_cons, List.filter_append, List.filter_append, heads, terms,
      inductionHypothesis, List.flatMap_cons, List.nil_append]

end Program

end Timbre
