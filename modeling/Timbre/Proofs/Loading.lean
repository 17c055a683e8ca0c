import Timbre.Load
import Timbre.Proofs.Diagnostics
import Timbre.Proofs.Entry

/-!
# Which texts can be loaded

The only error that diagnostics report about a program is a name that is defined
again. So a text is loaded exactly when it is a program in which no two definitions
share a name, and what is loaded is that program with its diagnostics.

Where names are distinct every definition is the first of its name, so the entry
check and the calls agree.
-/

namespace Timbre

/-- No two definitions share a name. -/
def Program.Distinct (program : Program) : Prop :=
  (program.definitions.map (·.name)).Nodup

/-! ### Errors among the diagnostics -/

/-- Diagnostics hold no error. -/
def Clean (diagnostics : List Diagnostic) : Prop :=
  ∀ diagnostic ∈ diagnostics, diagnostic.isError = false

/-- Diagnostics are clean if both parts of them are. -/
theorem clean_append {first second : List Diagnostic} :
    Clean (first ++ second) ↔ Clean first ∧ Clean second := by
  simp only [Clean, List.mem_append]
  grind

/-- There is an error exactly when the diagnostics are not clean. -/
theorem not_clean_iff {diagnostics : List Diagnostic} :
    diagnostics.any Diagnostic.isError = true ↔ ¬ Clean diagnostics := by
  simp [Clean]

/-- What is said about a term is a warning. -/
theorem Term.diagnostics_clean (term : Term) : Clean term.diagnostics := by
  intro diagnostic member
  obtain ⟨line, -, rfl⟩ := List.mem_map.mp member
  rfl

/-- A definition of the circle constant is no error. -/
theorem DefinitionOf.constant_clean (definition : Definition) :
    Clean (if definition.name = circleConstantName then
      [⟨.circleConstantDefined, definition.line⟩] else []) := by
  split <;> simp [Clean, Diagnostic.isError, Diagnostic.severity, Finding.severity]

namespace Program

/-- A statement is in error when it is a definition and an earlier one has its name. -/
theorem headDiagnostics_clean {earlier : List Definition} {statement : Statement} :
    Clean (headDiagnostics earlier statement) ↔
      ∀ definition, statement.asDefinition = some definition →
        ∀ other ∈ earlier, other.name ≠ definition.name := by
  cases statement with
  | expression term line =>
    simp [headDiagnostics, Clean, Statement.asDefinition, Diagnostic.isError,
      Diagnostic.severity, Finding.severity]
  | definition definition =>
    simp only [headDiagnostics, clean_append, definition.constant_clean, and_true,
      Statement.asDefinition, Option.some.injEq, forall_eq']
    cases found : earlier.find? (·.name = definition.name) with
    | some first =>
      have named : first.name = definition.name := by simpa using List.find?_some found
      constructor
      · intro clean
        cases clean _ (.head _)
      · intro different
        exact absurd named (different first (List.mem_of_find?_eq_some found))
    | none => simpa [Clean] using found

/-- The diagnostics of statements are free of errors when their definitions have
distinct names that no earlier definition has: induction on the statements, with the
earlier definitions as the invariant. -/
theorem diagnosticsAfter_clean {statements : List Statement} {earlier : List Definition} :
    Clean (diagnosticsAfter earlier statements) ↔
      ((statements.filterMap Statement.asDefinition).map (·.name)).Nodup ∧
        ∀ definition ∈ statements.filterMap Statement.asDefinition,
          ∀ other ∈ earlier, other.name ≠ definition.name := by
  induction statements generalizing earlier with
  | nil => simp [diagnosticsAfter, diagnosticsFrom, Clean]
  | cons statement rest inductionHypothesis =>
    rw [diagnosticsAfter_cons, clean_append, clean_append, inductionHypothesis,
      headDiagnostics_clean]
    simp only [statement.term.diagnostics_clean, and_true]
    cases statement with
    | expression term line =>
      have skipped : (Statement.expression term line :: rest).filterMap Statement.asDefinition =
          rest.filterMap Statement.asDefinition := rfl
      have unchanged : earlier ++ (Statement.expression term line).asDefinition.toList = earlier :=
        List.append_nil earlier
      rw [skipped, unchanged]
      refine and_iff_right ?_
      rintro definition ⟨⟩
    | definition definition =>
      simp only [Statement.asDefinition, Option.some.injEq, forall_eq', Option.toList_some,
        List.filterMap_cons, List.map_cons, List.nodup_cons, List.mem_map, List.mem_append,
        List.mem_cons]
      grind

/-- The diagnostics of a program are free of errors exactly when its names are distinct. -/
theorem diagnostics_clean {program : Program} : Clean program.diagnostics ↔ program.Distinct := by
  rw [diagnostics_eq, diagnosticsAfter_clean]
  simp [Distinct, definitions]

end Program

/-! ### Loading -/

/-- Loading a text that is no program fails with what is wrong with it. -/
theorem load_unparsable {source : String} {reason : ParseError}
    (parsed : Program.ofSource source = .error reason) :
    (load source).value = .error (.unparsable reason) := by
  simp only [load, parsed]

/-- Loading a program that repeats a name fails with its diagnostics. -/
theorem load_repeated {source : String} {program : Program}
    (parsed : Program.ofSource source = .ok program) (repeated : ¬ program.Distinct) :
    (load source).value = .error (.invalid program.diagnostics) := by
  have errors : program.diagnostics.any Diagnostic.isError = true := by
    rwa [not_clean_iff, Program.diagnostics_clean]
  simp only [load, parsed, errors, if_true]

/-- Loading a program with distinct names succeeds with its diagnostics. -/
theorem load_distinct {source : String} {program : Program}
    (parsed : Program.ofSource source = .ok program) (distinct : program.Distinct) :
    (load source).value = .ok ⟨program, program.diagnostics⟩ := by
  have none : ¬ program.diagnostics.any Diagnostic.isError = true := by
    rw [not_clean_iff, Program.diagnostics_clean]
    exact not_not_intro distinct
  simp only [load, parsed, none, Bool.false_eq_true, if_false]

/-- What is loaded from a text is its program, with distinct names, and the
diagnostics of that program. -/
theorem load_eq_ok {source : String} {loaded : Loaded} :
    (load source).value = .ok loaded ↔ Program.ofSource source = .ok loaded.program ∧
      loaded.diagnostics = loaded.program.diagnostics ∧ loaded.program.Distinct := by
  constructor
  · intro accepted
    cases parsed : Program.ofSource source with
    | error reason =>
      rw [load_unparsable parsed] at accepted
      cases accepted
    | ok program =>
      by_cases distinct : program.Distinct
      · rw [load_distinct parsed distinct] at accepted
        cases accepted
        exact ⟨rfl, rfl, distinct⟩
      · rw [load_repeated parsed distinct] at accepted
        cases accepted
  · rintro ⟨parsed, diagnosed, distinct⟩
    rw [load_distinct parsed distinct, ← diagnosed]

/-! ### Entries of programs with distinct names -/

namespace Program

variable {program : Program}

/-- Every definition is the first of its name. -/
theorem Distinct.definition_eq (distinct : program.Distinct) {definition : Definition}
    (member : definition ∈ program.definitions) :
    program.definition definition.name = some definition := by
  obtain ⟨before, after, split⟩ := List.append_of_mem member
  refine definition_eq_some.mpr ⟨before, after, split, rfl, ?_⟩
  intro earlier listed
  rw [Distinct, split, List.map_append, List.map_cons] at distinct
  exact (List.nodup_append.mp distinct).2.2 earlier.name (List.mem_map_of_mem listed)
    definition.name (by simp)

/-- With distinct names every definition is the first of its name, so the first ones
decide. -/
theorem Distinct.firstDecides (distinct : program.Distinct) : program.FirstDecides := by
  intro definition member form
  exact ⟨definition, distinct.definition_eq member, form⟩

end Program

end Timbre
