import Mathlib.Data.Finset.Card
import Mathlib.Data.List.Forall2
import Timbre.Proofs.Appending
import Timbre.Proofs.Diagnostics
import Timbre.Proofs.Loading

/-!
# Repeated definitions

A definition is repeated when an earlier one has its name. Each repeated definition is
reported once, in the order of the source text, on its own line and with the line of
the first definition of the name. Nothing else is an error, so the errors and the
distinct names together are as many as the definitions, and a text is loaded exactly
when no definition is repeated.

The diagnostics are collected statement by statement, with a table of the lines so far, and
definitions are found through an index of places. Neither is mentioned here: a definition is
told to be repeated by its position among all of them, and the first one of a name by having
no other before it.
-/

namespace Timbre

namespace Program

/-- The definitions of `part`, which begins at a position of `all`, whose name a definition
at an earlier position has. -/
def repeatedFrom (all : List Definition) (position : Nat) (part : List Definition) :
    List Definition :=
  ((part.zipIdx position).filter
    fun item => item.1.name ∈ (all.take item.2).map (·.name)).map Prod.fst

/-- The definitions whose name an earlier definition has, in order. -/
def repeated (program : Program) : List Definition :=
  repeatedFrom program.definitions 0 program.definitions

/-- A diagnostic says that a definition is repeated: on its line, with the line of the
first one of the name, and with both lines and the name in its text. -/
def Reports (program : Program) (definition : Definition) (diagnostic : Diagnostic) : Prop :=
  ∃ first, FirstNamed program.definitions definition.name first ∧
    diagnostic = ⟨.alreadyDefined definition.name first.line, definition.line⟩ ∧
    diagnostic.text = "error on line " ++ toString definition.line ++ ": '" ++ definition.name ++
      "' is already defined on line " ++ toString first.line

section Parts

variable {all earlier rest : List Definition} {definition : Definition}

/-- A definition whose name came earlier is among the repeated ones. -/
theorem repeatedFrom_repeated (split : all = earlier ++ definition :: rest)
    (known : definition.name ∈ earlier.map (·.name)) :
    repeatedFrom all earlier.length (definition :: rest) =
      definition :: repeatedFrom all (earlier ++ [definition]).length rest := by
  have before : all.take earlier.length = earlier := by rw [split, List.take_left]
  rw [repeatedFrom, List.zipIdx_cons, List.filter_cons_of_pos (by simpa [before] using known),
    List.map_cons, List.length_append, List.length_singleton]
  rfl

/-- A definition with a new name is not among the repeated ones. -/
theorem repeatedFrom_new (split : all = earlier ++ definition :: rest)
    (new : definition.name ∉ earlier.map (·.name)) :
    repeatedFrom all earlier.length (definition :: rest) =
      repeatedFrom all (earlier ++ [definition]).length rest := by
  have before : all.take earlier.length = earlier := by rw [split, List.take_left]
  rw [repeatedFrom, List.zipIdx_cons, List.filter_cons_of_neg (by simpa [before] using new),
    List.length_append, List.length_singleton]
  rfl

/-- A part has as many definitions as repeated ones and names that are new in it. -/
theorem length_repeatedFrom {part : List Definition} (split : all = earlier ++ part) :
    (repeatedFrom all earlier.length part).length + (all.map (·.name)).toFinset.card =
      part.length + (earlier.map (·.name)).toFinset.card := by
  induction part generalizing earlier with
  | nil =>
    rw [List.append_nil] at split
    rw [split]
    rfl
  | cons definition rest inductionHypothesis =>
    have counted := @inductionHypothesis (earlier ++ [definition]) (by simpa using split)
    have names : ((earlier ++ [definition]).map (·.name)).toFinset =
        insert definition.name (earlier.map (·.name)).toFinset := by
      rw [List.map_append, List.toFinset_append, Finset.union_comm]
      rfl
    rw [names] at counted
    by_cases known : definition.name ∈ earlier.map (·.name)
    · rw [Finset.insert_eq_of_mem (List.mem_toFinset.mpr known)] at counted
      rw [repeatedFrom_repeated split known, List.length_cons, List.length_cons]
      omega
    · rw [Finset.card_insert_of_notMem (by rwa [List.mem_toFinset])] at counted
      rw [repeatedFrom_new split known, List.length_cons]
      omega

end Parts

/-! ### Errors among the diagnostics -/

/-- Clean diagnostics have no errors. -/
theorem filter_clean {diagnostics : List Diagnostic} (clean : Clean diagnostics) :
    diagnostics.filter Diagnostic.isError = [] :=
  List.filter_eq_nil_iff.mpr fun diagnostic member => by simp [clean diagnostic member]

/-- The errors about a statement are about itself, and come before those about later
statements. -/
theorem errors_cons (earlier : List Definition) (statement : Statement) (rest : List Statement) :
    (diagnosticsAfter earlier (statement :: rest)).filter Diagnostic.isError =
      (headDiagnostics earlier statement).filter Diagnostic.isError ++
        (diagnosticsAfter (earlier ++ statement.asDefinition.toList) rest).filter
          Diagnostic.isError := by
  rw [diagnosticsAfter_cons, List.filter_append, List.filter_append,
    filter_clean statement.term.diagnostics_clean, List.append_nil]

/-- An expression adds no errors. -/
theorem errors_expression (earlier : List Definition) (term : Term) (line : Nat)
    (rest : List Statement) :
    (diagnosticsAfter earlier (.expression term line :: rest)).filter Diagnostic.isError =
      (diagnosticsAfter earlier rest).filter Diagnostic.isError := by
  have warning : (headDiagnostics earlier (.expression term line)).filter Diagnostic.isError = [] :=
    rfl
  have unchanged : earlier ++ (Statement.expression term line).asDefinition.toList = earlier :=
    List.append_nil earlier
  rw [errors_cons, warning, unchanged, List.nil_append]

/-- A definition adds one error if its name came earlier, with the line of the first
definition of that name. -/
theorem errors_definition (earlier : List Definition) (definition : Definition)
    (rest : List Statement) :
    (diagnosticsAfter earlier (.definition definition :: rest)).filter Diagnostic.isError =
      (earlier.find? (·.name = definition.name)).toList.map
        (fun first => ⟨.alreadyDefined definition.name first.line, definition.line⟩) ++
      (diagnosticsAfter (earlier ++ [definition]) rest).filter Diagnostic.isError := by
  rw [errors_cons, headDiagnostics, List.filter_append, filter_clean definition.constant_clean,
    List.append_nil]
  cases earlier.find? (·.name = definition.name) <;> rfl

variable {program : Program}

/-- A repeated definition is reported with what belongs to the first one. -/
theorem reports_of_first {definition first : Definition}
    (named : FirstNamed program.definitions definition.name first) :
    program.Reports definition
      ⟨.alreadyDefined definition.name first.line, definition.line⟩ := by
  refine ⟨first, named, rfl, ?_⟩
  have opening (rest : String) : "error" ++ (" on line " ++ rest) = "error on line " ++ rest := by
    rw [← String.append_assoc]
    rfl
  have quoted (rest : String) : ": " ++ ("'" ++ rest) = ": '" ++ rest := by
    rw [← String.append_assoc]
    rfl
  simp only [Diagnostic.text, Diagnostic.message, Finding.message_alreadyDefined,
    Diagnostic.severity, Finding.severity, Severity.name, String.append_assoc, opening, quoted]

/-- The errors about statements are the reports of their repeated definitions. The
induction is on the statements; the definitions before them are the program's others. -/
theorem errors_reports {earlier : List Definition} {statements : List Statement}
    (split : program.definitions = earlier ++ statements.filterMap Statement.asDefinition) :
    List.Forall₂ program.Reports
      (repeatedFrom program.definitions earlier.length
        (statements.filterMap Statement.asDefinition))
      ((diagnosticsAfter earlier statements).filter Diagnostic.isError) := by
  induction statements generalizing earlier with
  | nil => exact .nil
  | cons statement rest inductionHypothesis =>
    cases statement with
    | expression term line =>
      rw [errors_expression]
      exact inductionHypothesis split
    | definition definition =>
      have listed : (Statement.definition definition :: rest).filterMap Statement.asDefinition =
          definition :: rest.filterMap Statement.asDefinition := rfl
      rw [listed] at split ⊢
      have later := @inductionHypothesis (earlier ++ [definition]) (by simpa using split)
      rw [errors_definition]
      cases found : earlier.find? (·.name = definition.name) with
      | none =>
        have new : definition.name ∉ earlier.map (·.name) := by
          simpa using found
        rw [repeatedFrom_new split new]
        exact later
      | some first =>
        have named : first.name = definition.name := by simpa using List.find?_some found
        have known : definition.name ∈ earlier.map (·.name) :=
          List.mem_map.mpr ⟨first, List.mem_of_find?_eq_some found, named⟩
        rw [repeatedFrom_repeated split known]
        refine .cons (reports_of_first ?_) later
        apply find?_eq_some_iff_firstNamed.mp
        rw [split, List.find?_append, found]
        rfl

/-- The errors of a program are the reports of its repeated definitions, in order. -/
theorem diagnostics_reports (program : Program) :
    List.Forall₂ program.Reports program.repeated
      (program.diagnostics.filter Diagnostic.isError) :=
  errors_reports (List.nil_append program.definitions).symm

/-- The definitions that are repeated and the distinct names together are as many as the
definitions. -/
theorem length_repeated (program : Program) :
    program.repeated.length + (program.definitions.map (·.name)).toFinset.card =
      program.definitions.length :=
  length_repeatedFrom (List.nil_append program.definitions).symm

/-! ### The definition of a name -/

/-- Where names are distinct, the definition of a name is the only one. -/
theorem Distinct.filter_eq (distinct : program.Distinct) {name : String} {definition : Definition}
    (found : program.definition name = some definition) :
    program.definitions.filter (·.name = name) = [definition] := by
  obtain ⟨before, after, split, rfl, others⟩ := definition_eq_some.mp found
  rw [Distinct, split, List.map_append, List.map_cons] at distinct
  have fresh := (List.nodup_cons.mp (List.nodup_append.mp distinct).2.1).1
  have none : before.filter (·.name = definition.name) = [] := by
    simpa [List.filter_eq_nil_iff] using others
  have nothing : after.filter (·.name = definition.name) = [] := by
    simpa [List.filter_eq_nil_iff] using fresh
  rw [split, List.filter_append, List.filter_cons_of_pos (by simp), none, nothing]
  rfl

end Program

/-- A program is loaded exactly when its definitions have distinct names. Its errors are the
reports of its repeated definitions, one for each and in order, so that errors and distinct
names are together as many as definitions. A name stands for its first definition, which is
the only one in what is loaded. The index holds where that is, and every place in it is one
of a definition. -/
theorem load_accepts_distinct {source : String} {program : Program}
    (parsed : Program.ofSource source = .ok program) :
    (∀ loaded, (load source).value = .ok loaded ↔
      program.Distinct ∧ loaded = ⟨program, program.diagnostics⟩) ∧
    List.Forall₂ program.Reports program.repeated
      (program.diagnostics.filter Diagnostic.isError) ∧
    (program.diagnostics.filter Diagnostic.isError).length +
      (program.definitions.map (·.name)).toFinset.card = program.definitions.length ∧
    (∀ name definition, program.definition name = some definition ↔
      FirstNamed program.definitions name definition) ∧
    (∀ name place, program.index.get? name = some place ↔
      ∃ definition, program.statements[place]? = some (.definition definition) ∧
        definition.name = name ∧ ∀ earlier < place, ∀ other,
          program.statements[earlier]? = some (.definition other) → other.name ≠ name) ∧
    ∀ loaded name definition, (load source).value = .ok loaded →
      program.definition name = some definition →
        program.definitions.filter (·.name = name) = [definition] := by
  have accepted : ∀ loaded, (load source).value = .ok loaded ↔
      program.Distinct ∧ loaded = ⟨program, program.diagnostics⟩ := by
    intro loaded
    rw [load_eq_ok, parsed]
    constructor
    · rintro ⟨⟨⟩, diagnosed, distinct⟩
      exact ⟨distinct, by rw [← diagnosed]⟩
    · rintro ⟨distinct, rfl⟩
      exact ⟨rfl, rfl, distinct⟩
  refine ⟨accepted, program.diagnostics_reports, ?_, fun _ _ => Program.definition_eq_some,
    fun _ _ => Program.get?_index_eq_some, ?_⟩
  · rw [← program.diagnostics_reports.length_eq]
    exact program.length_repeated
  · intro loaded name definition succeeded found
    exact ((accepted loaded).mp succeeded).1.filter_eq found

/-- One name is defined three times and another twice, in turns and around an expression.
Each later definition is reported with the line of the first one of its own name. -/
theorem load_accepts_distinct_interleaved :
    let source := "a = b\nb = a\na = a,\nb\na = b\nb = b"
    let program := Program.ofStatements [.definition ⟨"a", .identifier "b" 1, 1⟩,
      .definition ⟨"b", .identifier "a" 2, 2⟩, .definition ⟨"a", .identifier "a" 3, 3⟩,
      .expression (.identifier "b" 4) 4, .definition ⟨"a", .identifier "b" 5, 5⟩,
      .definition ⟨"b", .identifier "b" 6, 6⟩]
    Program.ofSource source = .ok program ∧
      program.diagnostics.filter Diagnostic.isError = [⟨.alreadyDefined "a" 1, 3⟩,
        ⟨.alreadyDefined "a" 1, 5⟩, ⟨.alreadyDefined "b" 2, 6⟩] ∧
      List.Forall₂ program.Reports program.repeated
        (program.diagnostics.filter Diagnostic.isError) ∧
      ∀ loaded, (load source).value ≠ .ok loaded := by
  intro source program
  have lexed : tokenize "a = b\nb = a\na = a,\nb\na = b\nb = b" =
      .ok [⟨.identifier "a", ⟨1, 1⟩⟩, ⟨.mark .assign, ⟨1, 3⟩⟩, ⟨.identifier "b", ⟨1, 5⟩⟩,
        ⟨.identifier "b", ⟨2, 1⟩⟩, ⟨.mark .assign, ⟨2, 3⟩⟩, ⟨.identifier "a", ⟨2, 5⟩⟩,
        ⟨.identifier "a", ⟨3, 1⟩⟩, ⟨.mark .assign, ⟨3, 3⟩⟩, ⟨.identifier "a", ⟨3, 5⟩⟩,
        ⟨.mark .comma, ⟨3, 6⟩⟩, ⟨.identifier "b", ⟨4, 1⟩⟩, ⟨.identifier "a", ⟨5, 1⟩⟩,
        ⟨.mark .assign, ⟨5, 3⟩⟩, ⟨.identifier "b", ⟨5, 5⟩⟩, ⟨.identifier "b", ⟨6, 1⟩⟩,
        ⟨.mark .assign, ⟨6, 3⟩⟩, ⟨.identifier "b", ⟨6, 5⟩⟩] := rfl
  have parsed : Program.ofSource source = .ok program :=
    Program.ofSource_eq_ok.mpr ⟨_, [], lexed, rfl⟩
  obtain ⟨accepted, reports, -⟩ := load_accepts_distinct parsed
  refine ⟨parsed, rfl, reports, ?_⟩
  intro loaded succeeded
  have distinct : ¬ program.Distinct := by
    unfold Program.Distinct
    decide
  exact distinct ((accepted loaded).mp succeeded).1

end Timbre
