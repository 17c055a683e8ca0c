import Timbre.Proofs.Correspondence

/-!
# Parts of a program

The parts of a term are the term itself and the parts of the nodes below it. The
parts of a program are those of its definitions; nothing else is ever evaluated by a
call.

A program corresponds to every program with the same first definitions: each part is
its own counterpart. So calls do not depend on anything but the first definitions,
and every fault that a call meets in a body is raised by a part of the program.
-/

namespace Timbre

/-- A term stands in a whole one. -/
inductive Term.Part (whole : Term) : Term → Prop where
  | whole : Part whole whole
  | body {parameter : String} {body : Term} {line : Nat}
      (outer : Part whole (.lambda parameter body line)) : Part whole body
  | function {function argument : Term} {line : Nat}
      (outer : Part whole (.application function argument line)) : Part whole function
  | argument {function argument : Term} {line : Nat}
      (outer : Part whole (.application function argument line)) : Part whole argument
  | condition {condition consequent alternative : Term} {line : Nat}
      (outer : Part whole (.conditional condition consequent alternative line)) :
      Part whole condition
  | consequent {condition consequent alternative : Term} {line : Nat}
      (outer : Part whole (.conditional condition consequent alternative line)) :
      Part whole consequent
  | alternative {condition consequent alternative : Term} {line : Nat}
      (outer : Part whole (.conditional condition consequent alternative line)) :
      Part whole alternative
  | scrutinee {scrutinee : Term} {clauses : List Clause} {line : Nat}
      (outer : Part whole (.selection scrutinee clauses line)) : Part whole scrutinee
  | pattern {scrutinee pattern : Term} {clauses : List Clause} {clause : Clause} {line : Nat}
      (outer : Part whole (.selection scrutinee clauses line)) (listed : clause ∈ clauses)
      (matched : clause.pattern = some pattern) : Part whole pattern
  | result {scrutinee : Term} {clauses : List Clause} {clause : Clause} {line : Nat}
      (outer : Part whole (.selection scrutinee clauses line)) (listed : clause ∈ clauses) :
      Part whole clause.result
  | bound {definitions : List Definition} {definition : Definition} {body : Term} {line : Nat}
      (outer : Part whole (.binding definitions body line))
      (listed : definition ∈ definitions) : Part whole definition.body
  | inside {definitions : List Definition} {body : Term} {line : Nat}
      (outer : Part whole (.binding definitions body line)) : Part whole body

/-- A term stands in a definition of the program. -/
def Program.HasPart (program : Program) (term : Term) : Prop :=
  ∃ definition ∈ program.definitions, definition.body.Part term

/-- Clauses match themselves if their parts correspond to themselves. -/
theorem clausesMatch_same {terms : Term → Term → Prop} {clauses : List Clause}
    (patterns : ∀ clause ∈ clauses, ∀ pattern, clause.pattern = some pattern →
      terms pattern pattern)
    (results : ∀ clause ∈ clauses, terms clause.result clause.result) :
    ClausesMatch terms clauses clauses := by
  induction clauses with
  | nil => exact .nil
  | cons clause rest inductionHypothesis =>
    have following := inductionHypothesis
      (fun other member => patterns other (.tail _ member))
      (fun other member => results other (.tail _ member))
    obtain ⟨form, result, line⟩ := clause
    cases form with
    | none => exact .wildcard (results _ (.head _))
    | some pattern =>
      exact .pattern (patterns _ (.head _) pattern rfl) (results _ (.head _)) following

/-- Definitions match themselves if their bodies correspond to themselves. -/
theorem definitionsMatch_same {terms : Term → Term → Prop} {definitions : List Definition}
    (bodies : ∀ definition ∈ definitions, terms definition.body definition.body) :
    DefinitionsMatch terms definitions definitions := by
  induction definitions with
  | nil => exact .nil
  | cons definition rest inductionHypothesis =>
    exact .cons (bodies definition (.head _))
      (inductionHypothesis fun other member => bodies other (.tail _ member))

namespace Program

variable {program other : Program}

/-- An expression in front defines nothing. -/
theorem definition_expression_cons (term : Term) (line : Nat) (rest : List Statement)
    (name : String) :
    (ofStatements (.expression term line :: rest)).definition name =
      (ofStatements rest).definition name := by
  rw [definition_eq_find?, definition_eq_find?]
  rfl

/-- A definition in front is the first of its name. -/
theorem definition_definition_cons (definition : Definition) (rest : List Statement)
    (name : String) :
    (ofStatements (.definition definition :: rest)).definition name =
      if definition.name = name then some definition else (ofStatements rest).definition name := by
  rw [definition_eq_find?, definition_eq_find?]
  by_cases same : definition.name = name <;>
    simp [ofStatements, definitions, Statement.asDefinition, same]

/-- Each part of a program is the counterpart of itself. -/
def SamePart (program : Program) (first second : Term) : Prop :=
  first = second ∧ program.HasPart first

/-- One definition for a name in both programs corresponds to itself. -/
theorem definedAlike_of_eq {name : String}
    (same : program.definition name = other.definition name) :
    DefinedAlike program.SamePart program other name := by
  unfold DefinedAlike
  rw [← same]
  cases found : program.definition name with
  | none => exact .none
  | some definition =>
    exact .some ⟨rfl, definition, (defines_of_definition found).1, .whole⟩

/-- A part matches itself: the parts of a part are parts of the program. -/
theorem matches_samePart {first second : Term} (same : program.SamePart first second) :
    Matches program.SamePart first second := by
  obtain ⟨rfl, definition, listed, part⟩ := same
  have known : ∀ {term : Term}, definition.body.Part term → program.SamePart term term :=
    fun part => ⟨rfl, definition, listed, part⟩
  cases first with
  | number value line => exact .number value line
  | builtin operator line => exact .builtin operator line
  | identifier name line => exact .identifier name line
  | lambda parameter body line => exact .lambda parameter line (known part.body)
  | application function argument line =>
    exact .application line (known part.function) (known part.argument)
  | conditional condition consequent alternative line =>
    exact .conditional line (known part.condition) (known part.consequent)
      (known part.alternative)
  | selection scrutinee clauses line =>
    refine .selection line (known part.scrutinee) (clausesMatch_same ?_ ?_)
    · intro clause member pattern form
      exact known (part.pattern member form)
    · intro clause member
      exact known (part.result member)
  | binding definitions body line =>
    refine .binding line (definitionsMatch_same ?_) (known part.inside)
    intro bound member
    exact known (part.bound member)

/-- Programs with the same first definitions correspond. -/
def sameParts (same : ∀ name, name ≠ circleConstantName →
    program.definition name = other.definition name) : Correspondence program other where
  terms := program.SamePart
  nodes := matches_samePart
  definitions name ordinary := definedAlike_of_eq (same name ordinary)

/-- Calls depend on nothing but first definitions, and on none of the circle constant
unless it is called. -/
theorem call_eq_of_definitions (same : ∀ name, name ≠ circleConstantName →
      program.definition name = other.definition name) {name : String}
    (entry : program.definition name = other.definition name) (budget : Nat)
    (frequency time : Float) :
    program.call budget name frequency time = other.call budget name frequency time := by
  have defined : DefinedAlike (sameParts same).terms program other name :=
    definedAlike_of_eq entry
  exact Correspondence.call_eq defined budget frequency time

/-- A fault that a call meets in a body is raised by a part of the program. -/
theorem raised_by_part {name : String} {budget : Nat} {frequency time : Float} {reason : Fault}
    (failed : program.call budget name frequency time = .error (.fault reason))
    (ordinary : reason.ofTerm = true) : ∃ term, program.HasPart term ∧ term.Raises reason := by
  let between : Correspondence program program := sameParts fun _ _ => rfl
  have entry : DefinedAlike between.terms program program name := definedAlike_of_eq rfl
  obtain ⟨term, _, ⟨-, part⟩, raises⟩ := Correspondence.call_raised entry failed ordinary
  exact ⟨term, part, raises⟩

end Program

end Timbre
