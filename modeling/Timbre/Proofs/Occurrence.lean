import Timbre.Proofs.FirstDefinitions

/-!
# Free identifiers

An identifier in a term is free when nothing around it in the term binds its
name. A lambda binds its parameter in its body. A binding binds the names of its
definitions in its body, and the name of each definition in the definitions after
it; a definition does not see itself.

Occurrences are told apart by their lines, because faults name the line of the
identifier that was looked for.
-/

namespace Timbre

/-- A term has a free identifier of a name on a line. -/
inductive Term.Free (name : String) (line : Nat) : Term → Prop where
  | identifier : Free name line (.identifier name line)
  | lambda {parameter : String} {body : Term} {place : Nat} (different : parameter ≠ name)
      (inside : Free name line body) : Free name line (.lambda parameter body place)
  | function {function argument : Term} {place : Nat} (inside : Free name line function) :
      Free name line (.application function argument place)
  | argument {function argument : Term} {place : Nat} (inside : Free name line argument) :
      Free name line (.application function argument place)
  | condition {condition consequent alternative : Term} {place : Nat}
      (inside : Free name line condition) :
      Free name line (.conditional condition consequent alternative place)
  | consequent {condition consequent alternative : Term} {place : Nat}
      (inside : Free name line consequent) :
      Free name line (.conditional condition consequent alternative place)
  | alternative {condition consequent alternative : Term} {place : Nat}
      (inside : Free name line alternative) :
      Free name line (.conditional condition consequent alternative place)
  | scrutinee {scrutinee : Term} {clauses : List Clause} {place : Nat}
      (inside : Free name line scrutinee) :
      Free name line (.selection scrutinee clauses place)
  | pattern {scrutinee pattern : Term} {clauses : List Clause} {clause : Clause} {place : Nat}
      (listed : clause ∈ clauses) (matched : clause.pattern = some pattern)
      (inside : Free name line pattern) :
      Free name line (.selection scrutinee clauses place)
  | result {scrutinee : Term} {clauses : List Clause} {clause : Clause} {place : Nat}
      (listed : clause ∈ clauses) (inside : Free name line clause.result) :
      Free name line (.selection scrutinee clauses place)
  | bound {before after : List Definition} {definition : Definition} {body : Term} {place : Nat}
      (unseen : ∀ earlier ∈ before, earlier.name ≠ name)
      (inside : Free name line definition.body) :
      Free name line (.binding (before ++ definition :: after) body place)
  | body {definitions : List Definition} {body : Term} {place : Nat}
      (unseen : ∀ definition ∈ definitions, definition.name ≠ name)
      (inside : Free name line body) :
      Free name line (.binding definitions body place)

namespace Program

/-- A definition of the program has a free identifier of a name on a line. -/
def HasFree (program : Program) (name : String) (line : Nat) : Prop :=
  ∃ definition ∈ program.definitions, definition.body.Free name line

/-- The program defines a name. -/
def Defines (program : Program) (name : String) : Prop :=
  ∃ definition ∈ program.definitions, definition.name = name

/-- The definition that is found is one of the program and has the name. -/
theorem defines_of_definition {program : Program} {name : String} {definition : Definition}
    (found : program.definition name = some definition) :
    definition ∈ program.definitions ∧ definition.name = name := by
  rw [definition_eq_find?] at found
  have named := List.find?_some found
  exact ⟨List.mem_of_find?_eq_some found, by simpa using named⟩

/-- No definition is found exactly when the program does not define the name. -/
theorem definition_eq_none {program : Program} {name : String} :
    program.definition name = none ↔ ¬ program.Defines name := by
  simp [definition_eq_find?, Defines]

/-- The definitions are among the statements. -/
theorem statement_of_definition {program : Program} {definition : Definition}
    (listed : definition ∈ program.definitions) :
    Statement.definition definition ∈ program.statements := by
  obtain ⟨statement, member, same⟩ := List.mem_filterMap.mp listed
  cases statement with
  | definition other =>
    cases same
    exact member
  | expression term line => cases same

end Program

end Timbre
