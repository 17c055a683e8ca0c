import Timbre.Term

/-!
# Programs

A program is a list of statements: definitions, and expressions that have no
effect of their own. Where a name is defined more than once, the first
definition counts. An index that is made once, when the program is, holds the
place of the first definition of each name, and a definition is found through it.
-/

namespace Timbre

/-- A top-level item. -/
inductive Statement where
  | definition (definition : Definition)
  | expression (term : Term) (line : Nat)
  deriving Repr

namespace Statement

/-- The definition that a statement is. -/
def asDefinition : Statement → Option Definition
  | definition d => some d
  | expression _ _ => none

/-- The expression, or the body of the definition. -/
def term : Statement → Term
  | definition d => d.body
  | expression term _ => term

end Statement

/-- Values by name. The entries of a name are hidden by the latest one, which is in
front of them. -/
structure Table (α : Type) where
  entries : List (String × α)
  deriving Repr

namespace Table

variable {α : Type}

/-- The table in which no name has a value. -/
def empty : Table α := ⟨[]⟩

/-- The value of a name. -/
def get? (table : Table α) (name : String) : Option α :=
  (table.entries.find? (·.1 = name)).map Prod.snd

/-- Give a name a value, whatever it had before. -/
def insert (table : Table α) (name : String) (value : α) : Table α :=
  ⟨(name, value) :: table.entries⟩

/-- Give a name a value unless it has one. -/
def insertNew (table : Table α) (name : String) (value : α) : Table α :=
  match table.get? name with
  | some _ => table
  | none => table.insert name value

end Table

namespace Program

/-- Note the places of definitions, from a position on, for names that have none yet. -/
def indexFrom (index : Table Nat) (position : Nat) : List Statement → Table Nat
  | [] => index
  | .definition definition :: rest =>
      indexFrom (index.insertNew definition.name position) (position + 1) rest
  | .expression _ _ :: rest => indexFrom index (position + 1) rest

end Program

/-- The statements of a source text, in order, and where the first definition of
each name is. -/
structure Program where
  statements : List Statement
  index : Table Nat
  indexed : index = Program.indexFrom .empty 0 statements
  deriving Repr

namespace Program

/-- The program of some statements. -/
def ofStatements (statements : List Statement) : Program :=
  ⟨statements, indexFrom .empty 0 statements, rfl⟩

/-- The statements of a program are those it was made of. -/
@[simp] theorem statements_ofStatements (statements : List Statement) :
    (ofStatements statements).statements = statements := rfl

/-- A program is made of its statements alone, because its index is. -/
@[simp] theorem ofStatements_statements (program : Program) :
    ofStatements program.statements = program := by
  obtain ⟨statements, index, rfl⟩ := program
  rfl

/-- The definitions in order, repeated names included. -/
def definitions (program : Program) : List Definition :=
  program.statements.filterMap Statement.asDefinition

/-- The first definition of a name. -/
def definition (program : Program) (name : String) : Option Definition :=
  (program.index.get? name).bind fun place =>
    program.statements[place]?.bind Statement.asDefinition

end Program

end Timbre
