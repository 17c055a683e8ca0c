import Timbre.Program

/-!
# The first definition of a name

A name that is given a value in a table only when it has none keeps the value that it
was given first. Two loops over statements fill a table so. The index of a program
notes the place of each definition, and the check of a program its line. After any
number of statements both tables hold, for each name, what belongs to its first
definition among these statements.

The step is one definition, which leaves every other name as it was and its own name
too if that has a value. The rest is induction on the statements.
-/

namespace Timbre

namespace Table

variable {α : Type}

/-- Nothing is found in the empty table. -/
@[simp] theorem get?_empty (name : String) : (empty : Table α).get? name = none := rfl

/-- A name that was given a value has it, and the other names have what they had. -/
theorem get?_insert (table : Table α) (name : String) (value : α) (other : String) :
    (table.insert name value).get? other =
      if name = other then some value else table.get? other := by
  by_cases same : name = other <;> simp [insert, get?, same]

/-- The step of both loops: a value that is known stands, and only a name without one is
given the new value. -/
theorem get?_insertNew (table : Table α) (name : String) (value : α) (other : String) :
    (table.insertNew name value).get? other =
      (table.get? other).or (if name = other then some value else none) := by
  unfold insertNew
  cases known : table.get? name with
  | some first =>
    by_cases same : name = other
    · subst same
      simp [known]
    · simp [same]
  | none =>
    rw [get?_insert]
    by_cases same : name = other
    · subst same
      simp [known]
    · simp [same]

end Table

/-- The first among definitions that has a name. -/
def FirstNamed (definitions : List Definition) (name : String) (first : Definition) : Prop :=
  ∃ before after, definitions = before ++ first :: after ∧ first.name = name ∧
    ∀ other ∈ before, other.name ≠ name

/-- A search from the front finds the first definition of a name. -/
theorem find?_eq_some_iff_firstNamed {definitions : List Definition} {name : String}
    {first : Definition} :
    definitions.find? (·.name = name) = some first ↔ FirstNamed definitions name first := by
  rw [List.find?_eq_some_iff_append]
  simp only [decide_eq_true_eq, Bool.not_eq_true', decide_eq_false_iff_not]
  constructor
  · rintro ⟨named, before, after, split, others⟩
    exact ⟨before, after, split, named, others⟩
  · rintro ⟨before, after, split, named, others⟩
    exact ⟨named, before, after, split, others⟩

/-- Whether a statement defines a name. -/
def Statement.defines (name : String) (statement : Statement) : Bool :=
  statement.asDefinition.any (·.name = name)

/-- The statements that define a name are its definitions. -/
theorem Statement.defines_iff {name : String} {statement : Statement} :
    statement.defines name = true ↔
      ∃ definition, statement = .definition definition ∧ definition.name = name := by
  cases statement <;> simp [defines, asDefinition]

namespace Program

/-! ### The lines of first definitions -/

/-- Note the lines of definitions for the names that have none yet. -/
def noteLines (lines : Table Nat) (definitions : List Definition) : Table Nat :=
  definitions.foldl (fun lines definition => lines.insertNew definition.name definition.line) lines

/-- The run of the loop that notes lines: a name has the line it had before, or else that of
its first definition. -/
theorem get?_noteLines (lines : Table Nat) (definitions : List Definition) (name : String) :
    (noteLines lines definitions).get? name =
      (lines.get? name).or ((definitions.find? (·.name = name)).map (·.line)) := by
  induction definitions generalizing lines with
  | nil => simp [noteLines]
  | cons definition rest inductionHypothesis =>
    have later := inductionHypothesis (lines.insertNew definition.name definition.line)
    rw [Table.get?_insertNew, Option.or_assoc] at later
    refine later.trans (congrArg _ ?_)
    by_cases named : definition.name = name <;> simp [named]

/-! ### The index -/

/-- The run of the loop that makes the index: a name has the place it had before, or else that
of its first definition. The induction is on the statements, with any table and any position
before them. -/
theorem get?_indexFrom (index : Table Nat) (position : Nat) (statements : List Statement)
    (name : String) :
    (indexFrom index position statements).get? name = (index.get? name).or
      ((statements.findIdx? (Statement.defines name)).map (· + position)) := by
  induction statements generalizing index position with
  | nil => simp [indexFrom]
  | cons statement rest inductionHypothesis =>
    have shifted : ((rest.findIdx? (Statement.defines name)).map (· + 1)).map (· + position) =
        (rest.findIdx? (Statement.defines name)).map (· + (position + 1)) := by
      rw [Option.map_map]
      congr 1
      funext place
      simp only [Function.comp_apply]
      omega
    cases statement with
    | expression term line =>
      rw [indexFrom, inductionHypothesis, List.findIdx?_cons, ← shifted]
      rfl
    | definition definition =>
      rw [indexFrom, inductionHypothesis, Table.get?_insertNew, Option.or_assoc,
        List.findIdx?_cons, ← shifted]
      by_cases named : definition.name = name <;>
        simp [named, Statement.defines, Statement.asDefinition]

variable {program : Program} {name : String}

/-- The index holds the place of the first definition of each name that is defined. -/
theorem get?_index (program : Program) (name : String) :
    program.index.get? name = program.statements.findIdx? (Statement.defines name) := by
  rw [program.indexed, get?_indexFrom]
  simp

/-- A place in the index is that of a definition, with no other one of the name before. -/
theorem get?_index_eq_some {place : Nat} :
    program.index.get? name = some place ↔
      ∃ definition, program.statements[place]? = some (.definition definition) ∧
        definition.name = name ∧ ∀ earlier < place, ∀ other,
          program.statements[earlier]? = some (.definition other) → other.name ≠ name := by
  rw [get?_index, List.findIdx?_eq_some_iff_getElem]
  constructor
  · rintro ⟨inside, named, others⟩
    obtain ⟨definition, same, named⟩ := Statement.defines_iff.mp named
    refine ⟨definition, by rw [List.getElem?_eq_getElem inside, same], named, ?_⟩
    intro earlier before other listed
    obtain ⟨_, same⟩ := List.getElem?_eq_some_iff.mp listed
    intro repeated
    exact others earlier before (Statement.defines_iff.mpr ⟨other, same, repeated⟩)
  · rintro ⟨definition, listed, named, others⟩
    obtain ⟨inside, same⟩ := List.getElem?_eq_some_iff.mp listed
    refine ⟨inside, Statement.defines_iff.mpr ⟨definition, same, named⟩, ?_⟩
    intro earlier before defines
    obtain ⟨other, same, repeated⟩ := Statement.defines_iff.mp defines
    refine others earlier before other ?_ repeated
    rw [List.getElem?_eq_getElem (Nat.lt_trans before inside), same]

/-- A definition that is found through the index is the one that a search from the front of
the definitions finds. -/
theorem definition_eq_find? (program : Program) (name : String) :
    program.definition name = program.definitions.find? (·.name = name) := by
  have listed : program.statements.find? (Statement.defines name) =
      (program.index.get? name).bind (program.statements[·]?) := by
    rw [get?_index]
    exact List.find?_eq_bind_findIdx?_getElem?
  have found : program.definitions.find? (·.name = name) =
      (program.statements.find? (Statement.defines name)).bind Statement.asDefinition :=
    List.find?_filterMap
  rw [found, listed, Option.bind_assoc]
  rfl

/-- A name stands for the definition of it that no other one comes before. -/
theorem definition_eq_some {definition : Definition} :
    program.definition name = some definition ↔
      FirstNamed program.definitions name definition := by
  rw [definition_eq_find?, find?_eq_some_iff_firstNamed]

end Program

end Timbre
