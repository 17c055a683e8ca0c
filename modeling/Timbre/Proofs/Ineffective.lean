import Timbre.Proofs.Diagnostics
import Timbre.Proofs.Loading
import Timbre.Proofs.Parts

/-!
# Statements without effect

Diagnostics point at three kinds of statements: expressions, definitions of the
circle constant, and definitions that repeat a name. None of them changes what a
call of another name gives. They can be deleted in any selection, and once the
names that are left are distinct, the statements can be put into any order.

The first definition of a name survives all this, except of the circle constant,
and that is all that calls depend on.
-/

namespace Timbre

namespace Program

/-- A statement that changes nothing after some definitions. -/
inductive Ineffective (earlier : List Definition) : Statement → Prop where
  | expression (term : Term) (line : Nat) : Ineffective earlier (.expression term line)
  | constant {definition : Definition} (named : definition.name = circleConstantName) :
      Ineffective earlier (.definition definition)
  | repeated {definition other : Definition} (listed : other ∈ earlier)
      (named : other.name = definition.name) : Ineffective earlier (.definition definition)

/-- Some ineffective statements are deleted from statements that come after
`earlier` definitions. -/
inductive Trims : List Definition → List Statement → List Statement → Prop where
  | nil (earlier : List Definition) : Trims earlier [] []
  | keep {earlier : List Definition} {statement : Statement} {rest kept : List Statement}
      (following : Trims (earlier ++ statement.asDefinition.toList) rest kept) :
      Trims earlier (statement :: rest) (statement :: kept)
  | delete {earlier : List Definition} {statement : Statement} {rest kept : List Statement}
      (ineffective : Ineffective earlier statement)
      (following : Trims (earlier ++ statement.asDefinition.toList) rest kept) :
      Trims earlier (statement :: rest) kept

/-- A program with some ineffective statements deleted and, if its names are distinct
then, in any order. -/
def Reduces (program reduced : Program) : Prop :=
  ∃ kept : Program, Trims [] program.statements kept.statements ∧
    (reduced = kept ∨ kept.Distinct ∧ reduced.statements.Perm kept.statements)

/-- The ineffective statements are those with a diagnostic other than that about a
clause. -/
theorem ineffective_iff_diagnostic (earlier : List Definition) (statement : Statement) :
    Ineffective earlier statement ↔
      ∃ diagnostic ∈ diagnosticsAfter earlier [statement],
        diagnostic.finding ≠ .unreachableClause := by
  have heads : (∃ diagnostic ∈ diagnosticsAfter earlier [statement],
      diagnostic.finding ≠ .unreachableClause) ↔ ∃ diagnostic,
        diagnostic ∈ headDiagnostics earlier statement := by
    rw [diagnosticsAfter_cons]
    constructor
    · rintro ⟨diagnostic, member, other⟩
      obtain (member | member) | member := by simpa only [List.mem_append] using member
      · exact ⟨diagnostic, member⟩
      · exact absurd (term_clause member) other
      · cases member
    · rintro ⟨diagnostic, member⟩
      exact ⟨diagnostic, by simp [member], head_not_clause member⟩
  rw [heads]
  cases statement with
  | expression term line => exact ⟨fun _ => ⟨_, .head _⟩, fun _ => .expression term line⟩
  | definition definition =>
    constructor
    · intro ineffective
      cases ineffective with
      | constant named => exact ⟨_, List.mem_append_right _ (by rw [if_pos named]; exact .head _)⟩
      | @repeated _ other listed named =>
        have known : (earlier.find? (·.name = definition.name)).isSome = true :=
          List.find?_isSome.mpr ⟨other, listed, decide_eq_true named⟩
        obtain ⟨first, found⟩ := Option.isSome_iff_exists.mp known
        exact ⟨_, List.mem_append_left _ (by rw [found]; exact .head _)⟩
    · rintro ⟨diagnostic, member⟩
      obtain member | member := List.mem_append.mp member
      · cases found : earlier.find? (·.name = definition.name) with
        | none => simp [found] at member
        | some first =>
          exact .repeated (List.mem_of_find?_eq_some found) (by simpa using List.find?_some found)
      · split at member
        · exact .constant ‹_›
        · cases member

/-- Where no earlier definition has a name, deletions keep its first definition,
unless the name is that of the circle constant. -/
theorem Trims.definition_eq {earlier : List Definition} {statements kept : List Statement}
    (trims : Trims earlier statements kept) {name : String}
    (ordinary : name ≠ circleConstantName) (unseen : ∀ other ∈ earlier, other.name ≠ name) :
    (ofStatements kept).definition name = (ofStatements statements).definition name := by
  -- A definition of another name joins the earlier ones.
  have joined : ∀ {earlier : List Definition} {definition : Definition},
      (∀ other ∈ earlier, other.name ≠ name) → definition.name ≠ name →
        ∀ other ∈ earlier ++ [definition], other.name ≠ name := by
    intro earlier definition unseen different other member
    obtain member | member := List.mem_append.mp member
    · exact unseen other member
    · rwa [List.mem_singleton.mp member]
  induction trims with
  | nil earlier => rfl
  | @keep earlier statement rest kept following inductionHypothesis =>
    cases statement with
    | expression term line =>
      rw [definition_expression_cons, definition_expression_cons]
      exact inductionHypothesis (by simpa [Statement.asDefinition] using unseen)
    | definition definition =>
      rw [definition_definition_cons, definition_definition_cons]
      by_cases same : definition.name = name
      · rw [if_pos same, if_pos same]
      · rw [if_neg same, if_neg same]
        exact inductionHypothesis (joined unseen same)
  | @delete earlier statement rest kept ineffective following inductionHypothesis =>
    cases ineffective with
    | expression term line =>
      rw [definition_expression_cons]
      exact inductionHypothesis (by simpa [Statement.asDefinition] using unseen)
    | @constant definition named =>
      have different : definition.name ≠ name := named ▸ Ne.symm ordinary
      rw [definition_definition_cons, if_neg different]
      exact inductionHypothesis (joined unseen different)
    | @repeated definition other listed named =>
      have different : definition.name ≠ name := named ▸ unseen other listed
      rw [definition_definition_cons, if_neg different]
      exact inductionHypothesis (joined unseen different)

/-- The order of statements does not matter where names are distinct. -/
theorem Distinct.definition_perm {program other : Program} (distinct : program.Distinct)
    (permuted : other.statements.Perm program.statements) (name : String) :
    other.definition name = program.definition name := by
  have listed : other.definitions.Perm program.definitions := permuted.filterMap _
  have others : other.Distinct := (listed.map _).nodup_iff.mpr distinct
  cases found : program.definition name with
  | some definition =>
    obtain ⟨member, rfl⟩ := defines_of_definition found
    exact others.definition_eq (listed.mem_iff.mpr member)
  | none =>
    rw [definition_eq_none] at found ⊢
    rintro ⟨definition, member, named⟩
    exact found ⟨definition, listed.mem_iff.mp member, named⟩

/-- A reduced program keeps the first definition of every name but that of the circle constant. -/
theorem Reduces.definition_eq {program reduced : Program} (reduces : program.Reduces reduced)
    {name : String} (ordinary : name ≠ circleConstantName) :
    reduced.definition name = program.definition name := by
  obtain ⟨kept, trims, order⟩ := reduces
  have trimmed : kept.definition name = program.definition name := by
    simpa using trims.definition_eq ordinary (by simp)
  obtain rfl | ⟨distinct, permuted⟩ := order
  · exact trimmed
  · rw [distinct.definition_perm permuted, trimmed]

/-- What diagnostics call a statement without effect, a definition of the circle
constant or a repeated name has no effect. A call of a name other than the circle
constant gives the same number or the same failure after any of these are deleted,
and after what is left is put into another order, provided its names are distinct. -/
theorem ineffective_statements (program reduced : Program) :
    (∀ earlier statement, Ineffective earlier statement ↔
      ∃ diagnostic ∈ diagnosticsAfter earlier [statement],
        diagnostic.finding ≠ .unreachableClause) ∧
    (program.Reduces reduced → ∀ name, name ≠ circleConstantName →
      ∀ budget frequency time, reduced.call budget name frequency time =
        program.call budget name frequency time) := by
  refine ⟨ineffective_iff_diagnostic, ?_⟩
  intro reduces name ordinary budget frequency time
  have same : ∀ other, other ≠ circleConstantName →
      reduced.definition other = program.definition other :=
    fun other ordinary => reduces.definition_eq ordinary
  exact call_eq_of_definitions same (same name ordinary) budget frequency time

/-- An expression, a circle constant and a second definition of `main` are deleted,
and what is left changes places. -/
theorem ineffective_statements_deleted :
    let half : Definition := ⟨"half", .lambda "x" (.number 0.5 1) 1, 1⟩
    let wave : Definition := ⟨"main", .lambda "f" (.lambda "t"
      (.application (.identifier "half" 4) (.identifier "pi" 4) 4) 4) 4, 4⟩
    let program := ofStatements [.definition half, .expression (.number 1 2) 2,
      .definition ⟨"pi", .number 3 3, 3⟩, .definition wave,
      .definition ⟨"main", .number 0 5, 5⟩]
    let reduced := ofStatements [.definition wave, .definition half]
    program.Reduces reduced ∧ reduced.call 5 "main" 440 0 = program.call 5 "main" 440 0 ∧
      program.call 5 "main" 440 0 = .ok 0.5 := by
  intro half wave program reduced
  have trims : Trims [] program.statements [.definition half, .definition wave] :=
    .keep (.delete (.expression _ _) (.delete (.constant rfl) (.keep (.delete
      (.repeated (.tail _ (.tail _ (.head _))) rfl) (.nil _)))))
  have distinct : (ofStatements [.definition half, .definition wave]).Distinct := by
    simp [Distinct, definitions, Statement.asDefinition, ofStatements, half, wave]
  have reduces : program.Reduces reduced := ⟨ofStatements _, trims, .inr ⟨distinct, .swap _ _ _⟩⟩
  exact ⟨reduces, (ineffective_statements program reduced).2 reduces "main" (by decide) 5 440 0,
    rfl⟩

end Program

end Timbre
