import Timbre.Proofs.Parts
import Timbre.Proofs.UnreachableClauses

/-!
# Deleting unreachable clauses

Clauses are deleted from a program by their places. Where only unreachable clauses
are deleted, the two programs correspond: every term has what is left of it as its
counterpart, and the clauses before the first wildcard all stay. So calls cannot
tell the difference. Where all unreachable clauses outside patterns are deleted, no
warning about a clause is left, and the other diagnostics are the same.
-/

namespace Timbre

mutual

/-- A term without the clauses at some places. -/
def Term.without (deleted : Term.Place → Bool) : Term → Term
  | .number value line => .number value line
  | .builtin operator line => .builtin operator line
  | .identifier name line => .identifier name line
  | .lambda parameter body line =>
      .lambda parameter (body.without fun place => deleted (.under .body place)) line
  | .application function argument line =>
      .application (function.without fun place => deleted (.under .function place))
        (argument.without fun place => deleted (.under .argument place)) line
  | .conditional condition consequent alternative line =>
      .conditional (condition.without fun place => deleted (.under .condition place))
        (consequent.without fun place => deleted (.under .consequent place))
        (alternative.without fun place => deleted (.under .alternative place)) line
  | .selection scrutinee clauses line =>
      .selection (scrutinee.without fun place => deleted (.under .scrutinee place))
        (clausesWithout deleted 0 clauses) line
  | .binding definitions body line =>
      .binding (definitionsWithout deleted 0 definitions)
        (body.without fun place => deleted (.under .inside place)) line

/-- The same for clauses that are numbered from `index` on. -/
def clausesWithout (deleted : Term.Place → Bool) (index : Nat) :
    List (ClauseOf Term) → List (ClauseOf Term)
  | [] => []
  | ⟨pattern, result, line⟩ :: rest =>
      let others := clausesWithout deleted (index + 1) rest
      if deleted (.here index) then others
      else
        ⟨patternWithout (fun place => deleted (.under (.pattern index) place)) pattern,
          result.without fun place => deleted (.under (.result index) place), line⟩ :: others

/-- The same for a pattern. -/
def patternWithout (deleted : Term.Place → Bool) : Option Term → Option Term
  | none => none
  | some pattern => some (pattern.without deleted)

/-- The same for definitions that are numbered from `index` on. -/
def definitionsWithout (deleted : Term.Place → Bool) (index : Nat) :
    List (DefinitionOf Term) → List (DefinitionOf Term)
  | [] => []
  | ⟨name, body, line⟩ :: rest =>
      ⟨name, body.without fun place => deleted (.under (.bound index) place), line⟩ ::
        definitionsWithout deleted (index + 1) rest

end

/-- A statement without the clauses at some places. -/
def Statement.without (deleted : Term.Place → Bool) : Statement → Statement
  | .definition ⟨name, body, line⟩ => .definition ⟨name, body.without deleted, line⟩
  | .expression term line => .expression (term.without deleted) line

/-- A program without the clauses at some places. -/
def Program.without (program : Program) (deleted : Program.Place → Bool) : Program :=
  .ofStatements (program.statements.zipIdx.map fun item =>
    item.1.without fun place => deleted ⟨item.2, place⟩)

namespace Term

section Deletion

variable {deleted : Place → Bool}

/-! ### Calls -/

/-- Some unreachable clauses are deleted from a term. -/
def Cleared (term rest : Term) : Prop :=
  ∃ deleted, (∀ place, deleted place = true → term.Unreachable place) ∧ rest = term.without deleted

/-- The clauses that are deleted from a part are unreachable in the part. -/
theorem cleared_part {term inner : Term}
    (dead : ∀ place, deleted place = true → term.Unreachable place) (step : Step)
    (reached : term.descend step = some inner) :
    inner.Cleared (inner.without fun place => deleted (.under step place)) := by
  refine ⟨_, ?_, rfl⟩
  intro place gone
  obtain ⟨other, same, unreachable⟩ := dead (.under step place) gone
  cases reached.symm.trans same
  exact unreachable

/-- Clauses stay as long as no wildcard has come before them. -/
theorem clausesMatch_without {scrutinee : Term} {clauses before rest : List Clause} {line : Nat}
    (dead : ∀ place, deleted place = true → (selection scrutinee clauses line).Unreachable place)
    (split : clauses = before ++ rest) (uncovered : ¬ Covered clauses before.length) :
    ClausesMatch Cleared rest (clausesWithout deleted before.length rest) := by
  -- Places number the clauses of the whole list, so the induction keeps what came before.
  induction rest generalizing before with
  | nil => exact .nil
  | cons clause rest inductionHypothesis =>
    have found : clauses[before.length]? = some clause := by simp [split]
    have stays : deleted (.here before.length) ≠ true := fun gone => uncovered (dead _ gone).2
    obtain ⟨form, result, place⟩ := clause
    have results := @cleared_part _ _ result dead (.result before.length)
      (by simp [descend, found])
    rw [clausesWithout, if_neg stays]
    cases form with
    | none => exact .wildcard results
    | some pattern =>
      have patterns := @cleared_part _ _ pattern dead (.pattern before.length)
        (by simp [descend, found])
      refine .pattern patterns results ?_
      have later := @inductionHypothesis (before ++ [⟨some pattern, result, place⟩])
        (by simp [split])
      rw [List.length_append] at later
      exact later (by simpa [covered_succ found] using uncovered)

/-- Definitions match what is left of them. -/
theorem definitionsMatch_without {definitions before rest : List Definition} {body : Term}
    {line : Nat}
    (dead : ∀ place, deleted place = true → (binding definitions body line).Unreachable place)
    (split : definitions = before ++ rest) :
    DefinitionsMatch Cleared rest (definitionsWithout deleted before.length rest) := by
  induction rest generalizing before with
  | nil => exact .nil
  | cons definition rest inductionHypothesis =>
    have found : definitions[before.length]? = some definition := by simp [split]
    obtain ⟨name, bound, place⟩ := definition
    have bodies := @cleared_part _ _ bound dead (.bound before.length) (by simp [descend, found])
    have later := @inductionHypothesis (before ++ [⟨name, bound, place⟩]) (by simp [split])
    rw [List.length_append] at later
    exact .cons bodies later

/-- What is left of a term is the same kind of node. -/
theorem Cleared.matches {term rest : Term} (cleared : term.Cleared rest) :
    Matches Cleared term rest := by
  obtain ⟨deleted, dead, rfl⟩ := cleared
  cases term with
  | number value line => exact .number value line
  | builtin operator line => exact .builtin operator line
  | identifier name line => exact .identifier name line
  | lambda parameter body line => exact .lambda parameter line (cleared_part dead .body rfl)
  | application function argument line =>
    exact .application line (cleared_part dead .function rfl) (cleared_part dead .argument rfl)
  | conditional condition consequent alternative line =>
    exact .conditional line (cleared_part dead .condition rfl)
      (cleared_part dead .consequent rfl) (cleared_part dead .alternative rfl)
  | selection scrutinee clauses line =>
    exact .selection line (cleared_part dead .scrutinee rfl)
      (@clausesMatch_without _ _ _ [] _ _ dead rfl (not_covered_zero clauses))
  | binding definitions body line =>
    exact .binding line (@definitionsMatch_without _ _ [] _ _ _ dead rfl)
      (cleared_part dead .inside rfl)

/-! ### Diagnostics -/

/-- All unreachable clauses outside patterns are deleted. -/
def Covers (deleted : Place → Bool) (term : Term) : Prop :=
  ∀ place, term.Unreachable place → place.Outside → deleted place = true

/-- What covers a term covers each part that is not a pattern. -/
theorem Covers.part {term inner : Term} (covers : Covers deleted term) {step : Step}
    (visited : step.isPattern = false) (reached : term.descend step = some inner) :
    Covers (fun place => deleted (.under step place)) inner :=
  fun place unreachable outside =>
    covers (.under step place) ⟨inner, reached, unreachable⟩ ⟨visited, outside⟩

/-- A clause that is left has no wildcard before it, and the clauses after the first
wildcard are gone. -/
theorem deadAmongClauses_without {scrutinee : Term} {clauses before rest : List Clause}
    {line : Nat} (covers : Covers deleted (selection scrutinee clauses line))
    (split : clauses = before ++ rest)
    (results : ∀ (index : Nat) (clause : Clause), clauses[index]? = some clause →
      (clause.result.without fun place => deleted (.under (.result index) place)).deadClauses = [])
    {covered : Bool} (known : covered = true → Covered clauses before.length) :
    deadAmongClauses covered (clausesWithout deleted before.length rest) = [] := by
  induction rest generalizing before covered with
  | nil => rfl
  | cons clause rest inductionHypothesis =>
    have found : clauses[before.length]? = some clause := by simp [split]
    have result := results _ clause found
    have later := @inductionHypothesis (before ++ [clause]) (by simp [split])
    rw [List.length_append, List.length_singleton] at later
    obtain ⟨form, term, place⟩ := clause
    rw [clausesWithout]
    by_cases gone : deleted (.here before.length) = true
    · rw [if_pos gone]
      exact later fun above => (covered_succ found).mpr (.inl (known above))
    · -- The clause stays, so no wildcard was among those before it, deleted ones included.
      have uncovered : ¬ Covered clauses before.length := fun above =>
        gone (covers _ ⟨(List.getElem?_eq_some_iff.mp found).1, above⟩ trivial)
      obtain rfl : covered = false := Bool.eq_false_iff.mpr fun above => uncovered (known above)
      rw [if_neg gone, deadAmongClauses, result, later]
      · rfl
      · intro above
        refine (covered_succ found).mpr (.inr ?_)
        cases form with
        | none => rfl
        | some pattern => cases above

/-- No clause is dead among the definitions that are left if none is in their bodies. -/
theorem deadAmongDefinitions_without {definitions before rest : List Definition}
    (split : definitions = before ++ rest)
    (bodies : ∀ (index : Nat) (definition : Definition), definitions[index]? = some definition →
      (definition.body.without fun place =>
        deleted (.under (.bound index) place)).deadClauses = []) :
    deadAmongDefinitions (definitionsWithout deleted before.length rest) = [] := by
  induction rest generalizing before with
  | nil => rfl
  | cons definition rest inductionHypothesis =>
    have body := bodies before.length definition (by simp [split])
    have later := @inductionHypothesis (before ++ [definition]) (by simp [split])
    rw [List.length_append] at later
    rw [definitionsWithout, deadAmongDefinitions, body]
    exact later

/-- Nothing is left to warn about: induction on the term. -/
theorem Covers.deadClauses_eq_nil {term : Term} (covers : Covers deleted term) :
    (term.without deleted).deadClauses = [] := by
  induction term using parts_induction generalizing deleted with
  | node term inner =>
    have part : ∀ step part, step.isPattern = false → term.descend step = some part →
        (part.without fun place => deleted (.under step place)).deadClauses = [] :=
      fun step part visited reached => inner step part reached (covers.part visited reached)
    cases term with
    | number value line => rfl
    | builtin operator line => rfl
    | identifier name line => rfl
    | lambda parameter body line => exact part .body body rfl rfl
    | application function argument line =>
      rw [without, deadClauses, part .function function rfl rfl, part .argument argument rfl rfl,
        List.append_nil]
    | conditional condition consequent alternative line =>
      rw [without, deadClauses, part .condition condition rfl rfl,
        part .consequent consequent rfl rfl, part .alternative alternative rfl rfl]
      rfl
    | selection scrutinee clauses line =>
      rw [without, deadClauses, part .scrutinee scrutinee rfl rfl]
      refine @deadAmongClauses_without _ _ _ [] _ _ covers rfl ?_ false (by simp)
      intro index clause found
      exact part (.result index) clause.result rfl (by simp [descend, found])
    | binding definitions body line =>
      rw [without, deadClauses, part .inside body rfl rfl, List.append_nil]
      refine @deadAmongDefinitions_without _ definitions [] definitions rfl ?_
      intro index definition found
      exact part (.bound index) definition.body rfl (by simp [descend, found])

end Deletion

end Term

/-! ### Programs -/

/-- Statements that are the same but for their terms. -/
inductive Statement.Resembles (terms : Term → Term → Prop) : Statement → Statement → Prop where
  | definition {body counterpart : Term} (name : String) (line : Nat)
      (bodies : terms body counterpart) :
      Resembles terms (.definition ⟨name, body, line⟩) (.definition ⟨name, counterpart, line⟩)
  | expression {term counterpart : Term} (line : Nat) (both : terms term counterpart) :
      Resembles terms (.expression term line) (.expression counterpart line)

/-- A statement resembles what is left of it if their terms correspond. -/
theorem Statement.resembles_without {terms : Term → Term → Prop} {deleted : Term.Place → Bool}
    (statement : Statement) (both : terms statement.term (statement.term.without deleted)) :
    statement.Resembles terms (statement.without deleted) := by
  cases statement with
  | definition definition => exact .definition definition.name definition.line both
  | expression term line => exact .expression line both

namespace Program

variable {program : Program}

/-- Statements resemble what is left of them if their terms correspond. -/
theorem resembles_without {terms : Term → Term → Prop} {deleted : Place → Bool}
    (each : ∀ (index : Nat) (statement : Statement), program.statements[index]? = some statement →
      terms statement.term (statement.term.without fun place => deleted ⟨index, place⟩)) :
    List.Forall₂ (Statement.Resembles terms) program.statements
      (program.without deleted).statements := by
  have aligned : List.Forall₂ (Statement.Resembles terms)
      (program.statements.zipIdx.map Prod.fst) (program.without deleted).statements := by
    rw [Program.without, statements_ofStatements, List.forall₂_map_left_iff,
      List.forall₂_map_right_iff, List.forall₂_same]
    rintro ⟨statement, index⟩ member
    have found := List.mem_zipIdx_iff_getElem?.mp member
    exact statement.resembles_without (each index statement found)
  rwa [List.zipIdx_map_fst] at aligned

/-- The first definitions of a name in such statements correspond. -/
theorem definedAlike_of_statements {terms : Term → Term → Prop}
    {statements others : List Statement}
    (resemble : List.Forall₂ (Statement.Resembles terms) statements others) (name : String) :
    DefinedAlike terms (ofStatements statements) (ofStatements others) name := by
  induction resemble with
  | nil => exact .none
  | cons first rest inductionHypothesis =>
    cases first with
    | expression line both =>
      unfold DefinedAlike
      rw [definition_expression_cons, definition_expression_cons]
      exact inductionHypothesis
    | definition other line bodies =>
      unfold DefinedAlike
      rw [definition_definition_cons, definition_definition_cons]
      by_cases same : other = name
      · simpa [same] using Option.Rel.some bodies
      · simpa [same] using inductionHypothesis

/-- The first definitions of a name in programs of such statements correspond. -/
theorem definedAlike_of_resembles {other : Program} {terms : Term → Term → Prop}
    (resemble : List.Forall₂ (Statement.Resembles terms) program.statements other.statements)
    (name : String) : DefinedAlike terms program other name := by
  simpa using definedAlike_of_statements resemble name

/-- A call does not tell whether unreachable clauses are deleted. -/
theorem call_without {deleted : Place → Bool}
    (dead : ∀ place, deleted place = true → program.Unreachable place) (budget : Nat)
    (name : String) (frequency time : Float) :
    (program.without deleted).call budget name frequency time =
      program.call budget name frequency time := by
  have cleared : List.Forall₂ (Statement.Resembles Term.Cleared) program.statements
      (program.without deleted).statements := by
    apply resembles_without
    intro index statement found
    refine ⟨_, ?_, rfl⟩
    intro place gone
    obtain ⟨other, same, unreachable⟩ := dead ⟨index, place⟩ gone
    cases found.symm.trans same
    exact unreachable
  let between : Correspondence program (program.without deleted) :=
    ⟨Term.Cleared, Term.Cleared.matches, fun other _ => definedAlike_of_resembles cleared other⟩
  have entry : DefinedAlike between.terms program (program.without deleted) name :=
    definedAlike_of_resembles cleared name
  exact (Correspondence.call_eq entry budget frequency time).symm

/-- Statements that resemble one another have the same diagnostics, apart from those
about their terms. -/
theorem headDiagnostics_eq {terms : Term → Term → Prop} {statement other : Statement}
    (resembles : statement.Resembles terms other) {earlier seen : List Definition}
    (same : earlier.map heading = seen.map heading) :
    headDiagnostics earlier statement = headDiagnostics seen other := by
  cases resembles with
  | expression line both => rfl
  | definition name line bodies =>
    have found : (earlier.find? (·.name = name)).map heading =
        (seen.find? (·.name = name)).map heading := by
      have listed := congrArg (List.find? fun head => head.1 = name) same
      rw [List.find?_map, List.find?_map] at listed
      exact listed
    simp only [headDiagnostics, found]

/-- Where nothing is left to warn about in the terms, the other diagnostics remain. -/
theorem diagnosticsAfter_resembles {statements others : List Statement}
    (resemble : List.Forall₂ (Statement.Resembles fun _ rest => rest.deadClauses = [])
      statements others) {earlier seen : List Definition}
    (same : earlier.map heading = seen.map heading) :
    diagnosticsAfter seen others =
      (diagnosticsAfter earlier statements).filter (·.finding ≠ .unreachableClause) := by
  induction resemble generalizing earlier seen with
  | nil => rfl
  | @cons statement other statements others first rest inductionHypothesis =>
    have heads : (headDiagnostics earlier statement).filter (·.finding ≠ .unreachableClause) =
        headDiagnostics seen other := by
      rw [headDiagnostics_eq first same]
      exact List.filter_eq_self.mpr fun diagnostic member => by simpa using head_not_clause member
    have terms : statement.term.diagnostics.filter (·.finding ≠ .unreachableClause) = [] :=
      List.filter_eq_nil_iff.mpr fun diagnostic member => by simpa using term_clause member
    have none : other.term.diagnostics = [] := by
      cases first with
      | expression line empty => simp [Statement.term, Term.diagnostics, empty]
      | definition name line empty => simp [Statement.term, Term.diagnostics, empty]
    have joined : (earlier ++ statement.asDefinition.toList).map heading =
        (seen ++ other.asDefinition.toList).map heading := by
      rw [List.map_append, List.map_append, same]
      cases first <;> rfl
    rw [diagnosticsAfter_cons, diagnosticsAfter_cons, List.filter_append, List.filter_append,
      heads, terms, none, inductionHypothesis joined]

/-- What is left of the diagnostics when all unreachable clauses outside patterns are
deleted. -/
theorem diagnostics_without {deleted : Place → Bool}
    (covers : ∀ place, program.Unreachable place → place.inside.Outside →
      deleted place = true) :
    (program.without deleted).diagnostics =
      program.diagnostics.filter (·.finding ≠ .unreachableClause) := by
  rw [diagnostics_eq, diagnostics_eq]
  refine diagnosticsAfter_resembles (resembles_without ?_) rfl
  intro index statement found
  refine Term.Covers.deadClauses_eq_nil ?_
  intro place unreachable outside
  exact covers ⟨index, place⟩ ⟨statement, found, unreachable⟩ outside

/-- The warnings about clauses correspond one to one to the unreachable clauses, those
inside patterns excepted, which no source text can spell. When exactly these clauses
are deleted, no such warning is left, all other diagnostics are, and every call gives
the same number or the same failure. -/
theorem unreachable_clauses (program : Program) :
    ∃ places : List Place, places.Nodup ∧
      (∀ place, place ∈ places ↔ program.Unreachable place ∧ place.inside.Outside) ∧
      (∀ source, Program.ofSource source = .ok program →
        ∀ place, place ∈ places ↔ program.Unreachable place) ∧
      List.Forall₂ (fun place warning => (program.clauseAt place).map
        (fun clause => ⟨.unreachableClause, clause.line⟩) = some warning)
        places program.clauseWarnings ∧
      (program.without (· ∈ places)).clauseWarnings = [] ∧
      (program.without (· ∈ places)).diagnostics =
        program.diagnostics.filter (·.finding ≠ .unreachableClause) ∧
      ∀ budget name frequency time,
        (program.without (· ∈ places)).call budget name frequency time =
          program.call budget name frequency time := by
  obtain ⟨places, distinct, members, listed⟩ := program.clauseWarnings_enumerated
  have flagged : ∀ place, place ∈ places ↔ program.Unreachable place ∧ place.inside.Outside := by
    intro place
    rw [members]
    constructor
    · rintro ⟨warning, unreachable, outside, -⟩
      exact ⟨unreachable, outside⟩
    · rintro ⟨unreachable, outside⟩
      obtain ⟨clause, stands⟩ := unreachable.clauseAt
      exact ⟨⟨.unreachableClause, clause.line⟩, unreachable, outside, by rw [stands]; rfl⟩
  have remaining : (program.without (· ∈ places)).diagnostics =
      program.diagnostics.filter (·.finding ≠ .unreachableClause) := by
    apply diagnostics_without
    intro place unreachable outside
    exact decide_eq_true ((flagged place).mpr ⟨unreachable, outside⟩)
  refine ⟨places, distinct, flagged, ?_, listed.imp fun place warning about => about.2.2, ?_,
    remaining, ?_⟩
  · intro source parsed place
    rw [flagged]
    exact ⟨And.left, fun unreachable => ⟨unreachable, outside_of_source parsed unreachable⟩⟩
  · rw [clauseWarnings, remaining, List.filter_filter]
    simp
  · apply call_without
    intro place gone
    exact ((flagged place).mp (of_decide_eq_true gone)).1

/-- A selection in the result of a clause. Both have a clause after a wildcard, on the
same line but at different places. -/
theorem unreachable_clauses_nested :
    let program := Program.ofStatements [.definition ⟨"main", .lambda "f" (.lambda "t"
      (.selection (.identifier "t" 1)
        [⟨none, .selection (.identifier "f" 1)
          [⟨none, .number 1 1, 1⟩, ⟨some (.number 0 1), .number 2 1, 1⟩] 1, 1⟩,
        ⟨some (.number 1 1), .number 3 1, 1⟩] 1) 1) 1, 1⟩]
    Program.ofSource "main = \\f.\\t. case t of _ -> case f of _ -> 1, 0 -> 2 end, 1 -> 3 end" =
        .ok program ∧
      ∃ places : List Place, places.length = 2 ∧
        (∀ place, place ∈ places ↔ program.Unreachable place) ∧
        (program.without (· ∈ places)).clauseWarnings = [] ∧
        (program.without (· ∈ places)).call 4 "main" 440 0 = .ok 1 := by
  intro program
  have lexed : tokenize
      "main = \\f.\\t. case t of _ -> case f of _ -> 1, 0 -> 2 end, 1 -> 3 end" =
      .ok [⟨.identifier "main", ⟨1, 1⟩⟩, ⟨.mark .assign, ⟨1, 6⟩⟩, ⟨.mark .backslash, ⟨1, 8⟩⟩,
        ⟨.identifier "f", ⟨1, 9⟩⟩, ⟨.mark .dot, ⟨1, 10⟩⟩, ⟨.mark .backslash, ⟨1, 11⟩⟩,
        ⟨.identifier "t", ⟨1, 12⟩⟩, ⟨.mark .dot, ⟨1, 13⟩⟩, ⟨.keyword .caseWord, ⟨1, 15⟩⟩,
        ⟨.identifier "t", ⟨1, 20⟩⟩, ⟨.keyword .ofWord, ⟨1, 22⟩⟩, ⟨.mark .underscore, ⟨1, 25⟩⟩,
        ⟨.mark .arrow, ⟨1, 27⟩⟩, ⟨.keyword .caseWord, ⟨1, 30⟩⟩, ⟨.identifier "f", ⟨1, 35⟩⟩,
        ⟨.keyword .ofWord, ⟨1, 37⟩⟩, ⟨.mark .underscore, ⟨1, 40⟩⟩, ⟨.mark .arrow, ⟨1, 42⟩⟩,
        ⟨.number 1, ⟨1, 45⟩⟩, ⟨.mark .comma, ⟨1, 46⟩⟩, ⟨.number 0, ⟨1, 48⟩⟩,
        ⟨.mark .arrow, ⟨1, 50⟩⟩, ⟨.number 2, ⟨1, 53⟩⟩, ⟨.keyword .endWord, ⟨1, 55⟩⟩,
        ⟨.mark .comma, ⟨1, 58⟩⟩, ⟨.number 1, ⟨1, 60⟩⟩, ⟨.mark .arrow, ⟨1, 62⟩⟩,
        ⟨.number 3, ⟨1, 65⟩⟩, ⟨.keyword .endWord, ⟨1, 67⟩⟩] := rfl
  have parsed : Program.ofSource
      "main = \\f.\\t. case t of _ -> case f of _ -> 1, 0 -> 2 end, 1 -> 3 end" = .ok program :=
    Program.ofSource_eq_ok.mpr ⟨_, [], lexed, rfl⟩
  have warned : program.clauseWarnings = [⟨.unreachableClause, 1⟩, ⟨.unreachableClause, 1⟩] := rfl
  obtain ⟨places, -, -, all, listed, cleared, -, calls⟩ := unreachable_clauses program
  refine ⟨parsed, places, ?_, all _ parsed, cleared, ?_⟩
  · rw [listed.length_eq, warned]
    rfl
  · rw [calls]
    rfl

end Program

end Timbre
