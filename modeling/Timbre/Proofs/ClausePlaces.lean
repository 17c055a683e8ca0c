import Timbre.Proofs.Appending
import Timbre.Proofs.ParserSoundness
import Timbre.Proofs.Printing

/-!
# Places of clauses

A clause stands in a selection, and the selection is reached from the statement it
is in by steps from nodes to their parts. The steps together with the number of the
clause are its place; two clauses may look the same, even to their lines, but never
have the same place.

A clause is unreachable when a wildcard stands before it in its selection. Source
texts spell only numerals as patterns, so in a program that was read from one no
clause stands inside a pattern.
-/

namespace Timbre

namespace Term

/-- A step from a node to one of its parts. Clauses and definitions are numbered from
zero. -/
inductive Step where
  | body
  | function
  | argument
  | condition
  | consequent
  | alternative
  | scrutinee
  | pattern (index : Nat)
  | result (index : Nat)
  | bound (index : Nat)
  | inside
  deriving DecidableEq

/-- Whether a step leads into a pattern. -/
def Step.isPattern : Step → Bool
  | pattern _ => true
  | _ => false

/-- The part that a step leads to. -/
def descend : Term → Step → Option Term
  | lambda _ body _, .body => some body
  | application function _ _, .function => some function
  | application _ argument _, .argument => some argument
  | conditional condition _ _ _, .condition => some condition
  | conditional _ consequent _ _, .consequent => some consequent
  | conditional _ _ alternative _, .alternative => some alternative
  | selection scrutinee _ _, .scrutinee => some scrutinee
  | selection _ clauses _, .pattern index => clauses[index]?.bind (·.pattern)
  | selection _ clauses _, .result index => clauses[index]?.map (·.result)
  | binding definitions _ _, .bound index => definitions[index]?.map (·.body)
  | binding _ body _, .inside => some body
  | _, _ => none

/-- The clauses of a node. -/
def clauses : Term → List Clause
  | selection _ clauses _ => clauses
  | _ => []

/-- Where a clause stands: its number in the selection, under the steps to that. -/
inductive Place where
  | here (index : Nat)
  | under (step : Step) (place : Place)
  deriving DecidableEq

/-- No step leads into a pattern. -/
def Place.Outside : Place → Prop
  | here _ => True
  | under step place => step.isPattern = false ∧ place.Outside

/-- The clause at a place. -/
def clauseAt : Term → Place → Option Clause
  | term, .here index => term.clauses[index]?
  | term, .under step place => (term.descend step).bind fun inner => inner.clauseAt place

/-- A wildcard stands before the clause of a number. -/
def Covered (clauses : List Clause) (index : Nat) : Prop :=
  ∃ earlier < index, ∃ wildcard, clauses[earlier]? = some wildcard ∧ wildcard.pattern = none

/-- A clause stands at a place, and a wildcard before it in its selection. -/
def Unreachable : Term → Place → Prop
  | term, .here index => index < term.clauses.length ∧ Covered term.clauses index
  | term, .under step place => ∃ inner, term.descend step = some inner ∧ inner.Unreachable place

/-- Nothing comes before the first clause. -/
theorem not_covered_zero (clauses : List Clause) : ¬ Covered clauses 0 := by
  rintro ⟨_, impossible, -⟩
  exact Nat.not_lt_zero _ impossible

/-- A clause is covered if the one before it is covered or has the wildcard. -/
theorem covered_succ {clauses : List Clause} {index : Nat} {clause : Clause}
    (found : clauses[index]? = some clause) :
    Covered clauses (index + 1) ↔ Covered clauses index ∨ clause.pattern = none := by
  constructor
  · rintro ⟨earlier, before, wildcard, listed, wild⟩
    obtain before | rfl := Nat.lt_succ_iff_lt_or_eq.mp before
    · exact .inl ⟨earlier, before, wildcard, listed, wild⟩
    · cases found.symm.trans listed
      exact .inr wild
  · rintro (⟨earlier, before, covering⟩ | wild)
    · exact ⟨earlier, Nat.lt_succ_of_lt before, covering⟩
    · exact ⟨index, Nat.lt_succ_self index, clause, found, wild⟩

/-- There is a clause at an unreachable place. -/
theorem Unreachable.clauseAt {term : Term} {place : Place} (unreachable : term.Unreachable place) :
    ∃ clause, term.clauseAt place = some clause := by
  induction place generalizing term with
  | here index => exact ⟨_, List.getElem?_eq_getElem unreachable.1⟩
  | under step place inductionHypothesis =>
    obtain ⟨inner, reached, unreachable⟩ := unreachable
    obtain ⟨clause, found⟩ := inductionHypothesis unreachable
    exact ⟨clause, by rw [Term.clauseAt, reached, Option.bind_some, found]⟩

/-! ### Induction on terms -/

/-- The result of a clause is smaller than the list of clauses. -/
theorem sizeOf_result {clauses : List Clause} {clause : Clause} (listed : clause ∈ clauses) :
    sizeOf clause.result < sizeOf clauses := by
  have smaller := List.sizeOf_lt_of_mem listed
  cases clause
  simp only [ClauseOf.mk.sizeOf_spec] at smaller
  dsimp only
  omega

/-- A pattern is smaller than the list of clauses. -/
theorem sizeOf_pattern {clauses : List Clause} {clause : Clause} {pattern : Term}
    (listed : clause ∈ clauses) (matched : clause.pattern = some pattern) :
    sizeOf pattern < sizeOf clauses := by
  have smaller := List.sizeOf_lt_of_mem listed
  cases clause
  cases matched
  simp only [ClauseOf.mk.sizeOf_spec, Option.some.sizeOf_spec] at smaller
  omega

/-- The body of a definition is smaller than the list of definitions. -/
theorem sizeOf_body {definitions : List Definition} {definition : Definition}
    (listed : definition ∈ definitions) : sizeOf definition.body < sizeOf definitions := by
  have smaller := List.sizeOf_lt_of_mem listed
  cases definition
  simp only [DefinitionOf.mk.sizeOf_spec] at smaller
  dsimp only
  omega

/-- Parts are smaller than the node. -/
theorem sizeOf_descend {term inner : Term} {step : Step}
    (reached : term.descend step = some inner) : sizeOf inner < sizeOf term := by
  cases step with
  | pattern index =>
    cases term with
    | selection scrutinee clauses line =>
      obtain ⟨clause, found, matched⟩ := Option.bind_eq_some_iff.mp reached
      have smaller := sizeOf_pattern (List.mem_of_getElem? found) matched
      simp only [selection.sizeOf_spec]
      omega
    | _ => cases reached
  | result index =>
    cases term with
    | selection scrutinee clauses line =>
      obtain ⟨clause, found, rfl⟩ := Option.map_eq_some_iff.mp reached
      have smaller := sizeOf_result (List.mem_of_getElem? found)
      simp only [selection.sizeOf_spec]
      omega
    | _ => cases reached
  | bound index =>
    cases term with
    | binding definitions body line =>
      obtain ⟨definition, found, rfl⟩ := Option.map_eq_some_iff.mp reached
      have smaller := sizeOf_body (List.mem_of_getElem? found)
      simp only [binding.sizeOf_spec]
      omega
    | _ => cases reached
  | _ =>
    cases term <;> cases reached
    simp only [lambda.sizeOf_spec, application.sizeOf_spec, conditional.sizeOf_spec,
      selection.sizeOf_spec, binding.sizeOf_spec]
    omega

/-- What holds of a term whenever it holds of its parts holds of every term. -/
theorem parts_induction {holds : Term → Prop}
    (node : ∀ term, (∀ step inner, term.descend step = some inner → holds inner) → holds term)
    (term : Term) : holds term := by
  induction size : sizeOf term using Nat.strongRecOn generalizing term with
  | ind size inductionHypothesis =>
    subst size
    apply node
    intro step inner reached
    exact inductionHypothesis _ (sizeOf_descend reached) inner rfl

/-! ### Patterns in source texts -/

/-- A pattern that can be printed is a number. -/
theorem Printable.numeral {term pattern : Term} {index : Nat} (printable : term.Printable)
    (reached : term.descend (.pattern index) = some pattern) :
    ∃ value line, pattern = .number value line := by
  cases printable with
  | selection _ examined nonempty patterns results =>
    obtain ⟨clause, found, matched⟩ := Option.bind_eq_some_iff.mp reached
    obtain none | ⟨value, line, numeral⟩ := patterns clause (List.mem_of_getElem? found)
    · simp [none] at matched
    · exact ⟨value, line, Option.some.inj (matched.symm.trans numeral)⟩
  | _ => cases reached

/-- The parts of a term that can be printed can be printed. -/
theorem Printable.descend {term inner : Term} {step : Step} (printable : term.Printable)
    (reached : term.descend step = some inner) : inner.Printable := by
  cases step with
  | pattern index =>
    obtain ⟨value, line, rfl⟩ := printable.numeral reached
    exact .number value line
  | result index =>
    cases printable with
    | selection _ examined nonempty patterns results =>
      obtain ⟨clause, found, rfl⟩ := Option.map_eq_some_iff.mp reached
      exact results clause (List.mem_of_getElem? found)
    | _ => cases reached
  | bound index =>
    cases printable with
    | binding _ nonempty bodies inside =>
      obtain ⟨definition, found, rfl⟩ := Option.map_eq_some_iff.mp reached
      exact bodies definition (List.mem_of_getElem? found)
    | _ => cases reached
  | _ =>
    cases printable <;> cases reached
    assumption

/-- A numeral has no clauses, so none in it is unreachable. -/
theorem not_unreachable_number (value : Float) (line : Nat) (place : Place) :
    ¬ (number value line).Unreachable place := by
  cases place with
  | here index => exact fun unreachable => Nat.not_lt_zero _ unreachable.1
  | under step place =>
    rintro ⟨_, impossible, -⟩
    cases impossible

/-- The patterns of a term that can be printed are numerals, so an unreachable clause is
outside patterns. -/
theorem Printable.outside {term : Term} {place : Place} (printable : term.Printable)
    (unreachable : term.Unreachable place) : place.Outside := by
  induction place generalizing term with
  | here index => trivial
  | under step place inductionHypothesis =>
    obtain ⟨inner, reached, unreachable⟩ := unreachable
    refine ⟨?_, inductionHypothesis (printable.descend reached) unreachable⟩
    cases step with
    | pattern index =>
      obtain ⟨value, line, rfl⟩ := printable.numeral reached
      exact absurd unreachable (not_unreachable_number value line place)
    | _ => rfl

end Term

namespace Grammar

/-- What is derived from a symbol can be printed. -/
def Symbol.Printable : (symbol : Symbol) → symbol.Tree → Prop
  | term _, tree => tree.Printable
  | clause, tree => tree.Spellable ∧ tree.result.Printable
  | clauses, tree => tree ≠ [] ∧ ∀ clause ∈ tree, clause.Spellable ∧ clause.result.Printable
  | definition, tree => tree.body.Printable
  | definitions, tree => tree ≠ [] ∧ ∀ definition ∈ tree, definition.body.Printable

/-- What is derived can be printed: the grammar has only numerals for patterns and no
empty lists. -/
theorem Derives.printable {symbol : Symbol} {tokens : List Located} {tree : symbol.Tree}
    (derived : Derives symbol tokens tree) : symbol.Printable tree := by
  induction derived with
  | operand first inside => exact inside
  | joined p listed first second left right =>
    exact .application _ (.application _ (.builtin _ _) left) right
  | function first inside => exact inside
  | applied start first second function argument => exact .application _ function argument
  | number value p => exact .number value _
  | identifier name p => exact .identifier name _
  | builtin operator p => exact .builtin operator _
  | parenthesized p q expression inside => exact inside
  | lambda name p q r expression body => exact .lambda name _ body
  | selection p q r expression choices scrutinee listed =>
    exact .selection _ scrutinee listed.1 (fun clause member => (listed.2 clause member).1)
      fun clause member => (listed.2 clause member).2
  | conditional p q r s decision positive negative condition consequent alternative =>
    exact .conditional _ condition consequent alternative
  | binding p q r bound expression definitions body =>
    exact .binding _ definitions.1 definitions.2 body
  | numbered value p q expression result => exact ⟨.inr ⟨value, _, rfl⟩, result⟩
  | wildcard p q expression result => exact ⟨.inl rfl, result⟩
  | lastClause last only => exact ⟨by simp, List.forall_mem_singleton.mpr only⟩
  | moreClauses p first rest one others =>
    exact ⟨by simp, List.forall_mem_cons.mpr ⟨one, others.2⟩⟩
  | named name p q expression body => exact body
  | lastDefinition last only => exact ⟨by simp, List.forall_mem_singleton.mpr only⟩
  | moreDefinitions p first rest one others =>
    exact ⟨by simp, List.forall_mem_cons.mpr ⟨one, others.2⟩⟩

/-- The terms of a program that is derived can be printed. -/
theorem DerivesProgram.printable {tokens : List Located} {statements : List Statement}
    (derived : DerivesProgram tokens statements) :
    ∀ statement ∈ statements, statement.term.Printable := by
  have one : ∀ {tokens statement}, DerivesStatement tokens statement →
      statement.term.Printable := by
    intro tokens statement derived
    cases derived with
    | definition derived => exact derived.printable
    | expression start derived => exact derived.printable
  induction derived with
  | empty => simp
  | next first rest inductionHypothesis =>
    exact List.forall_mem_cons.mpr ⟨one first, inductionHypothesis⟩
  | nextComma p first rest inductionHypothesis =>
    exact List.forall_mem_cons.mpr ⟨one first, inductionHypothesis⟩

end Grammar

namespace Program

/-- Where a clause stands in a program: the number of the statement, and the place in
its term. -/
structure Place where
  statement : Nat
  inside : Term.Place
  deriving DecidableEq

variable (program : Program)

/-- The clause at a place. -/
def clauseAt (place : Place) : Option Clause :=
  program.statements[place.statement]?.bind (·.term.clauseAt place.inside)

/-- A clause stands at a place, and a wildcard before it in its selection. -/
def Unreachable (place : Place) : Prop :=
  ∃ statement, program.statements[place.statement]? = some statement ∧
    statement.term.Unreachable place.inside

variable {program}

/-- There is a clause at an unreachable place of a program. -/
theorem Unreachable.clauseAt {place : Place} (unreachable : program.Unreachable place) :
    ∃ clause, program.clauseAt place = some clause := by
  obtain ⟨statement, found, unreachable⟩ := unreachable
  obtain ⟨clause, stands⟩ := unreachable.clauseAt
  exact ⟨clause, by rw [Program.clauseAt, found, Option.bind_some, stands]⟩

/-- In a program that was read from a text no clause stands inside a pattern. -/
theorem outside_of_source {source : String} (parsed : Program.ofSource source = .ok program)
    {place : Place} (unreachable : program.Unreachable place) : place.inside.Outside := by
  obtain ⟨tokens, rest, -, read⟩ := Program.ofSource_eq_ok.mp parsed
  obtain ⟨statement, found, unreachable⟩ := unreachable
  have printable := (Parser.statements_derives read).2.printable statement
    (List.mem_of_getElem? found)
  exact printable.outside unreachable

end Program

end Timbre
