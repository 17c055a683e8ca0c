import Timbre.Proofs.ParserCompleteness
import Timbre.Proofs.Relocation

/-!
# What was read is read again

A success does not depend on the places of the tokens, nor on what comes after
them as long as an expression stops there, nor on the bounds of loops and nesting.
If a parser reads a value from tokens, it reads the value from the same tokens at
other places, in front of other tokens, with the lines of these places in it.

So a bound on the nesting of expressions makes no difference once it is as large
as the number of tokens, and statements can be read one list after another.
-/

namespace Timbre.Parser

open Grammar

variable {α : Type} {moved : Relocation} {later : List Located} {bound : Nat}

/-- What the first parser reads from at most `bound` tokens, the second one reads
from the moved tokens in front of others; what it reads is the image of what the
first one read. -/
def Carries (moved : Relocation) (later : List Located) (bound : Nat) (image : α → α)
    (first second : Parser α) : Prop :=
  ∀ ⦃tokens value rest⦄, tokens.length ≤ bound → first tokens = .ok value rest →
    second (moved.tokens tokens ++ later) = .ok (image value) (moved.tokens rest ++ later)

/-- Every success takes a token. -/
def Advances (parser : Parser α) : Prop :=
  ∀ ⦃tokens value rest⦄, parser tokens = .ok value rest → rest.length < tokens.length

/-- A parser whose language has no empty list takes a token. -/
theorem Yields.advances {parser : Parser α} {language : List Located → α → Prop}
    (yields : parser.Yields language) (nonempty : ∀ used value, language used value → used ≠ []) :
    parser.Advances := by
  intro tokens value rest succeeded
  obtain ⟨used, rfl, member⟩ := yields succeeded
  have taken : 0 < used.length := List.length_pos_iff.mpr (nonempty used value member)
  rw [List.length_append]
  omega

/-! ### Loops -/

/-- A repetition is carried over with its steps. Where the first one has used up
its tokens the second one has to decline in front of the others. The bounds on
the rounds may differ: both suffice, because a step that goes on takes a token. -/
theorem repeatWithin_carries {image : α → α} {first second : α → Parser (Option α)}
    (steps : ∀ value, Carries moved later bound (Option.map image) (first value)
      (second (image value)))
    (advances : ∀ value tokens next rest, first value tokens = .ok (some next) rest →
      rest.length < tokens.length)
    (declined : ∀ value tokens rest, first value tokens = .ok none rest → tokens = rest)
    (stopped : ∀ value, second value later = .ok none later)
    (rounds others : Nat) {value result : α} {tokens rest : List Located}
    (short : tokens.length ≤ bound) (enough : tokens.length ≤ rounds)
    (sufficient : tokens.length ≤ others)
    (succeeded : repeatWithin first rounds value tokens = .ok result rest) :
    repeatWithin second others (image value) (moved.tokens tokens ++ later) =
      .ok (image result) (moved.tokens rest ++ later) := by
  -- With no token of its own left, the second repetition ends at once.
  have finished : ∀ others value, repeatWithin second others value later = .ok value later := by
    intro others value
    cases others with
    | zero => rfl
    | succ others => exact bind_eq_ok.mpr ⟨none, later, stopped value, rfl⟩
  induction rounds generalizing value tokens others with
  | zero =>
    have empty : tokens = [] := List.eq_nil_of_length_eq_zero (by omega)
    obtain ⟨rfl, rfl⟩ := pure_eq_ok.mp succeeded
    subst empty
    exact finished others (image value)
  | succ rounds inductionHypothesis =>
    obtain ⟨found, middle, stepped, after⟩ := bind_eq_ok.mp succeeded
    have carried := steps value short stepped
    cases found with
    | none =>
      obtain ⟨rfl, rfl⟩ := pure_eq_ok.mp after
      have same := declined value tokens middle stepped
      subst same
      cases others with
      | zero => rfl
      | succ others => exact bind_eq_ok.mpr ⟨none, _, carried, rfl⟩
    | some next =>
      have fewer := advances value tokens next middle stepped
      obtain ⟨others, rfl⟩ : ∃ less, others = less + 1 := ⟨others - 1, by omega⟩
      refine bind_eq_ok.mpr ⟨some (image next), _, carried, ?_⟩
      exact inductionHypothesis others (by omega) (by omega) (by omega) after

/-- Lists between commas are carried over with their items. -/
theorem separatedWithin_carries {image : α → α} {first second : Parser α} {closing : Token}
    (items : Carries moved later bound image first second) (advances : first.Advances)
    (different : closing ≠ .mark .comma) (rounds others : Nat) {tokens rest : List Located}
    {values : List α} (short : tokens.length ≤ bound) (enough : tokens.length ≤ rounds)
    (sufficient : tokens.length ≤ others)
    (succeeded : separatedWithin first closing rounds tokens = .ok values rest) :
    separatedWithin second closing others (moved.tokens tokens ++ later) =
      .ok (values.map image) (moved.tokens rest ++ later) := by
  induction rounds generalizing tokens values others with
  | zero =>
    obtain ⟨item, middle, taken, -⟩ := bind_eq_ok.mp succeeded
    have progress := advances taken
    omega
  | succ rounds inductionHypothesis =>
    obtain ⟨item, middle, taken, after⟩ := bind_eq_ok.mp succeeded
    obtain ⟨another, following, decided, finished⟩ := bind_eq_ok.mp after
    have progress := advances taken
    obtain ⟨others, rfl⟩ : ∃ less, others = less + 1 := ⟨others - 1, by omega⟩
    refine bind_eq_ok.mpr ⟨image item, _, items short taken, ?_⟩
    obtain ⟨p, rfl⟩ := (continues_eq_ok different).mp decided
    refine bind_eq_ok.mpr ⟨another, moved.tokens following ++ later,
      (continues_eq_ok different).mpr ⟨moved.place p, rfl⟩, ?_⟩
    cases another with
    | false =>
      obtain ⟨rfl, rfl⟩ := pure_eq_ok.mp finished
      rfl
    | true =>
      obtain ⟨more, final, remaining, ended⟩ := bind_eq_ok.mp finished
      obtain ⟨rfl, rfl⟩ := pure_eq_ok.mp ended
      rw [List.length_cons] at progress
      have recurred :=
        inductionHypothesis others (by omega) (by omega) (by omega) remaining
      exact bind_eq_ok.mpr ⟨more.map image, _, recurred, rfl⟩

/-! ### Atoms -/

section Atoms

variable {inner outer : Parser Term}
  (carries : Carries moved later bound (Term.onLines moved.line) inner outer)
  (yields : inner.Yields (Derives (.term .expression)))

include carries

/-- A definition is carried over if its body is. -/
theorem definition_carries :
    Carries moved later bound (DefinitionOf.onLines moved.line) (definition inner)
      (definition outer) := by
  intro tokens found rest short succeeded
  obtain ⟨p, q, middle, rfl, line, taken⟩ := definition_eq_ok.mp succeeded
  simp only [List.length_cons] at short
  refine definition_eq_ok.mpr ⟨moved.place p, moved.place q, moved.tokens middle ++ later, rfl, ?_,
    carries (by omega) taken⟩
  simp only [DefinitionOf.onLines, line, moved.line_place]

/-- A clause is carried over if its result is. -/
theorem clause_carries :
    Carries moved later bound (ClauseOf.onLines moved.line) (clause inner) (clause outer) := by
  intro tokens found rest short succeeded
  obtain ⟨p, q, middle, taken, line, form⟩ := clause_eq_ok.mp succeeded
  have remaining : middle.length ≤ bound := by
    obtain ⟨value, rfl, -⟩ | ⟨rfl, -⟩ := form <;> simp only [List.length_cons] at short <;> omega
  refine clause_eq_ok.mpr ⟨moved.place p, moved.place q, moved.tokens middle ++ later,
    carries remaining taken, by simp only [ClauseOf.onLines, line, moved.line_place], ?_⟩
  obtain ⟨value, rfl, pattern⟩ | ⟨rfl, pattern⟩ := form
  · refine .inl ⟨value, rfl, ?_⟩
    simp only [ClauseOf.onLines, pattern, moved.line_place, Option.map_some, Term.onLines]
  · exact .inr ⟨rfl, by simp only [ClauseOf.onLines, pattern, Option.map_none]⟩

/-- A parenthesized term is carried over. -/
theorem parenthesized_carries :
    Carries moved later bound (Term.onLines moved.line) (parenthesized inner)
      (parenthesized outer) := by
  intro tokens term rest short succeeded
  obtain ⟨p, taken⟩ := parenthesized_eq_ok.mp succeeded
  exact parenthesized_eq_ok.mpr ⟨moved.place p, carries short taken⟩

/-- A lambda is carried over, and its line with it. -/
theorem lambda_carries (line : Nat) :
    Carries moved later bound (Term.onLines moved.line) (lambda inner line)
      (lambda outer (moved.line line)) := by
  intro tokens term rest short succeeded
  obtain ⟨parameter, body, p, q, middle, rfl, rfl, taken⟩ := lambda_eq_ok.mp succeeded
  simp only [List.length_cons] at short
  exact lambda_eq_ok.mpr ⟨parameter, _, moved.place p, moved.place q, moved.tokens middle ++ later,
    rfl, rfl, carries (by omega) taken⟩

include yields

/-- A conditional is carried over, and its line with it. -/
theorem conditional_carries (line : Nat) :
    Carries moved later bound (Term.onLines moved.line) (conditional inner line)
      (conditional outer (moved.line line)) := by
  intro tokens term rest short succeeded
  obtain ⟨condition, consequent, alternative, p, q, r, first, second, rfl, decided, positive,
    negative⟩ := conditional_eq_ok.mp succeeded
  have advances := yields.advances fun _ _ derived => derived.nonempty
  have tested := advances decided
  have chosen := advances positive
  simp only [List.length_cons] at tested chosen
  exact conditional_eq_ok.mpr ⟨_, _, _, moved.place p, moved.place q, moved.place r, _, _, rfl,
    carries short decided, carries (by omega) positive, carries (by omega) negative⟩

/-- A selection is carried over, and its line with it. -/
theorem selection_carries (line : Nat) :
    Carries moved later bound (Term.onLines moved.line) (selection inner line)
      (selection outer (moved.line line)) := by
  intro tokens term rest short succeeded
  obtain ⟨scrutinee, clauses, p, middle, rfl, taken, listed⟩ := selection_eq_ok.mp succeeded
  have examined := yields.advances (fun _ _ derived => derived.nonempty) taken
  simp only [List.length_cons] at examined
  refine selection_eq_ok.mpr ⟨_, clauses.map (ClauseOf.onLines moved.line), moved.place p,
    moved.tokens middle ++ later, ?_, carries short taken, ?_⟩
  · simp only [Term.onLines, clausesOnLines_eq_map]
  · exact separatedWithin_carries (clause_carries carries)
      ((clause_yields yields).advances fun _ _ derived => derived.nonempty) (by simp) _ _
      (by omega) (Nat.le_refl _) (by simp) listed

/-- A binding is carried over, and its line with it. -/
theorem binding_carries (line : Nat) :
    Carries moved later bound (Term.onLines moved.line) (binding inner line)
      (binding outer (moved.line line)) := by
  intro tokens term rest short succeeded
  obtain ⟨definitions, body, p, middle, rfl, listed, taken⟩ := binding_eq_ok.mp succeeded
  obtain ⟨used, q, rfl, -⟩ := separated_definitions yields listed
  simp only [List.length_append, List.length_cons] at short
  refine binding_eq_ok.mpr ⟨definitions.map (DefinitionOf.onLines moved.line), _, moved.place p,
    moved.tokens middle ++ later, ?_, ?_, carries (by omega) taken⟩
  · simp only [Term.onLines, definitionsOnLines_eq_map]
  · exact separatedWithin_carries (definition_carries carries)
      ((definition_yields yields).advances fun _ _ derived => derived.nonempty) (by simp) _ _
      (by simp; omega) (Nat.le_refl _) (by simp) listed

/-- An atom takes a token before it reads an inner expression. -/
theorem atom_carries :
    Carries moved later (bound + 1) (Term.onLines moved.line) (atom inner) (atom outer) := by
  intro tokens term rest short succeeded
  cases tokens with
  | nil => cases succeeded
  | cons found after =>
    obtain ⟨token, p⟩ := found
    rw [List.length_cons] at short
    have remaining : after.length ≤ bound := by omega
    have line := moved.line_place p
    simp only [Relocation.tokens_cons, List.cons_append, Relocation.locate, atom, line]
      at succeeded ⊢
    cases token with
    | number value =>
      cases succeeded
      rfl
    | identifier name =>
      cases succeeded
      rfl
    | builtin operator =>
      cases succeeded
      rfl
    | keyword word =>
      cases word with
      | caseWord => exact selection_carries carries yields p.line remaining succeeded
      | ifWord => exact conditional_carries carries yields p.line remaining succeeded
      | letWord => exact binding_carries carries yields p.line remaining succeeded
      | _ => cases succeeded
    | mark mark =>
      cases mark with
      | openParen => exact parenthesized_carries carries remaining succeeded
      | backslash => exact lambda_carries carries p.line remaining succeeded
      | _ => cases succeeded

end Atoms

/-! ### Lookahead -/

/-- The two tokens that decide whether a definition begins are there, or the
second one is not an equals sign. -/
theorem defines_moved (moved : Relocation) (unassigned : Unassigned later) (first : Located)
    (more : List Located) :
    startsDefinition (moved.tokens (first :: more) ++ later) = startsDefinition (first :: more) ∧
      redefinesReserved (moved.tokens (first :: more) ++ later) =
        redefinesReserved (first :: more) := by
  obtain ⟨token, p⟩ := first
  cases more with
  | nil =>
    have nothing : Unassigned [] := fun _ _ same => by cases same
    have alone := @Unassigned.defines_nothing ⟨token, p⟩ [] nothing
    have followed := @Unassigned.defines_nothing (moved.locate ⟨token, p⟩) later unassigned
    exact ⟨followed.1.trans alone.1.symm, followed.2.trans alone.2.symm⟩
  | cons second rest =>
    obtain ⟨other, q⟩ := second
    simp only [Relocation.tokens_cons, List.cons_append, Relocation.locate]
    cases other with
    | mark mark => cases mark <;> cases token <;> exact ⟨rfl, rfl⟩
    | _ => cases token <;> exact ⟨rfl, rfl⟩

/-! ### Applications and levels -/

section Levels

variable (stops : Stops later)

include stops

/-- An argument is carried over, also where there is none. -/
theorem argument_carries {inner outer : Parser Term}
    (carries : Carries moved later bound (Term.onLines moved.line) inner outer)
    (yields : inner.Yields (Derives (.term .expression))) (function : Term) :
    Carries moved later (bound + 1) (Option.map (Term.onLines moved.line))
      (argument inner function) (argument outer (function.onLines moved.line)) := by
  intro tokens found rest short succeeded
  cases found with
  | some term =>
    obtain ⟨next, more, value, rfl, starts, undefined, taken, rfl⟩ := argument_eq_some.mp succeeded
    refine argument_eq_some.mpr ⟨moved.locate next, moved.tokens more ++ later, _, rfl, starts, ?_,
      atom_carries carries yields short taken, ?_⟩
    · rw [(defines_moved moved stops.unassigned next more).1, undefined]
    · simp only [Term.onLines, Relocation.locate, moved.line_place]
  | none =>
    obtain ⟨rfl, declined⟩ := argument_eq_none.mp succeeded
    refine argument_eq_none.mpr ⟨rfl, fun next more same starts => ?_⟩
    cases tokens with
    | nil => exact (stops next more same).2.2 starts
    | cons first others =>
      rw [(defines_moved moved stops.unassigned first others).1]
      cases same
      exact declined first others rfl starts

/-- An application is carried over. -/
theorem application_carries {inner outer : Parser Term}
    (carries : Carries moved later bound (Term.onLines moved.line) inner outer)
    (yields : inner.Yields (Derives (.term .expression))) :
    Carries moved later (bound + 1) (Term.onLines moved.line) (application inner)
      (application outer) := by
  intro tokens term rest short succeeded
  obtain ⟨function, middle, taken, repeated⟩ := bind_eq_ok.mp succeeded
  have atoms := (atom_yields yields).advances fun _ _ derived => derived.nonempty
  have progress := atoms taken
  refine bind_eq_ok.mpr ⟨_, _, atom_carries carries yields short taken, ?_⟩
  refine repeatWithin_carries (argument_carries stops carries yields) ?_ ?_ ?_ middle.length _
    (by omega) (Nat.le_refl _) (by simp) repeated
  · intro value tokens next rest stepped
    obtain ⟨start, more, operand, rfl, -, -, parsed, -⟩ := argument_eq_some.mp stepped
    exact atoms parsed
  · intro value tokens rest stepped
    exact (argument_eq_none.mp stepped).1
  · intro value
    exact argument_eq_none.mpr ⟨rfl, fun next more same => (stops next more same).2.2⟩

/-- A sign and an operand are carried over, also where there is no sign of the level. -/
theorem operand_carries (accepts : BinaryBuiltin → Bool) {first second : Parser Term}
    (carries : Carries moved later bound (Term.onLines moved.line) first second) (left : Term) :
    Carries moved later bound (Option.map (Term.onLines moved.line)) (operand accepts first left)
      (operand accepts second (left.onLines moved.line)) := by
  intro tokens found rest short succeeded
  cases found with
  | some term =>
    obtain ⟨sign, more, operator, right, rfl, known, accepted, parsed, rfl⟩ :=
      operand_eq_some.mp succeeded
    rw [List.length_cons] at short
    refine operand_eq_some.mpr ⟨moved.locate sign, moved.tokens more ++ later, operator, _, rfl,
      known, accepted, carries (by omega) parsed, ?_⟩
    simp only [Term.infixed, Term.onLines, Relocation.locate, moved.line_place]
  | none =>
    obtain ⟨rfl, declined⟩ := operand_eq_none.mp succeeded
    refine operand_eq_none.mpr ⟨rfl, fun sign more same operator known => ?_⟩
    cases tokens with
    | nil =>
      rw [(stops sign more same).2.1] at known
      cases known
    | cons first others =>
      cases same
      exact declined first others rfl operator known

/-- Operands joined by a level are carried over if each of them is. -/
theorem level_carries (accepts : BinaryBuiltin → Bool) {first second : Parser Term}
    (carries : Carries moved later bound (Term.onLines moved.line) first second)
    (advances : first.Advances) :
    Carries moved later bound (Term.onLines moved.line) (level accepts first)
      (level accepts second) := by
  intro tokens term rest short succeeded
  obtain ⟨left, middle, taken, repeated⟩ := bind_eq_ok.mp succeeded
  have progress := advances taken
  refine bind_eq_ok.mpr ⟨_, _, carries short taken, ?_⟩
  refine repeatWithin_carries (operand_carries stops accepts carries) ?_ ?_ ?_ middle.length _
    (by omega) (Nat.le_refl _) (by simp) repeated
  · intro left tokens next rest stepped
    obtain ⟨sign, more, operator, right, rfl, -, -, parsed, -⟩ := operand_eq_some.mp stepped
    have shorter := advances parsed
    rw [List.length_cons]
    omega
  · intro left tokens rest stepped
    exact (operand_eq_none.mp stepped).1
  · intro left
    refine operand_eq_none.mpr ⟨rfl, fun sign more same operator known => ?_⟩
    rw [(stops sign more same).2.1] at known
    cases known

/-- A comparison is carried over. -/
theorem comparison_carries {inner outer : Parser Term}
    (carries : Carries moved later bound (Term.onLines moved.line) inner outer)
    (yields : inner.Yields (Derives (.term .expression))) :
    Carries moved later (bound + 1) (Term.onLines moved.line) (comparison inner)
      (comparison outer) := by
  have operands := application_yields yields
  have products : (multiplicative inner).Yields (Derives (.term (.operands .multiplicative))) :=
    level_yields .multiplicative operands
  have sums : (additive inner).Yields (Derives (.term (.operands .additive))) :=
    level_yields .additive products
  have factors := level_carries stops BinaryBuiltin.isMultiplicative
    (application_carries stops carries yields)
    (operands.advances fun _ _ derived => derived.nonempty)
  have summands := level_carries stops BinaryBuiltin.isAdditive factors
    (products.advances fun _ _ derived => derived.nonempty)
  exact level_carries stops BinaryBuiltin.isComparison summands
    (sums.advances fun _ _ derived => derived.nonempty)

/-- Every bound on the nesting that is as large as the number of tokens reads what
any other bound reads: induction on the bound of the first parser. -/
theorem expressionWithin_carries (depth bound : Nat) :
    Carries moved later bound (Term.onLines moved.line) (expressionWithin depth)
      (expressionWithin bound) := by
  induction depth generalizing bound with
  | zero =>
    intro tokens term rest short succeeded
    cases succeeded
  | succ depth inductionHypothesis =>
    cases bound with
    | zero =>
      intro tokens term rest short succeeded
      have progress := (expressionWithin_yields (depth + 1)).advances
        (fun _ _ derived => derived.nonempty) succeeded
      omega
    | succ bound =>
      exact comparison_carries stops (inductionHypothesis bound) (expressionWithin_yields depth)

/-- An expression of any length is carried over. -/
theorem expression_carries (bound : Nat) :
    Carries moved later bound (Term.onLines moved.line) expression expression := by
  intro tokens term rest _ succeeded
  have enough : tokens.length ≤ (moved.tokens tokens ++ later).length := by simp
  exact expressionWithin_carries stops tokens.length _ enough succeeded

end Levels

/-- An expression is what the loosest level reads over inner expressions: the
bound on the nesting is out of sight. -/
theorem expression_of_comparison {tokens rest : List Located} {term : Term}
    (succeeded : comparison expression tokens = .ok term rest) :
    expression tokens = .ok term rest := by
  have progress := (comparison_yields expression_yields).advances
    (fun _ _ derived => derived.nonempty) succeeded
  obtain ⟨fewer, count⟩ : ∃ fewer, tokens.length = fewer + 1 := ⟨tokens.length - 1, by omega⟩
  have inner : Carries .still [] fewer (Term.onLines Relocation.still.line) expression
      (expressionWithin fewer) :=
    fun tokens _ _ short taken => expressionWithin_carries stops_nil tokens.length fewer short taken
  have carried := comparison_carries stops_nil inner expression_yields
    (Nat.le_of_eq count) succeeded
  simp only [Relocation.tokens_still, List.append_nil] at carried
  rw [expression, count]
  exact carried.trans (congrArg (Reply.ok · rest) term.onLines_id)

/-! ### Statements -/

/-- An expression stops in front of a definition. -/
theorem stops_definition (starts : startsDefinition later = true) : Stops later := by
  unfold startsDefinition at starts
  split at starts
  · intro next more same
    cases same
    exact ⟨by simp, rfl, fun _ => rfl⟩
  · cases starts

/-- A statement is carried over in front of a place where an expression stops. -/
theorem statement_carries (stops : Stops later) (bound : Nat) :
    Carries moved later bound (Statement.onLines moved.line) statement statement := by
  intro tokens found rest short succeeded
  cases tokens with
  | nil =>
    have progress := statement_yields.advances (fun _ _ derived => derived.nonempty) succeeded
    simp at progress
  | cons first more =>
    obtain ⟨defined, redefined⟩ := defines_moved moved stops.unassigned first more
    unfold statement at succeeded ⊢
    rw [defined, redefined]
    split at succeeded
    · rename_i defines
      obtain ⟨definition, middle, taken, finished⟩ := bind_eq_ok.mp succeeded
      obtain ⟨rfl, rfl⟩ := pure_eq_ok.mp finished
      rw [if_pos defines]
      exact bind_eq_ok.mpr
        ⟨_, _, definition_carries (expression_carries stops bound) short taken, rfl⟩
    · rename_i expresses
      obtain ⟨term, middle, taken, finished⟩ := bind_eq_ok.mp succeeded
      obtain ⟨rfl, rfl⟩ := pure_eq_ok.mp finished
      rw [if_neg expresses]
      refine bind_eq_ok.mpr ⟨_, _, expression_carries stops bound short taken, ?_⟩
      exact congrArg (fun line => Reply.ok (Statement.expression (term.onLines moved.line) line) _)
        (moved.line_place first.position)

/-- A comma is taken or not, whatever definition comes later. -/
theorem optionalComma_carries (begins : later = [] ∨ startsDefinition later = true)
    {tokens rest : List Located} (succeeded : optionalComma tokens = .ok () rest) :
    optionalComma (moved.tokens tokens ++ later) = .ok () (moved.tokens rest ++ later) := by
  cases tokens with
  | nil =>
    cases succeeded
    obtain rfl | starts := begins
    · rfl
    · unfold startsDefinition at starts
      split at starts
      · rfl
      · cases starts
  | cons first more =>
    obtain ⟨token, p⟩ := first
    cases token with
    | mark mark => cases mark <;> cases succeeded <;> rfl
    | _ =>
      cases succeeded
      rfl

/-- Statements are read again in front of others that begin with a definition:
induction on the bound, one statement and its comma at a time. -/
theorem statementsWithin_carries (moved : Relocation)
    (begins : later = [] ∨ startsDefinition later = true) {following : List Statement}
    (remaining : ∀ rounds, later.length ≤ rounds →
      statementsWithin rounds later = .ok following [])
    (rounds others : Nat) {tokens rest : List Located} {found : List Statement}
    (enough : tokens.length ≤ rounds) (sufficient : tokens.length + later.length ≤ others)
    (succeeded : statementsWithin rounds tokens = .ok found rest) :
    statementsWithin others (moved.tokens tokens ++ later) =
      .ok (found.map (Statement.onLines moved.line) ++ following) [] := by
  have stops : Stops later := by
    obtain rfl | starts := begins
    · exact stops_nil
    · exact stops_definition starts
  induction rounds generalizing tokens found others with
  | zero =>
    have empty : tokens = [] := List.eq_nil_of_length_eq_zero (by omega)
    subst empty
    cases succeeded
    exact remaining others (by omega)
  | succ rounds inductionHypothesis =>
    cases tokens with
    | nil =>
      cases succeeded
      exact remaining others (by omega)
    | cons start more =>
      obtain ⟨first, middle, taken, after⟩ := bind_eq_ok.mp succeeded
      obtain ⟨⟨⟩, next, passed, after⟩ := bind_eq_ok.mp after
      obtain ⟨statements, final, parsed, finished⟩ := bind_eq_ok.mp after
      obtain ⟨rfl, rfl⟩ := pure_eq_ok.mp finished
      have progress := statement_yields.advances (fun _ _ derived => derived.nonempty) taken
      have shorter : next.length ≤ middle.length := by
        obtain ⟨comma, rfl, -⟩ := optionalComma_yields passed
        simp
      obtain ⟨others, rfl⟩ : ∃ less, others = less + 1 := ⟨others - 1, by simp at sufficient; omega⟩
      rw [List.length_cons] at enough sufficient progress
      have recurred := inductionHypothesis others (by omega) (by omega) parsed
      refine bind_eq_ok.mpr ⟨_, _, statement_carries stops _ (Nat.le_refl _) taken, ?_⟩
      refine bind_eq_ok.mpr ⟨(), _, optionalComma_carries begins passed, ?_⟩
      exact bind_eq_ok.mpr ⟨_, [], recurred, rfl⟩

/-- From no tokens no statements are read. -/
theorem statementsWithin_nil (rounds : Nat) : statementsWithin rounds [] = .ok [] [] := by
  cases rounds <;> rfl

/-- Statements at other places. -/
theorem statements_moved (moved : Relocation) {tokens rest : List Located}
    {found : List Statement} (succeeded : statements tokens = .ok found rest) :
    statements (moved.tokens tokens) = .ok (found.map (Statement.onLines moved.line)) [] := by
  have carried := statementsWithin_carries moved (.inl rfl)
    (fun rounds _ => statementsWithin_nil rounds) tokens.length tokens.length (Nat.le_refl _)
    (by simp) succeeded
  simpa [statements] using carried

/-- The bound on the number of statements makes no difference. -/
theorem statementsWithin_eq {tokens rest : List Located} {found : List Statement}
    (succeeded : statements tokens = .ok found rest) (rounds : Nat)
    (enough : tokens.length ≤ rounds) : statementsWithin rounds tokens = .ok found [] := by
  have carried := statementsWithin_carries .still (.inl rfl)
    (fun rounds _ => statementsWithin_nil rounds) tokens.length rounds (Nat.le_refl _)
    (by simpa using enough) succeeded
  simpa using carried

/-- Statements that begin with a definition can be appended to others. -/
theorem statements_append {tokens later rest last : List Located}
    {found following : List Statement} (begins : later = [] ∨ startsDefinition later = true)
    (succeeded : statements tokens = .ok found rest)
    (continued : statements later = .ok following last) :
    statements (tokens ++ later) = .ok (found ++ following) [] := by
  have carried := statementsWithin_carries .still begins
    (statementsWithin_eq continued) tokens.length (tokens ++ later).length (Nat.le_refl _)
    (by simp) succeeded
  simpa [statements] using carried

end Timbre.Parser
