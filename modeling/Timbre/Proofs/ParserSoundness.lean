import Timbre.Proofs.Grammar
import Timbre.Proofs.Parsing

/-!
# Parsers answer with derivations

A parser yields a language when every success comes with the tokens that it took:
they are the front of what it was given, and they belong to the language together
with the value that was answered. A loop yields what its rounds add up to, and the
loops that bound their rounds by the number of tokens lose nothing, because each
round takes a token.

Every parser of expressions yields the form of the grammar that it is named for,
provided the parser of inner expressions yields expressions. A success of the
statement parser therefore uses up its tokens, and the statements are those of a
derivation of exactly these tokens.
-/

namespace Timbre

namespace Grammar.Precedence

/-- The operators that the parser of a level joins its operands by. -/
def admits : Precedence → BinaryBuiltin → Bool
  | comparison => BinaryBuiltin.isComparison
  | additive => BinaryBuiltin.isAdditive
  | multiplicative => BinaryBuiltin.isMultiplicative

/-- A token for an operator of a level is one of its marks. -/
theorem sign_listed {level : Precedence} {token : Token} {operator : BinaryBuiltin}
    (known : token.operator = some operator) (admitted : level.admits operator = true) :
    ∃ sign, token = .mark sign ∧ (sign, operator) ∈ level.signs := by
  cases token with
  | mark sign =>
    refine ⟨sign, rfl, ?_⟩
    cases level <;> cases sign <;> cases known <;> first | decide | cases admitted
  | _ => cases known

end Grammar.Precedence

namespace Parser

open Grammar

variable {α : Type}

/-- On success the tokens taken are at the front and belong to a language. -/
def Yields (parser : Parser α) (language : List Located → α → Prop) : Prop :=
  ∀ ⦃tokens value rest⦄, parser tokens = .ok value rest →
    ∃ used, tokens = used ++ rest ∧ language used value

/-! ### Loops -/

/-- A repetition keeps what each of its steps keeps about the tokens taken so
far: induction on the bound, with the tokens taken before as the invariant. -/
theorem repeatWithin_yields {step : α → Parser (Option α)} {language : List Located → α → Prop}
    (continued : ∀ before value, language before value →
      ∀ tokens next rest, step value tokens = .ok (some next) rest →
        ∃ used, tokens = used ++ rest ∧ language (before ++ used) next)
    (declined : ∀ value tokens rest, step value tokens = .ok none rest → tokens = rest)
    (rounds : Nat) {before : List Located} {value : α} (started : language before value) :
    (repeatWithin step rounds value).Yields fun used => language (before ++ used) := by
  induction rounds generalizing before value with
  | zero =>
    intro tokens result rest succeeded
    obtain ⟨rfl, rfl⟩ := pure_eq_ok.mp succeeded
    exact ⟨[], rfl, by simpa using started⟩
  | succ rounds inductionHypothesis =>
    intro tokens result rest succeeded
    obtain ⟨found, middle, stepped, after⟩ := bind_eq_ok.mp succeeded
    cases found with
    | none =>
      obtain ⟨rfl, rfl⟩ := pure_eq_ok.mp after
      exact ⟨[], declined value tokens middle stepped, by simpa using started⟩
    | some next =>
      obtain ⟨used, rfl, extended⟩ := continued before value started tokens next middle stepped
      obtain ⟨more, rfl, member⟩ := inductionHypothesis extended after
      exact ⟨used ++ more, by simp, by simpa using member⟩

/-- The items of a list are read up to the token that closes it, if there are no
more tokens than rounds. -/
theorem separatedWithin_yields {item : Parser α} {language : List Located → α → Prop}
    {sequence : List Located → List α → Prop} {closing : Token} (yields : item.Yields language)
    (nonempty : ∀ used value, language used value → used ≠ [])
    (last : ∀ used value, language used value → sequence used [value])
    (more : ∀ before after p value others, language before value → sequence after others →
      sequence (before ++ ⟨.mark .comma, p⟩ :: after) (value :: others))
    (different : closing ≠ .mark .comma) (rounds : Nat) {tokens rest : List Located}
    {values : List α} (enough : tokens.length ≤ rounds)
    (succeeded : separatedWithin item closing rounds tokens = .ok values rest) :
    ∃ used p, tokens = used ++ ⟨closing, p⟩ :: rest ∧ sequence used values := by
  induction rounds generalizing tokens values with
  | zero =>
    obtain ⟨first, middle, taken, -⟩ := bind_eq_ok.mp succeeded
    obtain ⟨used, split, member⟩ := yields taken
    have empty : used = [] := by simp_all
    exact absurd empty (nonempty used first member)
  | succ rounds inductionHypothesis =>
    obtain ⟨first, middle, taken, after⟩ := bind_eq_ok.mp succeeded
    obtain ⟨used, rfl, member⟩ := yields taken
    obtain ⟨another, following, decided, finished⟩ := bind_eq_ok.mp after
    obtain ⟨p, rfl⟩ := (continues_eq_ok different).mp decided
    cases another with
    | false =>
      obtain ⟨rfl, rfl⟩ := pure_eq_ok.mp finished
      exact ⟨used, p, rfl, last used first member⟩
    | true =>
      obtain ⟨others, final, remaining, ended⟩ := bind_eq_ok.mp finished
      obtain ⟨rfl, rfl⟩ := pure_eq_ok.mp ended
      have fewer : following.length ≤ rounds := by
        simp only [List.length_append, List.length_cons] at enough
        omega
      obtain ⟨further, q, rfl, members⟩ := inductionHypothesis fewer remaining
      exact ⟨used ++ ⟨.mark .comma, p⟩ :: further, q, by simp,
        more used further p first others member members⟩

/-! ### Expressions -/

section Expressions

variable {inner : Parser Term} (yields : inner.Yields (Derives (.term .expression)))

include yields

/-- What is read as a definition is derived as one. -/
theorem definition_yields : (definition inner).Yields (Derives .definition) := by
  intro tokens found rest succeeded
  obtain ⟨foundName, body, line⟩ := found
  obtain ⟨p, q, middle, rfl, rfl, taken⟩ := definition_eq_ok.mp succeeded
  obtain ⟨used, rfl, derived⟩ := yields taken
  exact ⟨_ :: _ :: used, rfl, .named foundName p q derived⟩

/-- What is read as a clause is derived as one. -/
theorem clause_yields : (clause inner).Yields (Derives .clause) := by
  intro tokens found rest succeeded
  obtain ⟨foundPattern, result, line⟩ := found
  obtain ⟨p, q, middle, taken, rfl, form⟩ := clause_eq_ok.mp succeeded
  obtain ⟨used, rfl, derived⟩ := yields taken
  obtain ⟨value, rfl, rfl⟩ | ⟨rfl, rfl⟩ := form
  · exact ⟨_ :: _ :: used, rfl, .numbered value p q derived⟩
  · exact ⟨_ :: _ :: used, rfl, .wildcard p q derived⟩

/-- Clauses up to the word that ends them are derived, and that word is taken. -/
theorem separated_clauses {tokens rest : List Located} {clauses : List Clause}
    (succeeded : separated (clause inner) (.keyword .endWord) tokens = .ok clauses rest) :
    ∃ used p, tokens = used ++ ⟨.keyword .endWord, p⟩ :: rest ∧
      Derives .clauses used clauses := by
  refine separatedWithin_yields (clause_yields yields) ?_ ?_ ?_ (by decide) tokens.length
    (Nat.le_refl _) succeeded
  · intro used value derived
    exact derived.nonempty
  · intro used value derived
    exact .lastClause derived
  · intro before after p value others first others
    exact .moreClauses p first others

/-- Definitions up to the word before the body are derived, and that word is taken. -/
theorem separated_definitions {tokens rest : List Located} {definitions : List Definition}
    (succeeded :
      separated (definition inner) (.keyword .inWord) tokens = .ok definitions rest) :
    ∃ used p, tokens = used ++ ⟨.keyword .inWord, p⟩ :: rest ∧
      Derives .definitions used definitions := by
  refine separatedWithin_yields (definition_yields yields) ?_ ?_ ?_ (by decide) tokens.length
    (Nat.le_refl _) succeeded
  · intro used value derived
    exact derived.nonempty
  · intro used value derived
    exact .lastDefinition derived
  · intro before after p value others first others
    exact .moreDefinitions p first others

/-- A parenthesized term is derived together with the parenthesis that opened it. -/
theorem parenthesized_yields (p : Position) :
    (parenthesized inner).Yields
      fun used => Derives (.term .atom) (⟨.mark .openParen, p⟩ :: used) := by
  intro tokens term rest succeeded
  obtain ⟨q, taken⟩ := parenthesized_eq_ok.mp succeeded
  obtain ⟨used, rfl, derived⟩ := yields taken
  refine ⟨used ++ [⟨.mark .closeParen, q⟩], by simp, ?_⟩
  exact Derives.parenthesized p q derived

/-- A lambda is derived together with its backslash. -/
theorem lambda_yields (p : Position) :
    (lambda inner p.line).Yields
      fun used => Derives (.term .atom) (⟨.mark .backslash, p⟩ :: used) := by
  intro tokens term rest succeeded
  obtain ⟨parameter, body, q, r, middle, rfl, rfl, taken⟩ := lambda_eq_ok.mp succeeded
  obtain ⟨used, rfl, derived⟩ := yields taken
  exact ⟨_ :: _ :: used, rfl, .lambda parameter p q r derived⟩

/-- A selection is derived together with the word that opened it. -/
theorem selection_yields (p : Position) :
    (selection inner p.line).Yields
      fun used => Derives (.term .atom) (⟨.keyword .caseWord, p⟩ :: used) := by
  intro tokens term rest succeeded
  obtain ⟨scrutinee, clauses, q, middle, rfl, taken, listed⟩ := selection_eq_ok.mp succeeded
  obtain ⟨used, rfl, derived⟩ := yields taken
  obtain ⟨further, r, rfl, choices⟩ := separated_clauses yields listed
  refine ⟨used ++ ⟨.keyword .ofWord, q⟩ :: further ++ [⟨.keyword .endWord, r⟩], by simp, ?_⟩
  simpa using Derives.selection p q r derived choices

/-- A conditional is derived together with the word that opened it. -/
theorem conditional_yields (p : Position) :
    (conditional inner p.line).Yields
      fun used => Derives (.term .atom) (⟨.keyword .ifWord, p⟩ :: used) := by
  intro tokens term rest succeeded
  obtain ⟨condition, consequent, alternative, q, r, t, first, second, rfl, decided, positive,
    negative⟩ := conditional_eq_ok.mp succeeded
  obtain ⟨tested, rfl, decision⟩ := yields decided
  obtain ⟨chosen, rfl, consequence⟩ := yields positive
  obtain ⟨other, rfl, alternation⟩ := yields negative
  refine ⟨tested ++ ⟨.keyword .thenWord, q⟩ :: chosen ++ ⟨.keyword .elseWord, r⟩ :: other ++
    [⟨.keyword .endWord, t⟩], by simp, ?_⟩
  simpa using Derives.conditional p q r t decision consequence alternation

/-- A binding is derived together with the word that opened it. -/
theorem binding_yields (p : Position) :
    (binding inner p.line).Yields
      fun used => Derives (.term .atom) (⟨.keyword .letWord, p⟩ :: used) := by
  intro tokens term rest succeeded
  obtain ⟨definitions, body, r, middle, rfl, listed, taken⟩ := binding_eq_ok.mp succeeded
  obtain ⟨bound, q, rfl, members⟩ := separated_definitions yields listed
  obtain ⟨used, rfl, derived⟩ := yields taken
  refine ⟨bound ++ ⟨.keyword .inWord, q⟩ :: used ++ [⟨.keyword .endWord, r⟩], by simp, ?_⟩
  simpa using Derives.binding p q r members derived

/-- What is read as an atom is derived as one. -/
theorem atom_yields : (atom inner).Yields (Derives (.term .atom)) := by
  intro tokens term rest succeeded
  cases tokens with
  | nil => simp [atom] at succeeded
  | cons found after =>
    obtain ⟨token, p⟩ := found
    -- A form that goes on after its first token has the form's own lemma.
    have extended : ∀ {form : Parser Term},
        form.Yields (fun used => Derives (.term .atom) (⟨token, p⟩ :: used)) →
        form after = .ok term rest →
        ∃ used, ⟨token, p⟩ :: after = used ++ rest ∧ Derives (.term .atom) used term := by
      intro form formYields formSucceeded
      obtain ⟨used, rfl, derived⟩ := formYields formSucceeded
      exact ⟨_ :: used, rfl, derived⟩
    cases token with
    | number value =>
      cases succeeded
      exact ⟨[_], rfl, .number value p⟩
    | identifier name =>
      cases succeeded
      exact ⟨[_], rfl, .identifier name p⟩
    | builtin operator =>
      cases succeeded
      exact ⟨[_], rfl, .builtin operator p⟩
    | keyword word =>
      cases word with
      | caseWord => exact extended (selection_yields yields p) succeeded
      | ifWord => exact extended (conditional_yields yields p) succeeded
      | letWord => exact extended (binding_yields yields p) succeeded
      | _ => cases succeeded
    | mark mark =>
      cases mark with
      | openParen => exact extended (parenthesized_yields yields p) succeeded
      | backslash => exact extended (lambda_yields yields p) succeeded
      | _ => cases succeeded

/-- One more argument extends an application. -/
theorem argument_continues (before : List Located) (function : Term)
    (derived : Derives (.term .application) before function) (tokens : List Located) (next : Term)
    (rest : List Located) (stepped : argument inner function tokens = .ok (some next) rest) :
    ∃ used, tokens = used ++ rest ∧ Derives (.term .application) (before ++ used) next := by
  obtain ⟨start, more, operand, rfl, -, -, parsed, rfl⟩ := argument_eq_some.mp stepped
  obtain ⟨used, split, argued⟩ := atom_yields yields parsed
  obtain ⟨start, others, rfl⟩ := List.exists_cons_of_ne_nil argued.nonempty
  cases split
  exact ⟨_, rfl, .applied start derived argued⟩

/-- What is read as an application is derived as one; the induction is on the rounds. -/
theorem application_yields : (application inner).Yields (Derives (.term .application)) := by
  intro tokens term rest succeeded
  obtain ⟨function, middle, taken, repeated⟩ := bind_eq_ok.mp succeeded
  obtain ⟨before, rfl, first⟩ := atom_yields yields taken
  obtain ⟨used, rfl, derived⟩ := repeatWithin_yields (argument_continues yields)
    (fun _ _ _ stepped => (argument_eq_none.mp stepped).1) middle.length (.function first) repeated
  exact ⟨before ++ used, by simp, derived⟩

end Expressions

/-! ### Levels of operators -/

/-- A sign of a level and one more operand extend the operands of the level. -/
theorem operand_continues (level : Precedence) {next : Parser Term}
    (yields : next.Yields (Derives (.term level.operand))) (before : List Located) (left : Term)
    (derived : Derives (.term (.operands level)) before left) (tokens : List Located)
    (result : Term) (rest : List Located)
    (stepped : operand level.admits next left tokens = .ok (some result) rest) :
    ∃ used, tokens = used ++ rest ∧ Derives (.term (.operands level)) (before ++ used) result := by
  obtain ⟨⟨token, p⟩, more, operator, right, rfl, known, admitted, parsed, rfl⟩ :=
    operand_eq_some.mp stepped
  obtain ⟨sign, rfl, listed⟩ := Precedence.sign_listed known admitted
  obtain ⟨used, rfl, joined⟩ := yields parsed
  exact ⟨_ :: used, rfl, .joined p listed derived joined⟩

/-- Operands joined by a level are derived if each of them is. -/
theorem level_yields (level : Precedence) {next : Parser Term}
    (yields : next.Yields (Derives (.term level.operand))) :
    (Parser.level level.admits next).Yields (Derives (.term (.operands level))) := by
  intro tokens term rest succeeded
  obtain ⟨left, middle, taken, repeated⟩ := bind_eq_ok.mp succeeded
  obtain ⟨before, rfl, first⟩ := yields taken
  obtain ⟨used, rfl, derived⟩ := repeatWithin_yields (operand_continues level yields)
    (fun _ _ _ stepped => (operand_eq_none.mp stepped).1) middle.length (.operand first) repeated
  exact ⟨before ++ used, by simp, derived⟩

/-- A comparison is derived if the terms inside it are. -/
theorem comparison_yields {inner : Parser Term}
    (yields : inner.Yields (Derives (.term .expression))) :
    (comparison inner).Yields (Derives (.term .expression)) := by
  have products : (multiplicative inner).Yields (Derives (.term (.operands .multiplicative))) :=
    level_yields .multiplicative (application_yields yields)
  have sums : (additive inner).Yields (Derives (.term (.operands .additive))) :=
    level_yields .additive products
  exact level_yields .comparison sums

/-- Induction on the depth: the parser of inner expressions is the one for the
depth before. -/
theorem expressionWithin_yields (depth : Nat) :
    (expressionWithin depth).Yields (Derives (.term .expression)) := by
  induction depth with
  | zero =>
    intro tokens term rest succeeded
    cases succeeded
  | succ depth inductionHypothesis => exact comparison_yields inductionHypothesis

/-- What is read as an expression is derived as one. -/
theorem expression_yields : expression.Yields (Derives (.term .expression)) :=
  fun tokens _ _ succeeded => expressionWithin_yields tokens.length succeeded

/-! ### Statements -/

/-- What is read as a statement is derived as one. -/
theorem statement_yields : statement.Yields DerivesStatement := by
  intro tokens found rest succeeded
  unfold statement at succeeded
  split at succeeded
  · obtain ⟨definition, middle, taken, finished⟩ := bind_eq_ok.mp succeeded
    obtain ⟨rfl, rfl⟩ := pure_eq_ok.mp finished
    obtain ⟨used, rfl, derived⟩ := definition_yields expression_yields taken
    exact ⟨used, rfl, .definition derived⟩
  · obtain ⟨term, middle, taken, finished⟩ := bind_eq_ok.mp succeeded
    obtain ⟨rfl, rfl⟩ := pure_eq_ok.mp finished
    obtain ⟨used, rfl, derived⟩ := expression_yields taken
    obtain ⟨start, others, rfl⟩ := List.exists_cons_of_ne_nil derived.nonempty
    exact ⟨_, rfl, .expression start derived⟩

/-- An optional comma takes a comma or nothing. -/
theorem optionalComma_yields :
    optionalComma.Yields fun used _ => used = [] ∨ ∃ p, used = [⟨.mark .comma, p⟩] := by
  intro tokens value rest succeeded
  unfold optionalComma at succeeded
  split at succeeded
  · cases succeeded
    exact ⟨[_], rfl, .inr ⟨_, rfl⟩⟩
  · cases succeeded
    exact ⟨[], rfl, .inl rfl⟩

/-- The statements use up the tokens, if there are no more tokens than rounds. -/
theorem statementsWithin_derives {rounds : Nat} {tokens rest : List Located}
    {statements : List Statement} (enough : tokens.length ≤ rounds)
    (succeeded : statementsWithin rounds tokens = .ok statements rest) :
    rest = [] ∧ DerivesProgram tokens statements := by
  induction rounds generalizing tokens statements with
  | zero =>
    have empty : tokens = [] := List.eq_nil_of_length_eq_zero (by omega)
    obtain ⟨rfl, rfl⟩ := pure_eq_ok.mp succeeded
    exact ⟨empty, empty ▸ .empty⟩
  | succ rounds inductionHypothesis =>
    cases tokens with
    | nil =>
      cases succeeded
      exact ⟨rfl, .empty⟩
    | cons start after =>
      obtain ⟨first, middle, taken, remaining⟩ := bind_eq_ok.mp succeeded
      obtain ⟨⟨⟩, following, passed, remaining⟩ := bind_eq_ok.mp remaining
      obtain ⟨others, final, parsed, finished⟩ := bind_eq_ok.mp remaining
      obtain ⟨rfl, rfl⟩ := pure_eq_ok.mp finished
      obtain ⟨used, split, derived⟩ := statement_yields taken
      obtain ⟨comma, rfl, form⟩ := optionalComma_yields passed
      have fewer : following.length ≤ rounds := by
        have taken : 0 < used.length := List.length_pos_iff.mpr derived.nonempty
        rw [split] at enough
        simp only [List.length_append] at enough
        omega
      obtain ⟨rfl, program⟩ := inductionHypothesis fewer parsed
      refine ⟨rfl, ?_⟩
      rw [split]
      obtain rfl | ⟨p, rfl⟩ := form
      · exact .next derived program
      · exact .nextComma p derived program

/-- A success of the statement parser leaves no token, and its statements are
those of a derivation of all of them. -/
theorem statements_derives {tokens rest : List Located} {found : List Statement}
    (succeeded : statements tokens = .ok found rest) :
    rest = [] ∧ DerivesProgram tokens found :=
  statementsWithin_derives (Nat.le_refl _) succeeded

end Parser

end Timbre
