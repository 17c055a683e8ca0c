import Timbre.Proofs.Acceptance

/-!
# No error comes later than it must

A parser fails at a token that it cannot take, or at the end of the tokens. What it
has read up to there is always the beginning of something that it accepts, so no
earlier token could have been blamed.

A parser completes a language when each of its failures leaves the beginning of a
member of the language, with more to come. A parser in several steps inherits this
from its steps. Where the first step fails it is completed by itself, and what the
other steps add is any member of their languages. Where a later one fails, the
tokens that the earlier ones took are put in front. Only the smallest parsers have
to name a token that could have come.

The grammar does not look ahead, so no completion can upset what was decided before
it. The statement parser does look ahead, but it accepts every program of the
grammar all the same.
-/

namespace Timbre

open Grammar

/-- An error divides a list of tokens: those `before` were read, the next one is
what the error is about, and the `rest` is left. An error about the end of the
input comes after all tokens. -/
def SyntaxError.Divides (tokens before rest : List Located) : SyntaxError → Prop
  | unexpected found _ => tokens = before ++ found :: rest
  | reserved word position =>
      ∃ token, token.reservedWord = some word ∧ tokens = before ++ ⟨token, position⟩ :: rest
  | endOfInput _ => before = tokens ∧ rest = []

/-- What was read earlier is in front of the error as well. -/
theorem SyntaxError.Divides.behind {reason : SyntaxError} {tokens before rest : List Located}
    (divides : reason.Divides tokens before rest) (used : List Located) :
    reason.Divides (used ++ tokens) (used ++ before) rest := by
  cases reason with
  | unexpected found expected =>
    rw [SyntaxError.Divides] at divides ⊢
    rw [divides, List.append_assoc]
  | reserved word position =>
    obtain ⟨token, known, rfl⟩ := divides
    exact ⟨token, known, (List.append_assoc ..).symm⟩
  | endOfInput expected =>
    obtain ⟨rfl, rfl⟩ := divides
    exact ⟨rfl, rfl⟩

namespace Parser

variable {α β : Type} {bound : Nat} {language : List Located → Prop}

/-- Some list belongs to the language, and where the parser fails on at most
`bound` tokens, those before the failure begin a list that goes on from there. -/
structure Completes (parser : Parser α) (bound : Nat) (language : List Located → Prop) :
    Prop where
  possible : ∃ tokens, language tokens
  interrupted : ∀ ⦃tokens reason rest⦄, tokens.length ≤ bound →
    parser tokens = .error reason rest → ∃ before completion,
      reason.Divides tokens before rest ∧ completion ≠ [] ∧ language (before ++ completion)

/-- What the parser takes belongs to the language, and so does what it can no longer
take, once it is completed. -/
structure Follows (parser : Parser α) (bound : Nat) (language : List Located → α → Prop) :
    Prop where
  yields : parser.Yields language
  completes : parser.Completes bound fun used => ∃ value, language used value

/-! ### Steps -/

/-- What comes after the first step is completed by any member of the language that
is left, or by the completion of the step that failed. -/
theorem Follows.bind {first : Parser α} {next : α → Parser β}
    {front : List Located → α → Prop} (follows : first.Follows bound front)
    (continued : ∀ used value, front used value →
      (next value).Completes bound fun more => language (used ++ more)) :
    (first >>= next).Completes bound language where
  possible := by
    obtain ⟨used, value, member⟩ := follows.completes.possible
    obtain ⟨more, joined⟩ := (continued used value member).possible
    exact ⟨used ++ more, joined⟩
  interrupted := by
    intro tokens reason rest short failed
    obtain stopped | ⟨value, middle, taken, stopped⟩ := bind_eq_error.mp failed
    · obtain ⟨before, completion, divides, nonempty, value, member⟩ :=
        follows.completes.interrupted short stopped
      obtain ⟨more, joined⟩ := (continued _ value member).possible
      rw [List.append_assoc] at joined
      exact ⟨before, completion ++ more, divides, by simp [nonempty], joined⟩
    · obtain ⟨used, rfl, member⟩ := follows.yields taken
      rw [List.length_append] at short
      obtain ⟨before, completion, divides, nonempty, joined⟩ :=
        (continued used value member).interrupted (by omega) stopped
      rw [← List.append_assoc] at joined
      exact ⟨used ++ before, completion, divides.behind used, nonempty, joined⟩

/-- A step that cannot fail completes every language that has a member. -/
theorem completes_pure (possible : ∃ tokens, language tokens) (value : α) :
    (pure value : Parser α).Completes bound language where
  possible := possible
  interrupted := by
    intro tokens reason rest _ failed
    cases failed

/-- A parser that completes the lists of a language completes those of a wider one. -/
theorem Completes.mono {parser : Parser α} {wider : List Located → Prop}
    (completes : parser.Completes bound language)
    (included : ∀ tokens, language tokens → wider tokens) : parser.Completes bound wider where
  possible := completes.possible.imp included
  interrupted := by
    intro tokens reason rest short failed
    obtain ⟨before, completion, divides, nonempty, member⟩ := completes.interrupted short failed
    exact ⟨before, completion, divides, nonempty, included _ member⟩

/-- What is done with the value makes no difference to the tokens. -/
theorem Completes.answer {parser : Parser α} (completes : parser.Completes bound language)
    (change : α → β) : (parser >>= fun value => pure (change value)).Completes bound language where
  possible := completes.possible
  interrupted := by
    intro tokens reason rest short failed
    obtain stopped | ⟨value, middle, -, stopped⟩ := bind_eq_error.mp failed
    · exact completes.interrupted short stopped
    · cases stopped

/-! ### Single tokens -/

/-- A parser that only fails at its first token completes every language that has a
member with a token in it. -/
theorem completes_first {parser : Parser α} {completion : List Located}
    (member : language completion) (nonempty : completion ≠ [])
    (fails : ∀ tokens reason rest, parser tokens = .error reason rest →
      reason.Divides tokens [] rest) : parser.Completes bound language where
  possible := ⟨completion, member⟩
  interrupted := by
    intro tokens reason rest _ failed
    exact ⟨[], completion, fails tokens reason rest failed, nonempty, member⟩

/-- An expected token is followed. -/
theorem expect_follows (token : Token) :
    (expect token).Follows bound fun used _ => ∃ p, used = [⟨token, p⟩] where
  yields := by
    intro tokens value rest succeeded
    obtain ⟨p, rfl⟩ := expect_eq_ok.mp succeeded
    exact ⟨[_], rfl, p, rfl⟩
  completes := by
    refine completes_first ⟨(), Position.start, rfl⟩ (by simp) ?_
    intro tokens reason rest failed
    unfold expect at failed
    split at failed
    · cases failed
      exact ⟨rfl, rfl⟩
    · split at failed
      · cases failed
      · cases failed
        rfl

/-- A name is followed. -/
theorem name_follows :
    name.Follows bound fun used found =>
      ∃ p, used = [⟨.identifier found.1, p⟩] ∧ found.2 = p.line where
  yields := by
    intro tokens found rest succeeded
    obtain ⟨p, rfl, line⟩ := name_eq_ok.mp succeeded
    exact ⟨[_], rfl, p, rfl, line⟩
  completes := by
    refine completes_first ⟨("x", _), Position.start, rfl, rfl⟩ (by simp) ?_
    intro tokens reason rest failed
    unfold name at failed
    split at failed
    · cases failed
      exact ⟨rfl, rfl⟩
    · split at failed
      · cases failed
      · rename_i known _
        cases failed
        exact ⟨_, known, rfl⟩
      · cases failed
        rfl

/-- A pattern is followed: a numeral or the wildcard, with its line. -/
theorem pattern_follows :
    pattern.Follows bound fun used found =>
      (∃ value p, used = [⟨.number value, p⟩] ∧
        found = (some (.number value p.line), p.line)) ∨
      ∃ p, used = [⟨.mark .underscore, p⟩] ∧ found = (none, p.line) where
  yields := by
    intro tokens found rest succeeded
    obtain ⟨value, p, rfl, same⟩ | ⟨p, rfl, same⟩ := pattern_eq_ok.mp succeeded
    · exact ⟨[_], rfl, .inl ⟨value, p, rfl, same⟩⟩
    · exact ⟨[_], rfl, .inr ⟨p, rfl, same⟩⟩
  completes := by
    refine completes_first ⟨_, .inr ⟨Position.start, rfl, rfl⟩⟩ (by simp) ?_
    intro tokens reason rest failed
    unfold pattern at failed
    split at failed
    · cases failed
      exact ⟨rfl, rfl⟩
    · dsimp only at failed
      split at failed
      · cases failed
      · cases failed
      · cases failed
        rfl

/-- What comes between items is followed: a comma, or the token that closes the list. -/
theorem continues_follows {closing : Token} (different : closing ≠ .mark .comma) :
    (continues closing).Follows bound fun used another =>
      ∃ p, used = [⟨if another then .mark .comma else closing, p⟩] where
  yields := by
    intro tokens another rest succeeded
    obtain ⟨p, rfl⟩ := (continues_eq_ok different).mp succeeded
    exact ⟨[_], rfl, p, rfl⟩
  completes := by
    refine completes_first ⟨false, Position.start, rfl⟩ (by simp) ?_
    intro tokens reason rest failed
    unfold continues at failed
    split at failed
    · cases failed
      exact ⟨rfl, rfl⟩
    · split at failed
      · cases failed
      · split at failed
        · cases failed
        · cases failed
          rfl

/-! ### Loops -/

/-- The number of tokens may bound the rounds of a loop. -/
theorem completes_within {loop : Nat → Parser α}
    (completes : ∀ rounds, (loop rounds).Completes bound language) :
    Completes (fun tokens => loop tokens.length tokens) bound language where
  possible := (completes 0).possible
  interrupted := fun tokens _ _ short failed => (completes tokens.length).interrupted short failed

/-- A repetition completes what its steps complete behind the tokens that were
taken before: induction on the bound, with these tokens as the invariant. -/
theorem repeatWithin_completes {step : α → Parser (Option α)}
    {language : List Located → α → Prop}
    (continued : ∀ before value, language before value →
      ∀ tokens next rest, step value tokens = .ok (some next) rest →
        ∃ used, tokens = used ++ rest ∧ language (before ++ used) next)
    (declined : ∀ value tokens rest, step value tokens = .ok none rest → tokens = rest)
    (completes : ∀ before value, language before value →
      (step value).Completes bound fun used => ∃ next, language (before ++ used) next)
    (rounds : Nat) {before : List Located} {value : α} (started : language before value) :
    (repeatWithin step rounds value).Completes bound
      fun used => ∃ result, language (before ++ used) result := by
  induction rounds generalizing before value with
  | zero => exact completes_pure ⟨[], value, by simpa using started⟩ value
  | succ rounds inductionHypothesis =>
    have follows : (step value).Follows bound fun used found =>
        found.elim (used = []) (language (before ++ used)) := by
      constructor
      · intro tokens found rest stepped
        cases found with
        | none => exact ⟨[], declined value tokens rest stepped, rfl⟩
        | some next => exact continued before value started tokens next rest stepped
      · apply (completes before value started).mono
        rintro used ⟨next, member⟩
        exact ⟨some next, member⟩
    refine follows.bind ?_
    rintro used (_ | next) member
    · obtain rfl := member
      exact completes_pure ⟨[], value, by simpa using started⟩ value
    · simpa using inductionHypothesis member

/-- Items are completed by themselves, and a list of them by the token that closes
it. -/
theorem separatedWithin_completes {item : Parser α} {entry : List Located → α → Prop}
    {sequence : List Located → List α → Prop} {closing : Token}
    (follows : item.Follows bound entry)
    (last : ∀ used value, entry used value → sequence used [value])
    (more : ∀ before after p value others, entry before value → sequence after others →
      sequence (before ++ ⟨.mark .comma, p⟩ :: after) (value :: others))
    (different : closing ≠ .mark .comma) (rounds : Nat) :
    (separatedWithin item closing rounds).Completes bound fun used =>
      ∃ values listed p, used = listed ++ [⟨closing, p⟩] ∧ sequence listed values := by
  induction rounds with
  | zero =>
    refine follows.bind fun used value member => ?_
    exact completes_pure ⟨[⟨closing, Position.start⟩], [value], used, Position.start, rfl,
      last used value member⟩ [value]
  | succ rounds inductionHypothesis =>
    refine follows.bind fun used value member => ?_
    refine (continues_follows different).bind ?_
    rintro _ (_ | _) ⟨p, rfl⟩
    · exact completes_pure ⟨[], [value], used, p, rfl, last used value member⟩ [value]
    · refine (inductionHypothesis.mono ?_).answer (value :: ·)
      rintro _ ⟨others, listed, q, rfl, members⟩
      exact ⟨value :: others, used ++ ⟨.mark .comma, p⟩ :: listed, q, by simp,
        more used listed p value others member members⟩

/-! ### Forms of expressions -/

section Expressions

variable {inner : Parser Term} (follows : inner.Follows bound (Derives (.term .expression)))

include follows

/-- A definition is followed if its body is. -/
theorem definition_follows : (definition inner).Follows bound (Derives .definition) where
  yields := definition_yields follows.yields
  completes := by
    refine name_follows.bind ?_
    rintro _ ⟨name, line⟩ ⟨p, rfl, -⟩
    refine (expect_follows _).bind ?_
    rintro _ _ ⟨q, rfl⟩
    refine (follows.completes.mono ?_).answer _
    rintro used ⟨body, derived⟩
    exact ⟨_, .named name p q derived⟩

/-- A clause is followed if its result is. -/
theorem clause_follows : (clause inner).Follows bound (Derives .clause) where
  yields := clause_yields follows.yields
  completes := by
    refine pattern_follows.bind ?_
    rintro _ ⟨pattern, line⟩ choice
    refine (expect_follows _).bind ?_
    rintro _ _ ⟨q, rfl⟩
    refine (follows.completes.mono ?_).answer _
    rintro used ⟨result, derived⟩
    obtain ⟨value, p, rfl, -⟩ | ⟨p, rfl, -⟩ := choice
    · exact ⟨_, .numbered value p q derived⟩
    · exact ⟨_, .wildcard p q derived⟩

/-- The clauses of a selection, with the word that closes them. -/
theorem separated_clauses_follows :
    (separated (clause inner) (.keyword .endWord)).Follows bound fun used clauses =>
      ∃ listed p, used = listed ++ [⟨.keyword .endWord, p⟩] ∧ Derives .clauses listed clauses where
  yields := by
    intro tokens clauses rest succeeded
    obtain ⟨listed, p, rfl, derived⟩ := separated_clauses follows.yields succeeded
    exact ⟨listed ++ [_], by simp, listed, p, rfl, derived⟩
  completes := completes_within <| separatedWithin_completes (clause_follows follows)
    (fun _ _ derived => .lastClause derived)
    (fun _ _ p _ _ first others => .moreClauses p first others) (by decide)

/-- The definitions of a binding, with the word that closes them. -/
theorem separated_definitions_follows :
    (separated (definition inner) (.keyword .inWord)).Follows bound fun used definitions =>
      ∃ listed p, used = listed ++ [⟨.keyword .inWord, p⟩] ∧
        Derives .definitions listed definitions where
  yields := by
    intro tokens definitions rest succeeded
    obtain ⟨listed, p, rfl, derived⟩ := separated_definitions follows.yields succeeded
    exact ⟨listed ++ [_], by simp, listed, p, rfl, derived⟩
  completes := completes_within <| separatedWithin_completes (definition_follows follows)
    (fun _ _ derived => .lastDefinition derived)
    (fun _ _ p _ _ first others => .moreDefinitions p first others) (by decide)

/-- The rest of a parenthesized term can be completed. -/
theorem parenthesized_completes (p : Position) :
    (parenthesized inner).Completes bound
      fun used => ∃ term, Derives (.term .atom) (⟨.mark .openParen, p⟩ :: used) term := by
  refine follows.bind fun used term derived => ?_
  refine (expect_follows _).bind ?_
  rintro _ _ ⟨q, rfl⟩
  exact completes_pure ⟨[], _, .parenthesized p q derived⟩ term

/-- The rest of a lambda can be completed. -/
theorem lambda_completes (p : Position) :
    (lambda inner p.line).Completes bound
      fun used => ∃ term, Derives (.term .atom) (⟨.mark .backslash, p⟩ :: used) term := by
  refine name_follows.bind ?_
  rintro _ ⟨parameter, line⟩ ⟨q, rfl, -⟩
  refine (expect_follows _).bind ?_
  rintro _ _ ⟨r, rfl⟩
  refine (follows.completes.mono ?_).answer _
  rintro used ⟨body, derived⟩
  exact ⟨_, .lambda parameter p q r derived⟩

/-- The rest of a conditional can be completed. -/
theorem conditional_completes (p : Position) :
    (conditional inner p.line).Completes bound
      fun used => ∃ term, Derives (.term .atom) (⟨.keyword .ifWord, p⟩ :: used) term := by
  refine follows.bind fun tested condition decision => ?_
  refine (expect_follows _).bind ?_
  rintro _ _ ⟨q, rfl⟩
  refine follows.bind fun chosen consequent positive => ?_
  refine (expect_follows _).bind ?_
  rintro _ _ ⟨r, rfl⟩
  refine follows.bind fun other alternative negative => ?_
  refine (expect_follows _).bind ?_
  rintro _ _ ⟨s, rfl⟩
  exact completes_pure
    ⟨[], _, by simpa using Derives.conditional p q r s decision positive negative⟩ _

/-- The rest of a selection can be completed. -/
theorem selection_completes (p : Position) :
    (selection inner p.line).Completes bound
      fun used => ∃ term, Derives (.term .atom) (⟨.keyword .caseWord, p⟩ :: used) term := by
  refine follows.bind fun used scrutinee derived => ?_
  refine (expect_follows _).bind ?_
  rintro _ _ ⟨q, rfl⟩
  refine ((separated_clauses_follows follows).completes.mono ?_).answer _
  rintro _ ⟨clauses, listed, r, rfl, choices⟩
  exact ⟨_, by simpa using Derives.selection p q r derived choices⟩

/-- The rest of a binding can be completed. -/
theorem binding_completes (p : Position) :
    (binding inner p.line).Completes bound
      fun used => ∃ term, Derives (.term .atom) (⟨.keyword .letWord, p⟩ :: used) term := by
  refine (separated_definitions_follows follows).bind ?_
  rintro _ definitions ⟨listed, q, rfl, bound⟩
  refine follows.bind fun used body derived => ?_
  refine (expect_follows _).bind ?_
  rintro _ _ ⟨r, rfl⟩
  exact completes_pure ⟨[], _, by simpa using Derives.binding p q r bound derived⟩ _

/-- An atom is completed by a number where it has not begun, and otherwise as the
form that its first token begins. -/
theorem atom_follows : (atom inner).Follows (bound + 1) (Derives (.term .atom)) where
  yields := atom_yields follows.yields
  completes := by
    have zero : Derives (.term .atom) [⟨.number 0, Position.start⟩] _ := .number 0 Position.start
    refine ⟨⟨_, _, zero⟩, ?_⟩
    intro tokens reason rest short failed
    cases tokens with
    | nil =>
      cases failed
      exact ⟨[], _, ⟨rfl, rfl⟩, by simp, _, zero⟩
    | cons found after =>
      obtain ⟨token, p⟩ := found
      rw [List.length_cons] at short
      -- A form that goes on after its first token has the form's own lemma.
      have extended : ∀ {form : Parser Term},
          form.Completes bound (fun used =>
            ∃ term, Derives (.term .atom) (⟨token, p⟩ :: used) term) →
          form after = .error reason rest →
          ∃ before completion, reason.Divides (⟨token, p⟩ :: after) before rest ∧
            completion ≠ [] ∧ ∃ term, Derives (.term .atom) (before ++ completion) term := by
        intro form formCompletes formFailed
        obtain ⟨before, completion, divides, nonempty, term, derived⟩ :=
          formCompletes.interrupted (by omega) formFailed
        exact ⟨_ :: before, completion, divides.behind [_], nonempty, term, derived⟩
      cases token with
      | keyword word =>
        cases word with
        | caseWord => exact extended (selection_completes follows p) failed
        | ifWord => exact extended (conditional_completes follows p) failed
        | letWord => exact extended (binding_completes follows p) failed
        | _ =>
          cases failed
          exact ⟨[], _, rfl, by simp, _, zero⟩
      | mark mark =>
        cases mark with
        | openParen => exact extended (parenthesized_completes follows p) failed
        | backslash => exact extended (lambda_completes follows p) failed
        | _ =>
          cases failed
          exact ⟨[], _, rfl, by simp, _, zero⟩
      | _ => cases failed

/-- Behind an application an argument can be completed to a longer one. -/
theorem argument_completes (before : List Located) (function : Term)
    (derived : Derives (.term .application) before function) :
    (argument inner function).Completes (bound + 1)
      fun used => ∃ next, Derives (.term .application) (before ++ used) next where
  possible := ⟨[], function, by simpa using derived⟩
  interrupted := by
    intro tokens reason rest short failed
    obtain ⟨taken, completion, divides, nonempty, argument, argued⟩ :=
      (atom_follows follows).completes.interrupted short (argument_eq_error failed)
    obtain ⟨start, others, same⟩ := List.exists_cons_of_ne_nil argued.nonempty
    refine ⟨taken, completion, divides, nonempty, ?_⟩
    rw [same] at argued ⊢
    exact ⟨_, .applied start derived argued⟩

/-- An application is followed, one token further than the terms inside it. -/
theorem application_follows :
    (application inner).Follows (bound + 1) (Derives (.term .application)) where
  yields := application_yields follows.yields
  completes := by
    refine (atom_follows follows).bind fun before function first => ?_
    exact completes_within fun rounds => repeatWithin_completes
      (argument_continues follows.yields) (fun _ _ _ stepped => (argument_eq_none.mp stepped).1)
      (argument_completes follows) rounds (.function first)

end Expressions

/-! ### Levels of operators -/

/-- Behind operands that are joined, a sign and another operand can be completed. -/
theorem operand_completes (level : Precedence) {next : Parser Term}
    (follows : next.Follows bound (Derives (.term level.operand))) (before : List Located)
    (left : Term) (derived : Derives (.term (.operands level)) before left) :
    (operand level.admits next left).Completes bound
      fun used => ∃ result, Derives (.term (.operands level)) (before ++ used) result where
  possible := ⟨[], left, by simpa using derived⟩
  interrupted := by
    intro tokens reason rest short failed
    obtain ⟨⟨token, p⟩, more, operator, rfl, known, admitted, stopped⟩ := operand_eq_error failed
    rw [List.length_cons] at short
    obtain ⟨sign, rfl, listed⟩ := Precedence.sign_listed known admitted
    obtain ⟨taken, completion, divides, nonempty, right, joined⟩ :=
      follows.completes.interrupted (by omega) stopped
    exact ⟨_ :: taken, completion, divides.behind [_], nonempty, _, .joined p listed derived joined⟩

/-- Operands joined by the operators of a level are followed if each of them is. -/
theorem level_follows (level : Precedence) {next : Parser Term}
    (follows : next.Follows bound (Derives (.term level.operand))) :
    (Parser.level level.admits next).Follows bound (Derives (.term (.operands level))) where
  yields := level_yields level follows.yields
  completes := by
    refine follows.bind fun before left first => ?_
    exact completes_within fun rounds => repeatWithin_completes
      (operand_continues level follows.yields)
      (fun _ _ _ stepped => (operand_eq_none.mp stepped).1) (operand_completes level follows) rounds
      (.operand first)

/-- An expression is followed, one token further than the terms inside it. -/
theorem comparison_follows {inner : Parser Term}
    (follows : inner.Follows bound (Derives (.term .expression))) :
    (comparison inner).Follows (bound + 1) (Derives (.term .expression)) := by
  have products : (multiplicative inner).Follows (bound + 1)
      (Derives (.term (.operands .multiplicative))) :=
    level_follows .multiplicative (application_follows follows)
  have sums : (additive inner).Follows (bound + 1) (Derives (.term (.operands .additive))) :=
    level_follows .additive products
  exact level_follows .comparison sums

/-- Induction on the depth. At depth zero no token is left, so the failure is at
the end of the tokens as it says. -/
theorem expressionWithin_follows (depth : Nat) :
    (expressionWithin depth).Follows depth (Derives (.term .expression)) := by
  induction depth with
  | zero =>
    have zero : Derives (.term .expression) [⟨.number 0, Position.start⟩] _ :=
      .operand (.operand (.operand (.function (.number 0 Position.start))))
    refine ⟨expressionWithin_yields 0, ⟨_, _, zero⟩, ?_⟩
    intro tokens reason rest short failed
    obtain rfl := List.eq_nil_of_length_eq_zero (Nat.le_zero.mp short)
    cases failed
    exact ⟨[], _, ⟨rfl, rfl⟩, by simp, _, zero⟩
  | succ depth inductionHypothesis => exact comparison_follows inductionHypothesis

/-- An expression is followed to any length: each nesting takes a token, so the
induction is on the bound. -/
theorem expression_follows : expression.Follows bound (Derives (.term .expression)) where
  yields := expression_yields
  completes :=
    { possible := (expressionWithin_follows 0).completes.possible
      interrupted := fun tokens _ _ _ failed =>
        (expressionWithin_follows tokens.length).completes.interrupted (Nat.le_refl _) failed }

/-! ### Statements -/

/-- The look ahead decides between two parsers of statements. Either way a failure
leaves the beginning of a statement. -/
theorem statement_follows : statement.Follows bound DerivesStatement where
  yields := statement_yields
  completes := by
    have defined : (definition expression).Completes bound
        fun used => ∃ statement, DerivesStatement used statement := by
      refine (definition_follows expression_follows).completes.mono ?_
      rintro used ⟨definition, derived⟩
      exact ⟨_, .definition derived⟩
    have stated : expression.Completes bound
        fun used => ∃ statement, DerivesStatement used statement := by
      refine expression_follows.completes.mono ?_
      rintro used ⟨term, derived⟩
      obtain ⟨start, others, rfl⟩ := List.exists_cons_of_ne_nil derived.nonempty
      exact ⟨_, .expression start derived⟩
    refine ⟨defined.possible, ?_⟩
    intro tokens reason rest short failed
    unfold statement at failed
    split at failed
    · exact (defined.answer Statement.definition).interrupted short failed
    · exact (stated.answer (Statement.expression · _)).interrupted short failed

/-- An optional comma is followed. -/
theorem optionalComma_follows :
    optionalComma.Follows bound fun used _ => used = [] ∨ ∃ p, used = [⟨.mark .comma, p⟩] where
  yields := optionalComma_yields
  completes := by
    refine ⟨⟨[], (), .inl rfl⟩, ?_⟩
    intro tokens reason rest _ failed
    unfold optionalComma at failed
    split at failed <;> cases failed

/-- Induction on the bound: a failure is in the first statement, which begins a
program, or behind it. -/
theorem statementsWithin_completes (rounds : Nat) :
    (statementsWithin rounds).Completes bound
      fun used => ∃ statements, DerivesProgram used statements := by
  induction rounds with
  | zero => exact completes_pure ⟨[], [], .empty⟩ []
  | succ rounds inductionHypothesis =>
    have round : Completes (do
        let first ← statement
        optionalComma
        let others ← statementsWithin rounds
        return first :: others) bound fun used => ∃ statements, DerivesProgram used statements := by
      refine statement_follows.bind fun used statement derived => ?_
      refine optionalComma_follows.bind ?_
      rintro comma _ form
      refine (inductionHypothesis.mono ?_).answer (statement :: ·)
      rintro more ⟨others, program⟩
      obtain rfl | ⟨p, rfl⟩ := form
      · exact ⟨_, .next derived program⟩
      · exact ⟨_, .nextComma p derived program⟩
    refine ⟨round.possible, ?_⟩
    intro tokens reason rest short failed
    cases tokens with
    | nil => cases failed
    | cons start after => exact round.interrupted short failed

end Parser

/-- What the grammar derives as a program is accepted as one. -/
theorem Program.ofTokens_of_derives {tokens : List Located} {statements : List Statement}
    (derived : DerivesProgram tokens statements) :
    ∃ program, Program.ofTokens tokens = .ok program := by
  obtain ⟨found, accepted⟩ := Parser.statementsWithin_accepts (Nat.le_refl _) derived
  refine ⟨.ofStatements found, ?_⟩
  unfold Program.ofTokens Parser.statements
  rw [accepted]

/-- The tokens before an error begin a program. If the error is about a token, which
stands in front of what the parser has left, then the tokens before that one can be
continued to a program. If it is about the end of the input, then all tokens can be,
by at least one more. -/
theorem Parser.statements_error_viable (tokens rest : List Located) (reason : SyntaxError)
    (failed : Parser.statements tokens = .error reason rest) :
    (∀ found expected, reason = .unexpected found expected →
      ∃ index, tokens[index]? = some found ∧ rest = tokens.drop (index + 1) ∧
        ∃ continuation program,
          Program.ofTokens (tokens.take index ++ continuation) = .ok program) ∧
    (∀ word position, reason = .reserved word position →
      ∃ index token, tokens[index]? = some ⟨token, position⟩ ∧ token.reservedWord = some word ∧
        rest = tokens.drop (index + 1) ∧
          ∃ continuation program,
            Program.ofTokens (tokens.take index ++ continuation) = .ok program) ∧
    (∀ expected, reason = .endOfInput expected →
      ∃ continuation program, continuation ≠ [] ∧
        Program.ofTokens (tokens ++ continuation) = .ok program) := by
  have completes : (Parser.statementsWithin tokens.length).Completes tokens.length _ :=
    Parser.statementsWithin_completes tokens.length
  obtain ⟨before, completion, divides, nonempty, statements, derived⟩ :=
    completes.interrupted (Nat.le_refl _) failed
  obtain ⟨program, accepted⟩ := Program.ofTokens_of_derives derived
  refine ⟨?_, ?_, ?_⟩
  · rintro found expected rfl
    obtain rfl : tokens = before ++ found :: rest := divides
    exact ⟨before.length, by simp, by simp, completion, program, by simpa using accepted⟩
  · rintro word position rfl
    obtain ⟨token, known, rfl⟩ := divides
    exact ⟨before.length, token, by simp, known, by simp, completion, program,
      by simpa using accepted⟩
  · rintro expected rfl
    obtain ⟨rfl, -⟩ := divides
    exact ⟨completion, program, nonempty, accepted⟩

/-- A reserved word in place of a bound name, and a selection that ends in front of
its first pattern. -/
theorem Parser.statements_error_viable_binding :
    let first := [⟨.identifier "a", ⟨1, 1⟩⟩, ⟨.keyword .letWord, ⟨1, 3⟩⟩]
    let second := [⟨.keyword .caseWord, ⟨1, 1⟩⟩, ⟨.identifier "a", ⟨1, 6⟩⟩,
      ⟨.keyword .ofWord, ⟨1, 8⟩⟩]
    Parser.statements (first ++ [⟨.keyword .inWord, ⟨1, 7⟩⟩, ⟨.mark .assign, ⟨1, 10⟩⟩]) =
        .error (.reserved "in" ⟨1, 7⟩) [⟨.mark .assign, ⟨1, 10⟩⟩] ∧
      Parser.statements second = .error (.endOfInput .pattern) [] ∧
      (∃ continuation program, Program.ofTokens (first ++ continuation) = .ok program) ∧
      ∃ continuation program, continuation ≠ [] ∧
        Program.ofTokens (second ++ continuation) = .ok program := by
  intro first second
  have reserved : Parser.statements
      (first ++ [⟨.keyword .inWord, ⟨1, 7⟩⟩, ⟨.mark .assign, ⟨1, 10⟩⟩]) =
        .error (.reserved "in" ⟨1, 7⟩) [⟨.mark .assign, ⟨1, 10⟩⟩] := rfl
  have ended : Parser.statements second = .error (.endOfInput .pattern) [] := rfl
  refine ⟨reserved, ended, ?_, ?_⟩
  · obtain ⟨index, token, -, -, left, viable⟩ :=
      (Parser.statements_error_viable _ _ _ reserved).2.1 _ _ rfl
    have counted : 1 = 4 - (index + 1) := congrArg List.length left |>.trans (List.length_drop ..)
    obtain rfl : index = 2 := by omega
    exact viable
  · exact (Parser.statements_error_viable _ _ _ ended).2.2 _ rfl

end Timbre
