import Mathlib.Logic.Function.Iterate
import Timbre.Proofs.ParserProgress

/-!
# Parsing ends

The bounds on nesting and on loops are never what ends a parser.

An expression reads inner expressions only after it has taken a token. So two parsers of
inner expressions that agree on fewer than `bound` tokens give expressions that agree on
`bound` tokens too. By induction the nesting of the levels within themselves, deeper than
there are tokens, reads expressions, whatever stands at the bottom of it.

Each loop is described round by round, without a bound. A round that goes on takes a token,
so there are no more rounds than tokens; items between commas may have one more, which
fails for want of tokens.
-/

namespace Timbre

/-- Change the value of a success. -/
def Reply.map {α β : Type} (change : α → β) : Reply α → Reply β
  | ok value rest => ok (change value) rest
  | error reason rest => error reason rest

namespace Parser

variable {α β : Type} {bound : Nat}

/-- After a success a sequence goes on with what was found. -/
theorem bind_of_ok {first : Parser α} {next : α → Parser β} {tokens middle : List Located}
    {found : α} (taken : first tokens = .ok found middle) :
    (first >>= next) tokens = next found middle := by
  change andThen first next tokens = _
  rw [andThen, taken]

/-- A sequence fails where its first part does. -/
theorem bind_of_error {first : Parser α} {next : α → Parser β} {tokens rest : List Located}
    {reason : SyntaxError} (failed : first tokens = .error reason rest) :
    (first >>= next) tokens = .error reason rest :=
  bind_eq_error.mpr (.inl failed)

/-- What is done with the value makes no difference to the tokens. -/
theorem answer_eq_map (parser : Parser α) (change : α → β) (tokens : List Located) :
    (parser >>= fun value => pure (change value)) tokens = (parser tokens).map change := by
  change andThen parser _ tokens = _
  unfold andThen
  cases parser tokens with
  | ok value rest => rfl
  | error reason rest => rfl

/-! ### Nesting -/

/-- The parsers answer alike on fewer than `bound` tokens. -/
def AgreeBelow (bound : Nat) (first second : Parser α) : Prop :=
  ∀ tokens, tokens.length < bound → first tokens = second tokens

namespace AgreeBelow

/-- A parser agrees with itself. -/
theorem refl (bound : Nat) (parser : Parser α) : AgreeBelow bound parser parser :=
  fun _ _ => rfl

/-- Sequences agree if their parts do: the second part has no more tokens than the
first. -/
theorem bind {first second : Parser α} {next continued : α → Parser β}
    (agree : AgreeBelow bound first second) (leaves : first.LeavesSuffix)
    (later : ∀ value, AgreeBelow bound (next value) (continued value)) :
    AgreeBelow bound (first >>= next) (second >>= continued) := by
  intro tokens short
  have left := (leaves tokens).length_le
  change andThen first next tokens = andThen second continued tokens
  unfold andThen
  rw [← agree tokens short]
  cases outcome : first tokens with
  | error reason rest => rfl
  | ok value rest =>
    rw [outcome] at left
    exact later value rest (Nat.lt_of_le_of_lt left short)

/-- A first step that is the same. -/
theorem after {first : Parser α} {next continued : α → Parser β} (leaves : first.LeavesSuffix)
    (later : ∀ value, AgreeBelow bound (next value) (continued value)) :
    AgreeBelow bound (first >>= next) (first >>= continued) :=
  (refl bound first).bind leaves later

/-- Parsers that agree still do when what they find is changed in the same way. -/
theorem answer {first second : Parser α} (agree : AgreeBelow bound first second)
    (leaves : first.LeavesSuffix) (change : α → Parser β) :
    AgreeBelow bound (first >>= change) (second >>= change) :=
  agree.bind leaves fun value => refl bound (change value)

end AgreeBelow

/-- Rounds of steps that agree do so too. -/
theorem repeatWithin_agree {first second : α → Parser (Option α)}
    (agree : ∀ value, AgreeBelow bound (first value) (second value))
    (leaves : ∀ value, (first value).LeavesSuffix) (rounds : Nat) (value : α) :
    AgreeBelow bound (repeatWithin first rounds value) (repeatWithin second rounds value) := by
  induction rounds generalizing value with
  | zero => exact .refl bound _
  | succ rounds inductionHypothesis =>
    apply (agree value).bind (leaves value)
    intro found
    cases found with
    | none => exact .refl bound _
    | some next => exact inductionHypothesis next

/-- Repetitions of steps that agree do so too. -/
theorem repeatStep_agree {first second : α → Parser (Option α)}
    (agree : ∀ value, AgreeBelow bound (first value) (second value))
    (leaves : ∀ value, (first value).LeavesSuffix) (value : α) :
    AgreeBelow bound (repeatStep first value) (repeatStep second value) :=
  fun tokens => repeatWithin_agree agree leaves tokens.length value tokens

/-- Items within a number of rounds agree if each of them does. -/
theorem separatedWithin_agree {first second : Parser α} (agree : AgreeBelow bound first second)
    (consumes : first.Consumes) (closing : Token) (rounds : Nat) :
    AgreeBelow bound (separatedWithin first closing rounds)
      (separatedWithin second closing rounds) := by
  induction rounds with
  | zero => exact agree.answer consumes.suffix _
  | succ rounds inductionHypothesis =>
    apply agree.bind consumes.suffix
    intro item
    apply AgreeBelow.after (continues_consumes closing).suffix
    intro another
    cases another with
    | false => exact .refl bound _
    | true =>
      exact inductionHypothesis.answer (separatedWithin_consumes consumes closing rounds).suffix _

/-- Items between commas agree if each of them does. -/
theorem separated_agree {first second : Parser α} (agree : AgreeBelow bound first second)
    (consumes : first.Consumes) (closing : Token) :
    AgreeBelow bound (separated first closing) (separated second closing) :=
  fun tokens => separatedWithin_agree agree consumes closing tokens.length tokens

section Forms

variable {inner outer : Parser Term} (agree : AgreeBelow bound inner outer)
  (leaves : inner.LeavesSuffix)

include agree leaves

/-- Definitions agree if their bodies do. -/
theorem definition_agree : AgreeBelow bound (definition inner) (definition outer) := by
  apply AgreeBelow.after name_consumes.suffix
  rintro ⟨found, line⟩
  apply AgreeBelow.after (expect_consumes (.mark .assign)).suffix
  intro _
  exact agree.answer leaves _

/-- Clauses agree if their results do. -/
theorem clause_agree : AgreeBelow bound (clause inner) (clause outer) := by
  apply AgreeBelow.after pattern_consumes.suffix
  rintro ⟨found, line⟩
  apply AgreeBelow.after (expect_consumes (.mark .arrow)).suffix
  intro _
  exact agree.answer leaves _

/-- Parenthesized terms agree if the terms inside do. -/
theorem parenthesized_agree : AgreeBelow bound (parenthesized inner) (parenthesized outer) :=
  agree.answer leaves _

/-- Lambdas agree if their bodies do. -/
theorem lambda_agree (line : Nat) : AgreeBelow bound (lambda inner line) (lambda outer line) := by
  apply AgreeBelow.after name_consumes.suffix
  rintro ⟨parameter, _⟩
  apply AgreeBelow.after (expect_consumes (.mark .dot)).suffix
  intro _
  exact agree.answer leaves _

/-- Conditionals agree if their parts do. -/
theorem conditional_agree (line : Nat) :
    AgreeBelow bound (conditional inner line) (conditional outer line) := by
  apply agree.bind leaves
  intro condition
  apply AgreeBelow.after (expect_consumes (.keyword .thenWord)).suffix
  intro _
  apply agree.bind leaves
  intro consequent
  apply AgreeBelow.after (expect_consumes (.keyword .elseWord)).suffix
  intro _
  exact agree.answer leaves _

/-- Selections agree if the terms inside do. -/
theorem selection_agree (line : Nat) :
    AgreeBelow bound (selection inner line) (selection outer line) := by
  have clauses := separated_agree (clause_agree agree leaves) (clause_consumes leaves)
    (.keyword .endWord)
  apply agree.bind leaves
  intro scrutinee
  apply AgreeBelow.after (expect_consumes (.keyword .ofWord)).suffix
  intro _
  exact clauses.answer (separated_consumes (clause_consumes leaves) _).suffix _

/-- Bindings agree if the terms inside do. -/
theorem binding_agree (line : Nat) :
    AgreeBelow bound (binding inner line) (binding outer line) := by
  have definitions := separated_agree (definition_agree agree leaves)
    (definition_consumes leaves) (.keyword .inWord)
  apply definitions.bind (separated_consumes (definition_consumes leaves) _).suffix
  intro found
  exact agree.answer leaves _

/-- An atom takes a token before it reads an inner expression, so it agrees on one more. -/
theorem atom_agree : AgreeBelow (bound + 1) (atom inner) (atom outer) := by
  intro tokens short
  cases tokens with
  | nil => rfl
  | cons found rest =>
    have fewer : rest.length < bound := Nat.lt_of_succ_lt_succ short
    simp only [atom]
    split
    · rfl
    · rfl
    · rfl
    · exact parenthesized_agree agree leaves rest fewer
    · exact lambda_agree agree leaves found.position.line rest fewer
    · exact selection_agree agree leaves found.position.line rest fewer
    · exact conditional_agree agree leaves found.position.line rest fewer
    · exact binding_agree agree leaves found.position.line rest fewer
    · rfl

/-- Arguments agree on one token more, since an atom takes a token before any term
inside it. -/
theorem argument_agree (function : Term) :
    AgreeBelow (bound + 1) (argument inner function) (argument outer function) := by
  intro tokens short
  cases tokens with
  | nil => rfl
  | cons next rest =>
    simp only [argument]
    split
    · exact (atom_agree agree leaves).answer (atom_consumes leaves).suffix _ (next :: rest) short
    · rfl

/-- Applications agree on one token more. -/
theorem application_agree : AgreeBelow (bound + 1) (application inner) (application outer) :=
  (atom_agree agree leaves).bind (atom_consumes leaves).suffix
    (repeatStep_agree (argument_agree agree leaves) (argument_leaves leaves))

end Forms

section Levels

variable {accepts : BinaryBuiltin → Bool} {first second : Parser Term}
  (agree : AgreeBelow bound first second) (leaves : first.LeavesSuffix)

include agree leaves

/-- Further operands agree if each operand does. -/
theorem operand_agree (left : Term) :
    AgreeBelow bound (operand accepts first left) (operand accepts second left) := by
  intro tokens short
  cases tokens with
  | nil => rfl
  | cons found rest =>
    simp only [operand]
    split
    · exact agree.answer leaves _ rest (Nat.lt_of_succ_lt short)
    · rfl

/-- Operands joined by a level agree if each of them does. -/
theorem level_agree : AgreeBelow bound (level accepts first) (level accepts second) :=
  agree.bind leaves (repeatStep_agree (operand_agree agree leaves) (operand_leaves leaves))

end Levels

/-- Comparisons agree on one token more than the terms inside them. -/
theorem comparison_agree {inner outer : Parser Term} (agree : AgreeBelow bound inner outer)
    (leaves : inner.LeavesSuffix) :
    AgreeBelow (bound + 1) (comparison inner) (comparison outer) := by
  have applied := application_agree agree leaves
  have multiplied : AgreeBelow (bound + 1) (multiplicative inner) (multiplicative outer) :=
    level_agree applied (application_consumes leaves).suffix
  have added : AgreeBelow (bound + 1) (additive inner) (additive outer) :=
    level_agree multiplied (multiplicative_consumes leaves).suffix
  exact level_agree added (additive_consumes leaves).suffix

/-- Nesting deeper than there are tokens is not told from nesting to a bound. -/
theorem nested_agree (bottom : Parser Term) (depth : Nat) :
    AgreeBelow (depth + 1) (expressionWithin depth) (comparison^[depth + 1] bottom) := by
  induction depth with
  | zero =>
    intro tokens short
    obtain rfl : tokens = [] := List.eq_nil_of_length_eq_zero (Nat.lt_one_iff.mp short)
    rfl
  | succ depth inductionHypothesis =>
    rw [Function.iterate_succ_apply']
    exact comparison_agree inductionHypothesis (expressionWithin_leaves depth)

/-- Whatever stands at the bottom of the nesting is not reached. -/
theorem nested_eq_expression (bottom : Parser Term) {depth : Nat} {tokens : List Located}
    (deep : tokens.length < depth) : comparison^[depth] bottom tokens = expression tokens := by
  obtain ⟨spare, rfl⟩ := Nat.exists_eq_add_of_lt deep
  have split : comparison^[tokens.length + spare + 1] bottom =
      comparison^[tokens.length + 1] (comparison^[spare] bottom) := by
    rw [← Function.iterate_add_apply, Nat.add_right_comm]
  rw [split]
  exact (nested_agree _ tokens.length tokens (Nat.lt_succ_self _)).symm

/-- The inner expressions of an expression are read as expressions. -/
theorem expression_eq_comparison : expression = comparison expression := by
  funext tokens
  have nested : AgreeBelow tokens.length expression (comparison^[tokens.length] expression) :=
    fun inner short => (nested_eq_expression expression short).symm
  have outer := comparison_agree nested expression_consumes.suffix tokens (Nat.lt_succ_self _)
  have deeper := nested_eq_expression expression (Nat.lt_succ_self tokens.length)
  rw [Function.iterate_succ_apply'] at deeper
  exact deeper.symm.trans outer.symm

/-! ### Rounds -/

/-- A repetition, round by round. The number counts the rounds that do not decline. -/
inductive Repeats (step : α → Parser (Option α)) : Nat → α → List Located → Reply α → Prop where
  | declined {value : α} {tokens rest : List Located}
      (ended : step value tokens = .ok none rest) :
      Repeats step 0 value tokens (.ok value rest)
  | failed {value : α} {tokens rest : List Located} {reason : SyntaxError}
      (stopped : step value tokens = .error reason rest) :
      Repeats step 1 value tokens (.error reason rest)
  | again {value next : α} {tokens rest : List Located} {rounds : Nat} {reply : Reply α}
      (stepped : step value tokens = .ok (some next) rest)
      (repeats : Repeats step rounds next rest reply) :
      Repeats step (rounds + 1) value tokens reply

/-- Items between commas, round by round. -/
inductive Separates (item : Parser α) (closing : Token) :
    Nat → List Located → Reply (List α) → Prop where
  | failed {tokens rest : List Located} {reason : SyntaxError}
      (stopped : item tokens = .error reason rest) :
      Separates item closing 1 tokens (.error reason rest)
  | unclosed {tokens middle rest : List Located} {value : α} {reason : SyntaxError}
      (taken : item tokens = .ok value middle)
      (stopped : continues closing middle = .error reason rest) :
      Separates item closing 1 tokens (.error reason rest)
  | closed {tokens middle rest : List Located} {value : α}
      (taken : item tokens = .ok value middle)
      (ended : continues closing middle = .ok false rest) :
      Separates item closing 1 tokens (.ok [value] rest)
  | again {tokens middle rest : List Located} {value : α} {rounds : Nat}
      {reply : Reply (List α)} (taken : item tokens = .ok value middle)
      (comma : continues closing middle = .ok true rest)
      (separates : Separates item closing rounds rest reply) :
      Separates item closing (rounds + 1) tokens (reply.map (value :: ·))

/-- Statements one after another, round by round, while there are tokens. -/
inductive Sequences : Nat → List Located → Reply (List Statement) → Prop where
  | ended : Sequences 0 [] (.ok [] [])
  | failed {tokens rest : List Located} {reason : SyntaxError} (nonempty : tokens ≠ [])
      (stopped : statement tokens = .error reason rest) :
      Sequences 1 tokens (.error reason rest)
  | again {tokens middle rest : List Located} {first : Statement} {rounds : Nat}
      {reply : Reply (List Statement)} (nonempty : tokens ≠ [])
      (taken : statement tokens = .ok first middle) (comma : optionalComma middle = .ok () rest)
      (sequences : Sequences rounds rest reply) :
      Sequences (rounds + 1) tokens (reply.map (first :: ·))

/-- Where a step declines without tokens and a step that goes on takes one, the bound on the
rounds is not reached. -/
theorem repeatWithin_ends (step : α → Parser (Option α))
    (nothing : ∀ value, step value [] = .ok none [])
    (advances : ∀ {value tokens next rest}, step value tokens = .ok (some next) rest →
      rest.length < tokens.length)
    (limit : Nat) (value : α) (tokens : List Located) (enough : tokens.length ≤ limit) :
    ∃ rounds ≤ tokens.length,
      Repeats step rounds value tokens (repeatWithin step limit value tokens) := by
  induction limit generalizing value tokens with
  | zero =>
    obtain rfl : tokens = [] := List.eq_nil_of_length_eq_zero (Nat.le_zero.mp enough)
    exact ⟨0, Nat.le_refl 0, .declined (nothing value)⟩
  | succ limit inductionHypothesis =>
    cases outcome : step value tokens with
    | error reason rest =>
      have nonempty : tokens ≠ [] := by
        rintro rfl
        rw [nothing] at outcome
        cases outcome
      have stopped : repeatWithin step (limit + 1) value tokens = .error reason rest :=
        bind_of_error outcome
      rw [stopped]
      exact ⟨1, List.length_pos_iff.mpr nonempty, .failed outcome⟩
    | ok found rest =>
      cases found with
      | none =>
        have ended : repeatWithin step (limit + 1) value tokens = .ok value rest :=
          bind_of_ok outcome
        rw [ended]
        exact ⟨0, Nat.zero_le _, .declined outcome⟩
      | some next =>
        have onward : repeatWithin step (limit + 1) value tokens =
            repeatWithin step limit next rest := bind_of_ok outcome
        have fewer := advances outcome
        obtain ⟨rounds, few, repeats⟩ := inductionHypothesis next rest (by omega)
        rw [onward]
        exact ⟨rounds + 1, by omega, .again outcome repeats⟩

/-- Items between commas end by themselves: each takes a token, so the limit on the
rounds is not met. -/
theorem separatedWithin_ends {item : Parser α} (consumes : item.Consumes) (closing : Token)
    (limit : Nat) (tokens : List Located) (enough : tokens.length ≤ limit) :
    ∃ rounds ≤ tokens.length + 1,
      Separates item closing rounds tokens (separatedWithin item closing limit tokens) := by
  induction limit generalizing tokens with
  | zero =>
    obtain rfl : tokens = [] := List.eq_nil_of_length_eq_zero (Nat.le_zero.mp enough)
    obtain ⟨reason, failed⟩ := consumes.empty
    have stopped : separatedWithin item closing 0 [] = .error reason [] := bind_of_error failed
    rw [stopped]
    exact ⟨1, Nat.le_refl 1, .failed failed⟩
  | succ limit inductionHypothesis =>
    have once : 1 ≤ tokens.length + 1 := Nat.le_add_left 1 _
    rw [separatedWithin]
    cases taken : item tokens with
    | error reason rest =>
      rw [bind_of_error taken]
      exact ⟨1, once, .failed taken⟩
    | ok first middle =>
      rw [bind_of_ok taken]
      cases decided : continues closing middle with
      | error reason rest =>
        rw [bind_of_error decided]
        exact ⟨1, once, .unclosed taken decided⟩
      | ok another rest =>
        rw [bind_of_ok decided]
        cases another with
        | false => exact ⟨1, once, .closed taken decided⟩
        | true =>
          have used := consumes.shorter taken
          have fewer := (continues_consumes closing).shorter decided
          obtain ⟨rounds, few, separates⟩ := inductionHypothesis rest (by omega)
          rw [if_pos rfl, answer_eq_map]
          exact ⟨rounds + 1, by omega, .again taken decided separates⟩

/-- Statements end by themselves: each takes a token. -/
theorem statementsWithin_ends (limit : Nat) (tokens : List Located)
    (enough : tokens.length ≤ limit) :
    ∃ rounds ≤ tokens.length, Sequences rounds tokens (statementsWithin limit tokens) := by
  induction limit generalizing tokens with
  | zero =>
    obtain rfl : tokens = [] := List.eq_nil_of_length_eq_zero (Nat.le_zero.mp enough)
    exact ⟨0, Nat.le_refl 0, .ended⟩
  | succ limit inductionHypothesis =>
    cases tokens with
    | nil => exact ⟨0, Nat.le_refl 0, .ended⟩
    | cons found more =>
      have nonempty := List.cons_ne_nil found more
      cases taken : statement (found :: more) with
      | error reason rest =>
        have stopped : statementsWithin (limit + 1) (found :: more) = .error reason rest :=
          bind_of_error taken
        rw [stopped]
        exact ⟨1, Nat.le_add_left 1 _, .failed nonempty taken⟩
      | ok first middle =>
        obtain ⟨rest, comma, suffix⟩ := optionalComma_suffix middle
        have onward : statementsWithin (limit + 1) (found :: more) =
            (statementsWithin limit rest).map (first :: ·) :=
          (bind_of_ok taken).trans ((bind_of_ok comma).trans (answer_eq_map _ _ rest))
        have used := statement_consumes.shorter taken
        have fewer := suffix.length_le
        obtain ⟨rounds, few, sequences⟩ := inductionHypothesis rest (by omega)
        rw [onward]
        exact ⟨rounds + 1, by omega, .again nonempty taken comma sequences⟩

/-- The arguments of an application end by themselves. -/
theorem argument_ends (function : Term) (tokens : List Located) :
    ∃ rounds ≤ tokens.length, Repeats (argument expression) rounds function tokens
      (repeatStep (argument expression) function tokens) := by
  have advances : ∀ {function tokens term rest},
      argument expression function tokens = .ok (some term) rest →
        rest.length < tokens.length := by
    intro function tokens term rest stepped
    obtain ⟨_, _, value, _, _, _, taken, _⟩ := argument_eq_some.mp stepped
    exact (atom_consumes expression_consumes.suffix).shorter taken
  exact repeatWithin_ends (argument expression) (fun _ => rfl) advances tokens.length function
    tokens (Nat.le_refl _)

/-- The operands of a level end by themselves. -/
theorem operand_ends {next : Parser Term} (consumes : next.Consumes)
    (accepts : BinaryBuiltin → Bool) (left : Term) (tokens : List Located) :
    ∃ rounds ≤ tokens.length, Repeats (operand accepts next) rounds left tokens
      (repeatStep (operand accepts next) left tokens) := by
  have advances : ∀ {left tokens term rest},
      operand accepts next left tokens = .ok (some term) rest → rest.length < tokens.length := by
    intro left tokens term rest stepped
    obtain ⟨found, more, _, _, rfl, _, _, taken, _⟩ := operand_eq_some.mp stepped
    exact Nat.lt_succ_of_lt (consumes.shorter taken)
  exact repeatWithin_ends (operand accepts next) (fun _ => rfl) advances tokens.length left
    tokens (Nat.le_refl _)

/-! ### All parsers -/

/-- The parsers of the parts of a program. The rest of a form comes with the line on which the
form began. -/
inductive Constituent : {α : Type} → Parser α → Prop where
  | expect (token : Token) : Constituent (expect token)
  | name : Constituent name
  | separated {α : Type} {item : Parser α} (constituent : Constituent item) (closing : Token) :
      Constituent (separated item closing)
  | definition : Constituent (definition expression)
  | clause : Constituent (clause expression)
  | lambda (line : Nat) : Constituent (lambda expression line)
  | conditional (line : Nat) : Constituent (conditional expression line)
  | selection (line : Nat) : Constituent (selection expression line)
  | binding (line : Nat) : Constituent (binding expression line)
  | atom : Constituent (atom expression)
  | application : Constituent (application expression)
  | multiplicative : Constituent (multiplicative expression)
  | additive : Constituent (additive expression)
  | comparison : Constituent (comparison expression)
  | expression : Constituent expression
  | statement : Constituent statement

/-- Every part of a program is consumed. -/
theorem Constituent.consumes {parser : Parser α} (constituent : Constituent parser) :
    parser.Consumes := by
  have leaves := expression_consumes.suffix
  induction constituent with
  | expect token => exact expect_consumes token
  | name => exact name_consumes
  | separated constituent closing inductionHypothesis =>
    exact separated_consumes inductionHypothesis closing
  | definition => exact definition_consumes leaves
  | clause => exact clause_consumes leaves
  | lambda line => exact lambda_consumes leaves line
  | conditional line =>
    refine consumes_of_first ⟨_, rfl⟩ fun first rest => ?_
    exact (conditional_rest leaves line _).trans (expression_consumes.taken first rest)
  | selection line =>
    refine consumes_of_first ⟨_, rfl⟩ fun first rest => ?_
    exact (selection_rest leaves line _).trans (expression_consumes.taken first rest)
  | binding line => exact binding_consumes leaves line
  | atom => exact atom_consumes leaves
  | application => exact application_consumes leaves
  | multiplicative => exact multiplicative_consumes leaves
  | additive => exact additive_consumes leaves
  | comparison => exact comparison_consumes leaves
  | expression => exact expression_consumes
  | statement => exact statement_consumes

/-- Parsing makes progress and ends. Each parser leaves a suffix of its tokens, and a proper one
if it succeeds or if there was something to read. An expression is the loosest level over
expressions, and its nesting ends before it is deeper than the tokens are many, whatever stands
below. The loops over arguments, over operands and over statements end after no more rounds than
there are tokens. The loop over items between commas may take one round more, in which no item
can be read. -/
theorem parsing_progresses_and_ends :
    (∀ {α : Type} {parser : Parser α}, Constituent parser → parser.Consumes) ∧
    expression = comparison expression ∧
    (∀ (bottom : Parser Term) (depth : Nat) (tokens : List Located), tokens.length < depth →
      comparison^[depth] bottom tokens = expression tokens) ∧
    (∀ (function : Term) (tokens : List Located), ∃ rounds ≤ tokens.length,
      Repeats (argument expression) rounds function tokens
        (repeatStep (argument expression) function tokens)) ∧
    (∀ {next : Parser Term}, Constituent next →
      ∀ (accepts : BinaryBuiltin → Bool) (left : Term) (tokens : List Located),
        ∃ rounds ≤ tokens.length, Repeats (operand accepts next) rounds left tokens
          (repeatStep (operand accepts next) left tokens)) ∧
    (∀ {α : Type} {item : Parser α}, Constituent item →
      ∀ (closing : Token) (tokens : List Located), ∃ rounds ≤ tokens.length + 1,
        Separates item closing rounds tokens (separated item closing tokens)) ∧
    ∀ tokens : List Located, ∃ rounds ≤ tokens.length,
      Sequences rounds tokens (statements tokens) := by
  refine ⟨Constituent.consumes, expression_eq_comparison, ?_, argument_ends, ?_, ?_, ?_⟩
  · intro bottom depth tokens deep
    exact nested_eq_expression bottom deep
  · intro next constituent accepts left tokens
    exact operand_ends constituent.consumes accepts left tokens
  · intro α item constituent closing tokens
    exact separatedWithin_ends constituent.consumes closing tokens.length tokens (Nat.le_refl _)
  · intro tokens
    exact statementsWithin_ends tokens.length tokens (Nat.le_refl _)

end Parser

end Timbre
