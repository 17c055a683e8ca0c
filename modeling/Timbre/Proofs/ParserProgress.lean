import Timbre.Proofs.Parsing

/-!
# Parsers take tokens

What a parser leaves is a suffix of its tokens. The parsers of the parts of a program
also take a token whenever there is one, whether they succeed or fail, and fail where
there is none. A parser in several steps has this from its first step, as long as the
others give no token back.

An atom takes its first token by itself, so for the levels of an expression it is enough
that the parser of inner expressions gives no token back.
-/

namespace Timbre.Parser

variable {α β : Type}

/-- What the parser leaves is a suffix of its tokens. -/
def LeavesSuffix (parser : Parser α) : Prop := ∀ tokens, (parser tokens).rest <:+ tokens

/-- The parser leaves a suffix of its tokens, and a proper one if it succeeds or if there
was something to read. -/
structure Consumes (parser : Parser α) : Prop where
  suffix : parser.LeavesSuffix
  success : ∀ {tokens value rest}, parser tokens = .ok value rest → rest ≠ tokens
  failure : ∀ {tokens reason rest}, tokens ≠ [] → parser tokens = .error reason rest →
    rest ≠ tokens

/-! ### The first token -/

/-- A parser that fails on no tokens, and does not give the first one back. -/
theorem consumes_of_first {parser : Parser α} (empty : ∃ reason, parser [] = .error reason [])
    (taken : ∀ first rest, (parser (first :: rest)).rest <:+ rest) : parser.Consumes := by
  obtain ⟨problem, stopped⟩ := empty
  have proper : ∀ tokens, tokens ≠ [] → (parser tokens).rest ≠ tokens := by
    intro tokens nonempty same
    cases tokens with
    | nil => exact nonempty rfl
    | cons first rest =>
      have shorter := (taken first rest).length_le
      rw [same, List.length_cons] at shorter
      omega
  constructor
  case suffix =>
    intro tokens
    cases tokens with
    | nil =>
      rw [stopped]
      exact List.suffix_refl []
    | cons first rest => exact (taken first rest).trans (List.suffix_cons first rest)
  case success =>
    intro tokens value rest succeeded
    have nonempty : tokens ≠ [] := by
      rintro rfl
      rw [stopped] at succeeded
      cases succeeded
    simpa only [succeeded, Reply.rest] using proper tokens nonempty
  case failure =>
    intro tokens reason rest nonempty failed
    simpa only [failed, Reply.rest] using proper tokens nonempty

namespace Consumes

variable {parser : Parser α} (consumes : parser.Consumes)

include consumes

/-- A parser that consumes fails at the end of the tokens. -/
theorem empty : ∃ reason, parser [] = .error reason [] := by
  have left := List.suffix_nil.mp (consumes.suffix [])
  cases outcome : parser [] with
  | ok value rest =>
    rw [outcome] at left
    exact absurd left (consumes.success outcome)
  | error reason rest =>
    rw [outcome] at left
    exact ⟨reason, congrArg (Reply.error reason) left⟩

/-- A parser that consumes leaves a suffix of what comes after the first token. -/
theorem taken (first : Located) (rest : List Located) :
    (parser (first :: rest)).rest <:+ rest := by
  have proper : (parser (first :: rest)).rest ≠ first :: rest := by
    cases outcome : parser (first :: rest) with
    | ok value left => exact consumes.success outcome
    | error reason left => exact consumes.failure (List.cons_ne_nil first rest) outcome
  exact (List.suffix_cons_iff.mp (consumes.suffix (first :: rest))).resolve_left proper

/-- A parser that consumes and succeeds leaves fewer tokens. -/
theorem shorter {tokens rest : List Located} {value : α}
    (succeeded : parser tokens = .ok value rest) : rest.length < tokens.length := by
  have left := consumes.suffix tokens
  rw [succeeded] at left
  by_cases same : rest.length = tokens.length
  · exact absurd (left.eq_of_length same) (consumes.success succeeded)
  · exact Nat.lt_of_le_of_ne left.length_le same

end Consumes

/-! ### Steps -/

/-- Returning a value leaves all tokens. -/
theorem leavesSuffix_pure (value : α) : (pure value : Parser α).LeavesSuffix :=
  fun tokens => List.suffix_refl tokens

/-- The later steps start from what the first one leaves. -/
theorem bind_rest {next : α → Parser β} (continued : ∀ value, (next value).LeavesSuffix)
    (first : Parser α) (tokens : List Located) :
    ((first >>= next) tokens).rest <:+ (first tokens).rest := by
  change (andThen first next tokens).rest <:+ _
  unfold andThen
  cases first tokens with
  | error reason rest => exact List.suffix_refl rest
  | ok value rest => exact continued value rest

/-- A sequence leaves a suffix if both of its parts do. -/
theorem LeavesSuffix.bind {first : Parser α} {next : α → Parser β} (leaves : first.LeavesSuffix)
    (continued : ∀ value, (next value).LeavesSuffix) : (first >>= next).LeavesSuffix :=
  fun tokens => (bind_rest continued first tokens).trans (leaves tokens)

/-- A sequence consumes if its first part does. -/
theorem Consumes.bind {first : Parser α} {next : α → Parser β} (consumes : first.Consumes)
    (continued : ∀ value, (next value).LeavesSuffix) : (first >>= next).Consumes := by
  apply consumes_of_first
  · obtain ⟨reason, failed⟩ := consumes.empty
    exact ⟨reason, bind_eq_error.mpr (.inl failed)⟩
  · intro found rest
    exact (bind_rest continued first (found :: rest)).trans (consumes.taken found rest)

/-! ### Single tokens -/

/-- An expected token is consumed, and so is another one in its place. -/
theorem expect_consumes (token : Token) : (expect token).Consumes := by
  refine consumes_of_first ⟨_, rfl⟩ ?_
  intro found rest
  simp only [expect]
  split <;> exact List.suffix_refl rest

/-- A name is consumed. -/
theorem name_consumes : name.Consumes := by
  refine consumes_of_first ⟨_, rfl⟩ ?_
  intro found rest
  simp only [name]
  split <;> exact List.suffix_refl rest

/-- A pattern is consumed. -/
theorem pattern_consumes : pattern.Consumes := by
  refine consumes_of_first ⟨_, rfl⟩ ?_
  intro found rest
  simp only [pattern]
  split <;> exact List.suffix_refl rest

/-- A comma or the closing token is consumed. -/
theorem continues_consumes (closing : Token) : (continues closing).Consumes := by
  refine consumes_of_first ⟨_, rfl⟩ ?_
  intro found rest
  simp only [continues]
  split
  · exact List.suffix_refl rest
  · split <;> exact List.suffix_refl rest

/-! ### Loops -/

/-- Rounds of a step leave a suffix if each of them does. -/
theorem repeatWithin_leaves {step : α → Parser (Option α)}
    (leaves : ∀ value, (step value).LeavesSuffix) (rounds : Nat) (value : α) :
    (repeatWithin step rounds value).LeavesSuffix := by
  induction rounds generalizing value with
  | zero => exact leavesSuffix_pure value
  | succ rounds inductionHypothesis =>
    apply (leaves value).bind
    intro found
    cases found with
    | none => exact leavesSuffix_pure value
    | some next => exact inductionHypothesis next

/-- Repeating a step leaves a suffix if the step does. -/
theorem repeatStep_leaves {step : α → Parser (Option α)}
    (leaves : ∀ value, (step value).LeavesSuffix) (value : α) :
    (repeatStep step value).LeavesSuffix :=
  fun tokens => repeatWithin_leaves leaves tokens.length value tokens

/-- Items within a number of rounds are consumed if each of them is. -/
theorem separatedWithin_consumes {item : Parser α} (consumes : item.Consumes) (closing : Token)
    (rounds : Nat) : (separatedWithin item closing rounds).Consumes := by
  induction rounds with
  | zero => exact consumes.bind fun first => leavesSuffix_pure [first]
  | succ rounds inductionHypothesis =>
    apply consumes.bind
    intro first
    apply (continues_consumes closing).suffix.bind
    intro another
    cases another with
    | false => exact leavesSuffix_pure [first]
    | true =>
      exact inductionHypothesis.suffix.bind fun others => leavesSuffix_pure (first :: others)

/-- Items between commas are consumed if each of them is. -/
theorem separated_consumes {item : Parser α} (consumes : item.Consumes) (closing : Token) :
    (separated item closing).Consumes := by
  apply consumes_of_first
  · exact (separatedWithin_consumes consumes closing 0).empty
  · intro first rest
    exact (separatedWithin_consumes consumes closing (first :: rest).length).taken first rest

/-! ### Forms over inner expressions -/

section Forms

variable {inner : Parser Term} (leaves : inner.LeavesSuffix)

include leaves

/-- A definition is consumed. -/
theorem definition_consumes : (definition inner).Consumes := by
  apply name_consumes.bind
  rintro ⟨found, line⟩
  apply (expect_consumes (.mark .assign)).suffix.bind
  intro _
  exact leaves.bind fun body => leavesSuffix_pure _

/-- A clause is consumed. -/
theorem clause_consumes : (clause inner).Consumes := by
  apply pattern_consumes.bind
  rintro ⟨found, line⟩
  apply (expect_consumes (.mark .arrow)).suffix.bind
  intro _
  exact leaves.bind fun result => leavesSuffix_pure _

/-- The rest of a lambda is consumed. -/
theorem lambda_consumes (line : Nat) : (lambda inner line).Consumes := by
  apply name_consumes.bind
  rintro ⟨parameter, _⟩
  apply (expect_consumes (.mark .dot)).suffix.bind
  intro _
  exact leaves.bind fun body => leavesSuffix_pure _

/-- The rest of a binding is consumed. -/
theorem binding_consumes (line : Nat) : (binding inner line).Consumes := by
  apply (separated_consumes (definition_consumes leaves) (.keyword .inWord)).bind
  intro definitions
  apply leaves.bind
  intro body
  exact (expect_consumes (.keyword .endWord)).suffix.bind fun _ => leavesSuffix_pure _

/-! The other forms begin with an inner expression, so they take what it takes. -/

omit leaves in
/-- What is left after a closing parenthesis is left by the inner expression. -/
theorem parenthesized_rest (tokens : List Located) :
    (parenthesized inner tokens).rest <:+ (inner tokens).rest := by
  apply bind_rest
  intro term
  exact (expect_consumes (.mark .closeParen)).suffix.bind fun _ => leavesSuffix_pure term

/-- What is left of a conditional is left by its condition. -/
theorem conditional_rest (line : Nat) (tokens : List Located) :
    (conditional inner line tokens).rest <:+ (inner tokens).rest := by
  apply bind_rest
  intro condition
  apply (expect_consumes (.keyword .thenWord)).suffix.bind
  intro _
  apply leaves.bind
  intro consequent
  apply (expect_consumes (.keyword .elseWord)).suffix.bind
  intro _
  apply leaves.bind
  intro alternative
  exact (expect_consumes (.keyword .endWord)).suffix.bind fun _ => leavesSuffix_pure _

/-- What is left of a selection is left by its scrutinee. -/
theorem selection_rest (line : Nat) (tokens : List Located) :
    (selection inner line tokens).rest <:+ (inner tokens).rest := by
  apply bind_rest
  intro scrutinee
  apply (expect_consumes (.keyword .ofWord)).suffix.bind
  intro _
  apply (separated_consumes (clause_consumes leaves) (.keyword .endWord)).suffix.bind
  intro clauses
  exact leavesSuffix_pure _

/-! ### Levels -/

/-- An atom takes its first token, and the form behind it gives none back. -/
theorem atom_consumes : (atom inner).Consumes := by
  refine consumes_of_first ⟨_, rfl⟩ ?_
  intro found rest
  simp only [atom]
  split
  · exact List.suffix_refl rest
  · exact List.suffix_refl rest
  · exact List.suffix_refl rest
  · exact (parenthesized_rest rest).trans (leaves rest)
  · exact (lambda_consumes leaves found.position.line).suffix rest
  · exact (selection_rest leaves found.position.line rest).trans (leaves rest)
  · exact (conditional_rest leaves found.position.line rest).trans (leaves rest)
  · exact (binding_consumes leaves found.position.line).suffix rest
  · exact List.suffix_refl rest

/-- An argument leaves a suffix, and nothing is taken if there is none. -/
theorem argument_leaves (function : Term) : (argument inner function).LeavesSuffix := by
  intro tokens
  cases tokens with
  | nil => exact List.suffix_refl []
  | cons next rest =>
    simp only [argument]
    split
    · exact ((atom_consumes leaves).suffix.bind fun value => leavesSuffix_pure _) (next :: rest)
    · exact List.suffix_refl (next :: rest)

/-- An application is consumed, since its first atom is. -/
theorem application_consumes : (application inner).Consumes :=
  (atom_consumes leaves).bind (repeatStep_leaves (argument_leaves leaves))

end Forms

section Levels

variable {accepts : BinaryBuiltin → Bool} {next : Parser Term}

/-- A sign and an operand leave a suffix, and nothing is taken if there is no sign of
the level. -/
theorem operand_leaves (leaves : next.LeavesSuffix) (left : Term) :
    (operand accepts next left).LeavesSuffix := by
  intro tokens
  cases tokens with
  | nil => exact List.suffix_refl []
  | cons found rest =>
    simp only [operand]
    split
    · refine List.IsSuffix.trans ?_ (List.suffix_cons found rest)
      exact (leaves.bind fun right => leavesSuffix_pure _) rest
    · exact List.suffix_refl (found :: rest)

/-- Operands joined by a level are consumed, since the first one is. -/
theorem level_consumes (consumes : next.Consumes) : (level accepts next).Consumes :=
  consumes.bind (repeatStep_leaves (operand_leaves consumes.suffix))

end Levels

variable {inner : Parser Term}

/-- A product is consumed. -/
theorem multiplicative_consumes (leaves : inner.LeavesSuffix) : (multiplicative inner).Consumes :=
  level_consumes (application_consumes leaves)

/-- A sum is consumed. -/
theorem additive_consumes (leaves : inner.LeavesSuffix) : (additive inner).Consumes :=
  level_consumes (multiplicative_consumes leaves)

/-- A comparison is consumed. -/
theorem comparison_consumes (leaves : inner.LeavesSuffix) : (comparison inner).Consumes :=
  level_consumes (additive_consumes leaves)

/-! ### Expressions and statements -/

/-- An expression leaves a suffix within every depth. -/
theorem expressionWithin_leaves (depth : Nat) : (expressionWithin depth).LeavesSuffix := by
  induction depth with
  | zero => exact fun tokens => List.suffix_refl tokens
  | succ depth inductionHypothesis => exact (comparison_consumes inductionHypothesis).suffix

/-- An expression is consumed. -/
theorem expression_consumes : expression.Consumes := by
  refine consumes_of_first ⟨_, rfl⟩ ?_
  intro first rest
  exact (comparison_consumes (expressionWithin_leaves rest.length)).taken first rest

/-- A statement is consumed. -/
theorem statement_consumes : statement.Consumes := by
  refine consumes_of_first ⟨_, rfl⟩ ?_
  intro first rest
  unfold statement
  split
  · exact ((definition_consumes expression_consumes.suffix).bind fun found =>
      leavesSuffix_pure _).taken first rest
  · exact (expression_consumes.bind fun term => leavesSuffix_pure _).taken first rest

/-- An optional comma never fails and leaves a suffix. -/
theorem optionalComma_suffix (tokens : List Located) :
    ∃ rest, optionalComma tokens = .ok () rest ∧ rest <:+ tokens := by
  unfold optionalComma
  split
  · exact ⟨_, rfl, List.suffix_cons _ _⟩
  · exact ⟨_, rfl, List.suffix_refl _⟩

end Timbre.Parser
