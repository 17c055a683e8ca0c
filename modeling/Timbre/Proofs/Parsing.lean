import Timbre.Program.Source

/-!
# When parsers succeed

For each of the small parsers, the lists of tokens on which it succeeds and what
it then leaves. A parser in several steps succeeds exactly when its steps do, one
on what the other leaves. With these rules the larger parsers can be read both
ways: from a success to the tokens that were taken, and from tokens to a success.
-/

namespace Timbre.Parser

variable {α β : Type}

/-- A sequence succeeds when both of its parts do. -/
theorem bind_eq_ok {first : Parser α} {next : α → Parser β} {tokens rest : List Located}
    {value : β} :
    (first >>= next) tokens = .ok value rest ↔
      ∃ found middle, first tokens = .ok found middle ∧ next found middle = .ok value rest := by
  change andThen first next tokens = _ ↔ _
  unfold andThen
  cases first tokens with
  | error reason middle => simp
  | ok found middle =>
    constructor
    · intro continued
      exact ⟨found, middle, rfl, continued⟩
    · rintro ⟨_, _, same, continued⟩
      cases same
      exact continued

/-- A sequence fails when its first part does, or its second part after a success of the
first. -/
theorem bind_eq_error {first : Parser α} {next : α → Parser β} {tokens rest : List Located}
    {reason : SyntaxError} :
    (first >>= next) tokens = .error reason rest ↔
      first tokens = .error reason rest ∨
        ∃ found middle, first tokens = .ok found middle ∧
          next found middle = .error reason rest := by
  change andThen first next tokens = _ ↔ _
  unfold andThen
  cases first tokens with
  | error reason middle => simp
  | ok found middle =>
    constructor
    · intro failed
      exact .inr ⟨found, middle, rfl, failed⟩
    · rintro (failed | ⟨_, _, same, failed⟩)
      · cases failed
      · cases same
        exact failed

/-- Returning a value takes no tokens. -/
theorem pure_eq_ok {found value : α} {tokens rest : List Located} :
    (pure found : Parser α) tokens = .ok value rest ↔ found = value ∧ tokens = rest := by
  change Reply.ok found tokens = _ ↔ _
  simp

/-- An expected token is taken from the front. -/
theorem expect_eq_ok {token : Token} {tokens rest : List Located} {value : Unit} :
    expect token tokens = .ok value rest ↔ ∃ p, tokens = ⟨token, p⟩ :: rest := by
  cases tokens with
  | nil => simp [expect]
  | cons found after =>
    obtain ⟨other, p⟩ := found
    by_cases same : other = token
    · simp [expect, same]
    · simp [expect, same]

/-- A name is taken from the front, with its line. -/
theorem name_eq_ok {tokens rest : List Located} {found : String × Nat} :
    name tokens = .ok found rest ↔
      ∃ p, tokens = ⟨.identifier found.1, p⟩ :: rest ∧ found.2 = p.line := by
  cases tokens with
  | nil => simp [name]
  | cons first after =>
    obtain ⟨token, p⟩ := first
    cases token with
    | identifier spelling =>
      constructor
      · rintro ⟨⟩
        exact ⟨p, rfl, rfl⟩
      · rintro ⟨_, same, line⟩
        cases same
        rw [name, ← line]
    | _ => simp [name, Token.reservedWord]

/-- A pattern is a numeral or the wildcard, with its line. -/
theorem pattern_eq_ok {tokens rest : List Located} {found : Option Term × Nat} :
    pattern tokens = .ok found rest ↔
      (∃ value p, tokens = ⟨.number value, p⟩ :: rest ∧
        found = (some (.number value p.line), p.line)) ∨
      ∃ p, tokens = ⟨.mark .underscore, p⟩ :: rest ∧ found = (none, p.line) := by
  cases tokens with
  | nil => simp [pattern]
  | cons first after =>
    obtain ⟨token, p⟩ := first
    cases token with
    | number value =>
      simp only [pattern, Reply.ok.injEq, List.cons.injEq, Located.mk.injEq]
      grind
    | mark mark =>
      cases mark with
      | underscore =>
        simp only [pattern, Reply.ok.injEq, List.cons.injEq, Located.mk.injEq]
        grind
      | _ => simp [pattern]
    | _ => simp [pattern]

/-- A comma says that another item follows, and the closing token that none does. -/
theorem continues_eq_ok {closing : Token} {tokens rest : List Located} {another : Bool}
    (different : closing ≠ .mark .comma) :
    continues closing tokens = .ok another rest ↔
      ∃ p, tokens = ⟨if another then .mark .comma else closing, p⟩ :: rest := by
  cases tokens with
  | nil => simp [continues]
  | cons first after =>
    obtain ⟨token, p⟩ := first
    simp only [continues]
    split
    · cases another <;> simp_all [eq_comm]
    · split
      · cases another <;> simp_all
      · cases another <;> simp_all

/-! ### Forms with their own first token -/

/-- A definition is a name, an equals sign and a body. -/
theorem definition_eq_ok {inner : Parser Term} {tokens rest : List Located}
    {found : Definition} :
    definition inner tokens = .ok found rest ↔
      ∃ p q middle, tokens = ⟨.identifier found.name, p⟩ :: ⟨.mark .assign, q⟩ :: middle ∧
        found.line = p.line ∧ inner middle = .ok found.body rest := by
  obtain ⟨foundName, body, line⟩ := found
  simp only [definition, bind_eq_ok, name_eq_ok, expect_eq_ok, pure_eq_ok, Prod.exists,
    DefinitionOf.mk.injEq]
  grind

/-- A clause is a pattern, an arrow and a result. -/
theorem clause_eq_ok {inner : Parser Term} {tokens rest : List Located} {found : Clause} :
    clause inner tokens = .ok found rest ↔
      ∃ p q middle, inner middle = .ok found.result rest ∧ found.line = p.line ∧
        ((∃ value, tokens = ⟨.number value, p⟩ :: ⟨.mark .arrow, q⟩ :: middle ∧
          found.pattern = some (.number value p.line)) ∨
        (tokens = ⟨.mark .underscore, p⟩ :: ⟨.mark .arrow, q⟩ :: middle ∧
          found.pattern = none)) := by
  obtain ⟨foundPattern, result, line⟩ := found
  simp only [clause, bind_eq_ok, pattern_eq_ok, expect_eq_ok, pure_eq_ok, Prod.exists,
    ClauseOf.mk.injEq, Prod.mk.injEq]
  grind

/-- A parenthesized term ends with a closing parenthesis. -/
theorem parenthesized_eq_ok {inner : Parser Term} {tokens rest : List Located} {term : Term} :
    parenthesized inner tokens = .ok term rest ↔
      ∃ p, inner tokens = .ok term (⟨.mark .closeParen, p⟩ :: rest) := by
  simp only [parenthesized, bind_eq_ok, expect_eq_ok, pure_eq_ok]
  grind

/-- A lambda goes on with a parameter, a dot and a body. -/
theorem lambda_eq_ok {inner : Parser Term} {line : Nat} {tokens rest : List Located}
    {term : Term} :
    lambda inner line tokens = .ok term rest ↔
      ∃ parameter body p q middle, term = .lambda parameter body line ∧
        tokens = ⟨.identifier parameter, p⟩ :: ⟨.mark .dot, q⟩ :: middle ∧
          inner middle = .ok body rest := by
  simp only [lambda, bind_eq_ok, name_eq_ok, expect_eq_ok, pure_eq_ok, Prod.exists]
  grind

/-- A conditional goes on with three terms, each before its word. -/
theorem conditional_eq_ok {inner : Parser Term} {line : Nat} {tokens rest : List Located}
    {term : Term} :
    conditional inner line tokens = .ok term rest ↔
      ∃ condition consequent alternative p q r first second,
        term = .conditional condition consequent alternative line ∧
          inner tokens = .ok condition (⟨.keyword .thenWord, p⟩ :: first) ∧
          inner first = .ok consequent (⟨.keyword .elseWord, q⟩ :: second) ∧
          inner second = .ok alternative (⟨.keyword .endWord, r⟩ :: rest) := by
  simp only [conditional, bind_eq_ok, expect_eq_ok, pure_eq_ok]
  grind

/-- A selection goes on with a scrutinee and clauses. -/
theorem selection_eq_ok {inner : Parser Term} {line : Nat} {tokens rest : List Located}
    {term : Term} :
    selection inner line tokens = .ok term rest ↔
      ∃ scrutinee clauses p middle, term = .selection scrutinee clauses line ∧
        inner tokens = .ok scrutinee (⟨.keyword .ofWord, p⟩ :: middle) ∧
        separated (clause inner) (.keyword .endWord) middle = .ok clauses rest := by
  simp only [selection, bind_eq_ok, expect_eq_ok, pure_eq_ok]
  grind

/-- A binding goes on with definitions and a body. -/
theorem binding_eq_ok {inner : Parser Term} {line : Nat} {tokens rest : List Located}
    {term : Term} :
    binding inner line tokens = .ok term rest ↔
      ∃ definitions body p middle, term = .binding definitions body line ∧
        separated (definition inner) (.keyword .inWord) tokens = .ok definitions middle ∧
        inner middle = .ok body (⟨.keyword .endWord, p⟩ :: rest) := by
  simp only [binding, bind_eq_ok, expect_eq_ok, pure_eq_ok]
  grind

/-! ### Steps of a repetition -/

/-- An argument is taken if an atom starts here and no definition does. -/
theorem argument_eq_some {inner : Parser Term} {function term : Term}
    {tokens rest : List Located} :
    argument inner function tokens = .ok (some term) rest ↔
      ∃ next more value, tokens = next :: more ∧ next.token.startsAtom = true ∧
        startsDefinition tokens = false ∧ atom inner tokens = .ok value rest ∧
          term = .application function value next.position.line := by
  cases tokens with
  | nil => simp [argument]
  | cons next more =>
    simp only [argument, Bool.and_eq_true, Bool.not_eq_true']
    split
    · simp only [bind_eq_ok, pure_eq_ok]
      grind
    · grind

/-- No argument is taken at the end, before other tokens and before a definition. -/
theorem argument_eq_none {inner : Parser Term} {function : Term}
    {tokens rest : List Located} :
    argument inner function tokens = .ok none rest ↔
      tokens = rest ∧ ∀ next more, tokens = next :: more →
        next.token.startsAtom = true → startsDefinition tokens = true := by
  cases tokens with
  | nil => simp [argument]
  | cons next more =>
    simp only [argument, Bool.and_eq_true, Bool.not_eq_true']
    split
    · simp only [bind_eq_ok, pure_eq_ok]
      grind
    · grind

/-- An argument fails where its atom does. -/
theorem argument_eq_error {inner : Parser Term} {function : Term} {tokens rest : List Located}
    {reason : SyntaxError} (failed : argument inner function tokens = .error reason rest) :
    atom inner tokens = .error reason rest := by
  cases tokens with
  | nil => cases failed
  | cons next more =>
    simp only [argument] at failed
    split at failed
    · obtain stopped | ⟨value, middle, -, stopped⟩ := bind_eq_error.mp failed
      · exact stopped
      · cases stopped
    · cases failed

/-- An operand is taken behind a sign for an operator of the level. -/
theorem operand_eq_some {accepts : BinaryBuiltin → Bool} {next : Parser Term}
    {left term : Term} {tokens rest : List Located} :
    operand accepts next left tokens = .ok (some term) rest ↔
      ∃ found more operator right, tokens = found :: more ∧
        found.token.operator = some operator ∧ accepts operator = true ∧
          next more = .ok right rest ∧
            term = .infixed operator left right found.position.line := by
  cases tokens with
  | nil => simp [operand]
  | cons found more =>
    cases known : found.token.operator.filter accepts with
    | some operator =>
      have admitted := Option.filter_eq_some_iff.mp known
      simp only [operand, known, bind_eq_ok, pure_eq_ok]
      grind
    | none =>
      have refused := Option.filter_eq_none_iff.mp known
      simp only [operand, known]
      grind

/-- No operand is taken at the end and before anything but a sign for an operator of the
level. -/
theorem operand_eq_none {accepts : BinaryBuiltin → Bool} {next : Parser Term}
    {left : Term} {tokens rest : List Located} :
    operand accepts next left tokens = .ok none rest ↔
      tokens = rest ∧ ∀ found more, tokens = found :: more →
        ∀ operator, found.token.operator = some operator → accepts operator = false := by
  cases tokens with
  | nil => simp [operand]
  | cons found more =>
    cases known : found.token.operator.filter accepts with
    | some operator =>
      have admitted := Option.filter_eq_some_iff.mp known
      simp only [operand, known, bind_eq_ok, pure_eq_ok]
      grind
    | none =>
      have refused := Option.filter_eq_none_iff.mp known
      simp only [operand, known]
      grind

/-- An operand fails behind a sign for an operator of the level. -/
theorem operand_eq_error {accepts : BinaryBuiltin → Bool} {next : Parser Term} {left : Term}
    {tokens rest : List Located} {reason : SyntaxError}
    (failed : operand accepts next left tokens = .error reason rest) :
    ∃ found more operator, tokens = found :: more ∧ found.token.operator = some operator ∧
      accepts operator = true ∧ next more = .error reason rest := by
  cases tokens with
  | nil => cases failed
  | cons found more =>
    cases known : found.token.operator.filter accepts with
    | some operator =>
      obtain ⟨stands, admitted⟩ := Option.filter_eq_some_iff.mp known
      simp only [operand, known] at failed
      obtain stopped | ⟨value, middle, -, stopped⟩ := bind_eq_error.mp failed
      · exact ⟨found, more, operator, rfl, stands, admitted, stopped⟩
      · cases stopped
    | none => simp [operand, known] at failed

end Timbre.Parser
