import Timbre.Proofs.Outline
import Timbre.Proofs.ParserSoundness

/-!
# Parsers accept what the grammar derives

The parsers are greedy: an application takes every argument that can follow, a
lambda takes all that its body can take, and a name with an equals sign after it
ends both. No such choice loses a derivation. What is left of a phrase is always
a tail, so each loop stops at the end of the phrase or in front of a sign that a
looser level takes, and the loosest level takes the last of them.
-/

namespace Timbre

open Grammar

namespace Grammar

/-- An expression cannot go on here. -/
def Stops (rest : List Located) : Prop :=
  ∀ next more, rest = next :: more →
    next.token ≠ .mark .assign ∧ next.token.operator = none ∧
      (next.token.startsAtom = true → startsDefinition rest = true)

/-- What an operator parser leaves of a phrase: nothing, or a sign for one of some
operators and a phrase. -/
def Remaining (possible : BinaryBuiltin → Prop) (left : List Located) : Prop :=
  left = [] ∨ ∃ sign operator after, left = sign :: after ∧
    sign.token.operator = some operator ∧ possible operator ∧ Outline .phrase after

/-- An expression stops at the end of the tokens. -/
theorem stops_nil : Stops [] := by
  intro next more same
  cases same

/-- Whether a token may come right after an inner expression. -/
def closes : Token → Bool
  | .mark .closeParen | .mark .comma => true
  | .keyword .ofWord | .keyword .thenWord | .keyword .elseWord => true
  | .keyword .inWord | .keyword .endWord => true
  | _ => false

/-- An expression stops before a token that may come right after it. -/
theorem stops_closing {token : Token} (closing : closes token = true) (p : Position)
    (after : List Located) : Stops (⟨token, p⟩ :: after) := by
  intro next more same
  cases same
  cases token with
  | keyword word => cases word <;> simp_all [closes, Token.operator, Token.startsAtom]
  | mark mark => cases mark <;> simp_all [closes, Token.operator, Mark.operator, Token.startsAtom]
  | _ => cases closing

/-- Where an expression stops no equals sign is next. -/
theorem Stops.unassigned {rest : List Located} (stops : Stops rest) : Unassigned rest := by
  intro p after same
  exact (stops _ _ same).1 rfl

/-- Without an equals sign after the first token nothing is defined. -/
theorem Unassigned.defines_nothing {first : Located} {following : List Located}
    (unassigned : Unassigned following) :
    startsDefinition (first :: following) = false ∧
      redefinesReserved (first :: following) = false := by
  constructor
  · unfold startsDefinition
    split
    · rename_i same
      exact absurd (List.cons.inj same).2 (unassigned _ _)
    · rfl
  · unfold redefinesReserved
    split
    · rename_i same
      exact absurd (List.cons.inj same).2 (unassigned _ _)
    · rfl

/-- A phrase in front of a place where it stops begins no definition. -/
theorem Outline.defines_nothing {tokens rest : List Located} (outline : Outline .phrase tokens)
    (stops : Stops rest) :
    startsDefinition (tokens ++ rest) = false ∧ redefinesReserved (tokens ++ rest) = false := by
  obtain ⟨first, more, rfl, -, unassigned⟩ := outline.phrase_beginsOperand
  exact (unassigned rest stops.unassigned).defines_nothing

end Grammar

namespace Token

variable {token : Token} {operator : BinaryBuiltin}

/-- A sign begins no argument. -/
theorem startsAtom_sign (known : token.operator = some operator) : token.startsAtom = false := by
  cases token with
  | mark mark => cases mark <;> first | rfl | cases known
  | _ => cases known

/-- Every sign belongs to a level. -/
theorem operator_level (known : token.operator = some operator) :
    operator.isComparison = true ∨ operator.isAdditive = true ∨
      operator.isMultiplicative = true := by
  cases token with
  | mark mark => cases mark <;> cases known <;> decide
  | _ => cases known

end Token

namespace Parser

variable {α : Type} {inner : Parser Term} {bound : Nat}

/-- A part of at most `bound` tokens is accepted, as a whole, in front of every
place where an expression stops. -/
def Accepts (parser : Parser α) (part : Part) (bound : Nat) : Prop :=
  ∀ ⦃tokens rest⦄, Outline part tokens → tokens.length ≤ bound → Stops rest →
    ∃ value, parser (tokens ++ rest) = .ok value rest

/-- What is accepted in front of every stop is accepted in front of a closing token. -/
theorem Accepts.before {parser : Parser α} {part : Part} {tokens : List Located}
    (accepts : parser.Accepts part bound) (outline : Outline part tokens)
    (short : tokens.length ≤ bound) (token : Token) (closing : closes token = true)
    (p : Position) (after : List Located) :
    ∃ value, parser (tokens ++ ⟨token, p⟩ :: after) = .ok value (⟨token, p⟩ :: after) :=
  accepts outline short (stops_closing closing p after)

/-! ### Lists of entries -/

/-- If entries are accepted, so is a list of them and the token that closes it.
The bound on the rounds suffices because a round takes a token. -/
theorem separatedWithin_accepts {kind : Entry} {item : Parser α} {closing : Token}
    (accepts : item.Accepts (.entry kind) bound) (different : closing ≠ .mark .comma)
    (final : closes closing = true) (rounds : Nat) {tokens : List Located}
    (outline : Outline (.entries kind) tokens) (short : tokens.length ≤ bound)
    (enough : tokens.length < rounds) (p : Position) (rest : List Located) :
    ∃ values, separatedWithin item closing rounds (tokens ++ ⟨closing, p⟩ :: rest) =
      .ok values rest := by
  induction rounds generalizing tokens with
  | zero => omega
  | succ rounds inductionHypothesis =>
    cases outline with
    | last only =>
      obtain ⟨value, taken⟩ := accepts.before only short closing final p rest
      have closed : continues closing (⟨closing, p⟩ :: rest) = .ok false rest :=
        (continues_eq_ok different).mpr ⟨p, rfl⟩
      refine ⟨[value], bind_eq_ok.mpr ⟨value, _, taken, ?_⟩⟩
      exact bind_eq_ok.mpr ⟨false, rest, closed, rfl⟩
    | @more _ before after q first others =>
      rw [List.append_assoc, List.cons_append]
      rw [List.length_append, List.length_cons] at short enough
      obtain ⟨value, taken⟩ := accepts.before first (by omega) (.mark .comma) rfl q
        (after ++ ⟨closing, p⟩ :: rest)
      obtain ⟨values, remaining⟩ := inductionHypothesis others (by omega) (by omega)
      have another : continues closing (⟨.mark .comma, q⟩ :: (after ++ ⟨closing, p⟩ :: rest)) =
          .ok true (after ++ ⟨closing, p⟩ :: rest) :=
        (continues_eq_ok different).mpr ⟨q, rfl⟩
      refine ⟨value :: values, bind_eq_ok.mpr ⟨value, _, taken, ?_⟩⟩
      refine bind_eq_ok.mpr ⟨true, _, another, ?_⟩
      exact bind_eq_ok.mpr ⟨values, rest, remaining, rfl⟩

/-- Entries between commas are accepted up to the token that closes them; the rounds are
bounded by the tokens. -/
theorem separated_accepts {kind : Entry} {item : Parser α}
    (accepts : item.Accepts (.entry kind) bound) (closing : Token)
    (different : closing ≠ .mark .comma) (final : closes closing = true) {tokens : List Located}
    (outline : Outline (.entries kind) tokens) (short : tokens.length ≤ bound) (p : Position)
    (rest : List Located) :
    ∃ values, separated item closing (tokens ++ ⟨closing, p⟩ :: rest) = .ok values rest := by
  have enough : tokens.length < (tokens ++ ⟨closing, p⟩ :: rest).length := by simp
  exact separatedWithin_accepts accepts different final _ outline short enough p rest

/-! ### Atoms -/

section Atoms

variable (accepts : inner.Accepts .phrase bound)

include accepts

/-- A clause is accepted if its result is. -/
theorem clause_accepts : (clause inner).Accepts (.entry .clause) bound := by
  intro tokens rest outline short stops
  cases outline with
  | numbered value p q result =>
    simp only [List.length_cons] at short
    obtain ⟨term, taken⟩ := accepts result (by omega) stops
    exact ⟨⟨some (.number value p.line), term, p.line⟩,
      clause_eq_ok.mpr ⟨p, q, _, taken, rfl, .inl ⟨value, rfl, rfl⟩⟩⟩
  | wildcard p q result =>
    simp only [List.length_cons] at short
    obtain ⟨term, taken⟩ := accepts result (by omega) stops
    exact ⟨⟨none, term, p.line⟩, clause_eq_ok.mpr ⟨p, q, _, taken, rfl, .inr ⟨rfl, rfl⟩⟩⟩

/-- A definition is accepted if its body is. -/
theorem definition_accepts : (definition inner).Accepts (.entry .definition) bound := by
  intro tokens rest outline short stops
  cases outline with
  | named name p q body =>
    simp only [List.length_cons] at short
    obtain ⟨term, taken⟩ := accepts body (by omega) stops
    exact ⟨⟨name, term, p.line⟩, definition_eq_ok.mpr ⟨p, q, _, rfl, rfl, taken⟩⟩

/-- A unit is accepted as an atom, whatever comes after it. -/
theorem atom_accepts_unit {tokens : List Located} (outline : Outline .unit tokens)
    (short : tokens.length ≤ bound + 1) (rest : List Located) :
    ∃ term, atom inner (tokens ++ rest) = .ok term rest := by
  cases outline with
  | number value p => exact ⟨_, rfl⟩
  | identifier name p => exact ⟨_, rfl⟩
  | builtin operator p => exact ⟨_, rfl⟩
  | parenthesized p q expression =>
    simp only [List.cons_append, List.append_assoc, List.length_append, List.length_cons] at short ⊢
    obtain ⟨term, taken⟩ := accepts.before expression (by omega) (.mark .closeParen) rfl q rest
    exact ⟨term, parenthesized_eq_ok.mpr ⟨q, taken⟩⟩
  | selection p q r scrutinee clauses =>
    simp only [List.cons_append, List.append_assoc, List.length_append, List.length_cons] at short ⊢
    obtain ⟨term, taken⟩ := accepts.before scrutinee (by omega) (.keyword .ofWord) rfl q _
    obtain ⟨choices, closed⟩ := separated_accepts (clause_accepts accepts)
      (.keyword .endWord) (by simp) rfl clauses (by omega) r rest
    exact ⟨.selection term choices p.line,
      selection_eq_ok.mpr ⟨term, choices, q, _, rfl, taken, closed⟩⟩
  | conditional p q r s decision positive negative =>
    simp only [List.cons_append, List.append_assoc, List.length_append, List.length_cons] at short ⊢
    obtain ⟨condition, decided⟩ := accepts.before decision (by omega) (.keyword .thenWord) rfl q _
    obtain ⟨consequent, chosen⟩ := accepts.before positive (by omega) (.keyword .elseWord) rfl r _
    obtain ⟨alternative, other⟩ := accepts.before negative (by omega) (.keyword .endWord) rfl s rest
    exact ⟨.conditional condition consequent alternative p.line, conditional_eq_ok.mpr
      ⟨condition, consequent, alternative, q, r, s, _, _, rfl, decided, chosen, other⟩⟩
  | binding p q r definitions body =>
    simp only [List.cons_append, List.append_assoc, List.length_append, List.length_cons] at short ⊢
    obtain ⟨bindings, closed⟩ := separated_accepts (definition_accepts accepts)
      (.keyword .inWord) (by simp) rfl definitions (by omega) q _
    obtain ⟨term, taken⟩ := accepts.before body (by omega) (.keyword .endWord) rfl r rest
    exact ⟨.binding bindings term p.line,
      binding_eq_ok.mpr ⟨bindings, term, r, _, rfl, closed, taken⟩⟩

/-- The first atom of a phrase leaves a tail of it. -/
theorem atom_accepts {tokens rest : List Located} (outline : Outline .phrase tokens)
    (short : tokens.length ≤ bound + 1) (stops : Stops rest) :
    ∃ term left, atom inner (tokens ++ rest) = .ok term (left ++ rest) ∧
      Outline .tail left ∧ left.length < tokens.length := by
  cases outline with
  | @follow before after first following =>
    rw [List.length_append] at short ⊢
    obtain ⟨term, taken⟩ := atom_accepts_unit accepts first (by omega) (after ++ rest)
    obtain ⟨start, more, rfl, -⟩ := first.unit_beginsOperand
    refine ⟨term, after, ?_, following, ?_⟩
    · rw [List.append_assoc, taken]
    · simp
  | lambda name p q r body =>
    simp only [List.length_cons] at short
    obtain ⟨term, taken⟩ := accepts body (by omega) stops
    refine ⟨.lambda name term p.line, [], ?_, .done, by simp⟩
    exact lambda_eq_ok.mpr ⟨name, term, q, r, _, rfl, rfl, taken⟩

/-! ### Applications -/

/-- The arguments of an application are taken up to the end of the phrase or to a
sign. The loop runs on tails, which get shorter in each round. -/
theorem repeatWithin_argument_accepts {rest : List Located} (stops : Stops rest) (rounds : Nat)
    (function : Term) {tokens : List Located} (outline : Outline .tail tokens)
    (short : tokens.length ≤ bound + 1) (enough : tokens.length ≤ rounds) :
    ∃ term left, repeatWithin (argument inner) rounds function (tokens ++ rest) =
        .ok term (left ++ rest) ∧
      Remaining (fun _ => True) left ∧ left.length ≤ tokens.length := by
  induction rounds generalizing tokens function with
  | zero =>
    -- No round is left, but neither is a token of the phrase.
    have empty : tokens = [] := List.eq_nil_of_length_eq_zero (by omega)
    subst empty
    exact ⟨function, [], rfl, .inl rfl, Nat.le_refl _⟩
  | succ rounds inductionHypothesis =>
    cases outline with
    | done =>
      have declined : argument inner function rest = .ok none rest :=
        argument_eq_none.mpr ⟨rfl, fun next more same => (stops next more same).2.2⟩
      exact ⟨function, [], bind_eq_ok.mpr ⟨none, rest, declined, rfl⟩, .inl rfl, Nat.le_refl _⟩
    | @joined after sign operator known following =>
      have no_atom : sign.token.startsAtom = false := Token.startsAtom_sign known
      have declined : argument inner function (sign :: (after ++ rest)) =
          .ok none (sign :: (after ++ rest)) := by
        refine argument_eq_none.mpr ⟨rfl, fun next more same starts => ?_⟩
        cases same
        simp [no_atom] at starts
      refine ⟨function, sign :: after, bind_eq_ok.mpr ⟨none, _, declined, rfl⟩, ?_, Nat.le_refl _⟩
      exact .inr ⟨sign, operator, after, rfl, known, trivial, following⟩
    | beside phrase =>
      -- The phrase begins no definition, so the lookahead lets its first atom through.
      obtain ⟨value, left, taken, tail, shorter⟩ := atom_accepts accepts phrase short stops
      obtain ⟨first, more, split, starts, -⟩ := phrase.phrase_beginsOperand
      have applied : argument inner function (tokens ++ rest) =
          .ok (some (.application function value first.position.line)) (left ++ rest) := by
        refine argument_eq_some.mpr ⟨first, more ++ rest, value, ?_, starts, ?_, taken, rfl⟩
        · rw [split, List.cons_append]
        · exact (phrase.defines_nothing stops).1
      obtain ⟨term, final, repeated, remaining, fewer⟩ :=
        inductionHypothesis (.application function value first.position.line) tail
          (by omega) (by omega)
      exact ⟨term, final, bind_eq_ok.mpr ⟨_, _, applied, repeated⟩, remaining, by omega⟩

end Atoms

/-- The first operand of a phrase is accepted and leaves nothing, or a sign for a
possible operator with its own phrase. -/
def AcceptsOperand (parser : Parser Term) (possible : BinaryBuiltin → Prop) (bound : Nat) :
    Prop :=
  ∀ ⦃tokens rest⦄, Outline .phrase tokens → tokens.length ≤ bound → Stops rest →
    ∃ term left, parser (tokens ++ rest) = .ok term (left ++ rest) ∧
      Remaining possible left ∧ left.length < tokens.length

/-- An application is accepted up to a sign or to the end of the phrase. -/
theorem application_accepts (accepts : inner.Accepts .phrase bound) :
    (application inner).AcceptsOperand (fun _ => True) (bound + 1) := by
  intro tokens rest outline short stops
  obtain ⟨function, left, taken, tail, shorter⟩ := atom_accepts accepts outline short stops
  obtain ⟨term, final, repeated, remaining, fewer⟩ :=
    repeatWithin_argument_accepts accepts stops (left ++ rest).length function tail (by omega)
      (by simp)
  exact ⟨term, final, bind_eq_ok.mpr ⟨_, _, taken, repeated⟩, remaining, by omega⟩

/-! ### Levels -/

/-- Further operands are accepted as long as their operators belong to the level. Each
round takes a sign, so the rounds are enough. -/
theorem repeatWithin_operand_accepts {accepted : BinaryBuiltin → Bool} {next : Parser Term}
    {possible : BinaryBuiltin → Prop} (accepts : next.AcceptsOperand possible bound)
    {rest : List Located} (stops : Stops rest) (rounds : Nat) (left : Term)
    {tokens : List Located} (remaining : Remaining possible tokens)
    (short : tokens.length ≤ bound) (enough : tokens.length ≤ rounds) :
    ∃ term final, repeatWithin (operand accepted next) rounds left (tokens ++ rest) =
        .ok term (final ++ rest) ∧
      Remaining (fun operator => possible operator ∧ accepted operator = false) final ∧
        final.length ≤ tokens.length := by
  induction rounds generalizing tokens left with
  | zero =>
    have empty : tokens = [] := List.eq_nil_of_length_eq_zero (by omega)
    subst empty
    exact ⟨left, [], rfl, .inl rfl, Nat.le_refl _⟩
  | succ rounds inductionHypothesis =>
    obtain rfl | ⟨sign, operator, after, rfl, known, allowed, phrase⟩ := remaining
    · have declined : operand accepted next left rest = .ok none rest := by
        refine operand_eq_none.mpr ⟨rfl, fun found more same operator known => ?_⟩
        rw [(stops found more same).2.1] at known
        cases known
      exact ⟨left, [], bind_eq_ok.mpr ⟨none, rest, declined, rfl⟩, .inl rfl, Nat.le_refl _⟩
    · cases decision : accepted operator with
      | false =>
        have declined : operand accepted next left (sign :: (after ++ rest)) =
            .ok none (sign :: (after ++ rest)) := by
          refine operand_eq_none.mpr ⟨rfl, fun found more same other stands => ?_⟩
          cases same
          rw [known] at stands
          cases stands
          exact decision
        refine ⟨left, sign :: after, bind_eq_ok.mpr ⟨none, _, declined, rfl⟩, ?_, Nat.le_refl _⟩
        exact .inr ⟨sign, operator, after, rfl, known, ⟨allowed, decision⟩, phrase⟩
      | true =>
        rw [List.length_cons] at short enough
        obtain ⟨right, following, taken, remaining, shorter⟩ := accepts phrase (by omega) stops
        have joined : operand accepted next left (sign :: (after ++ rest)) =
            .ok (some (.infixed operator left right sign.position.line)) (following ++ rest) :=
          operand_eq_some.mpr ⟨sign, _, operator, right, rfl, known, decision, taken, rfl⟩
        obtain ⟨term, final, repeated, remaining, fewer⟩ :=
          inductionHypothesis (.infixed operator left right sign.position.line) remaining
            (by omega) (by omega)
        refine ⟨term, final, bind_eq_ok.mpr ⟨_, _, joined, repeated⟩, remaining, ?_⟩
        rw [List.length_cons]
        omega

/-- A level takes the signs of its operators, so none of them is possible in what
it leaves. -/
theorem level_accepts (accepted : BinaryBuiltin → Bool) {next : Parser Term}
    {possible : BinaryBuiltin → Prop} (accepts : next.AcceptsOperand possible bound) :
    (level accepted next).AcceptsOperand
      (fun operator => possible operator ∧ accepted operator = false) bound := by
  intro tokens rest outline short stops
  obtain ⟨left, middle, taken, remaining, shorter⟩ := accepts outline short stops
  obtain ⟨term, final, repeated, remaining, fewer⟩ :=
    repeatWithin_operand_accepts accepts stops (middle ++ rest).length left remaining (by omega)
      (by simp)
  exact ⟨term, final, bind_eq_ok.mpr ⟨_, _, taken, repeated⟩, remaining, by omega⟩

/-- The loosest level leaves nothing, because every sign belongs to a level. -/
theorem comparison_accepts (accepts : inner.Accepts .phrase bound) :
    (comparison inner).Accepts .phrase (bound + 1) := by
  intro tokens rest outline short stops
  have products := level_accepts BinaryBuiltin.isMultiplicative (application_accepts accepts)
  have sums := level_accepts BinaryBuiltin.isAdditive products
  obtain ⟨term, left, taken, remaining, -⟩ :=
    level_accepts BinaryBuiltin.isComparison sums outline short stops
  obtain rfl | ⟨sign, operator, after, rfl, known, refused, -⟩ := remaining
  · exact ⟨term, taken⟩
  · have belongs := Token.operator_level known
    simp [refused] at belongs

/-- Induction on the depth. A phrase inside another one lacks at least the first
token, so it is short enough for the depth before. -/
theorem expressionWithin_accepts (depth : Nat) :
    (expressionWithin depth).Accepts .phrase depth := by
  induction depth with
  | zero =>
    intro tokens rest outline short stops
    obtain ⟨first, more, rfl, -⟩ := outline.phrase_beginsOperand
    simp at short
  | succ depth inductionHypothesis => exact comparison_accepts inductionHypothesis

/-- A phrase is accepted as an expression, however long it is. -/
theorem expression_accepts {tokens rest : List Located} (outline : Outline .phrase tokens)
    (stops : Stops rest) : ∃ term, expression (tokens ++ rest) = .ok term rest :=
  expressionWithin_accepts (tokens ++ rest).length outline (by simp) stops

end Parser

end Timbre
