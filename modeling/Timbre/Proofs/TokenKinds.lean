import Timbre.Proofs.Acceptance
import Timbre.Proofs.Printing

/-!
# Tokens in other places

What can be derived from tokens does not depend on where they stand: the same tokens
in other places have a derivation of the same shape. So the parser accepts them too,
and reads the same statements up to the lines.
-/

namespace Timbre

/-- A statement without its lines. -/
def Statement.unplaced (statement : Statement) : Statement := statement.onLines fun _ => 0

/-- Everything moves to one place. -/
def Relocation.together : Relocation := ⟨fun _ => ⟨0, 0⟩, fun _ => 0, fun _ => rfl⟩

/-- Tokens that are moved to one place differ by their kinds only. -/
theorem Relocation.together_tokens (tokens : List Located) :
    together.tokens tokens = (tokens.map Located.token).map (⟨·, ⟨0, 0⟩⟩) := by
  rw [List.map_map]
  rfl

namespace Grammar

open Timbre.Parser (map_token_eq_cons)

variable {others : List Located}

/-- The same tokens in other places are derived from the same symbols. -/
theorem Derives.elsewhere {symbol : Symbol} {tokens : List Located} {tree : symbol.Tree}
    (derived : Derives symbol tokens tree)
    (same : others.map Located.token = tokens.map Located.token) :
    ∃ other, Derives symbol others other := by
  induction derived generalizing others with
  | operand _ first =>
    obtain ⟨_, derived⟩ := first same
    exact ⟨_, .operand derived⟩
  | joined _ listed _ _ first second =>
    simp only [List.map_append, List.map_cons, List.map_eq_append_iff, map_token_eq_cons] at same
    obtain ⟨_, _, rfl, before, p, _, rfl, after⟩ := same
    obtain ⟨_, left⟩ := first before
    obtain ⟨_, right⟩ := second after
    exact ⟨_, .joined p listed left right⟩
  | function _ first =>
    obtain ⟨_, derived⟩ := first same
    exact ⟨_, .function derived⟩
  | applied _ _ _ first second =>
    simp only [List.map_append, List.map_eq_append_iff] at same
    obtain ⟨_, _, rfl, before, after⟩ := same
    obtain ⟨_, function⟩ := first before
    obtain ⟨_, argument⟩ := second after
    obtain ⟨start, more, rfl⟩ := List.exists_cons_of_ne_nil argument.nonempty
    exact ⟨_, .applied start function argument⟩
  | number value _ =>
    simp only [List.map_cons, List.map_nil, List.map_eq_nil_iff, map_token_eq_cons] at same
    obtain ⟨p, _, rfl, rfl⟩ := same
    exact ⟨_, .number value p⟩
  | identifier name _ =>
    simp only [List.map_cons, List.map_nil, List.map_eq_nil_iff, map_token_eq_cons] at same
    obtain ⟨p, _, rfl, rfl⟩ := same
    exact ⟨_, .identifier name p⟩
  | builtin operator _ =>
    simp only [List.map_cons, List.map_nil, List.map_eq_nil_iff, map_token_eq_cons] at same
    obtain ⟨p, _, rfl, rfl⟩ := same
    exact ⟨_, .builtin operator p⟩
  | parenthesized _ _ _ inner =>
    simp only [List.cons_append, List.map_cons, List.map_append, List.map_nil, List.map_eq_nil_iff,
      List.map_eq_append_iff, map_token_eq_cons] at same
    obtain ⟨p, _, rfl, _, _, rfl, expression, q, _, rfl, rfl⟩ := same
    obtain ⟨_, derived⟩ := inner expression
    exact ⟨_, .parenthesized p q derived⟩
  | lambda name _ _ _ _ inner =>
    simp only [List.map_cons, map_token_eq_cons] at same
    obtain ⟨p, _, rfl, q, _, rfl, r, _, rfl, expression⟩ := same
    obtain ⟨_, derived⟩ := inner expression
    exact ⟨_, .lambda name p q r derived⟩
  | selection _ _ _ _ _ inner listed =>
    simp only [List.cons_append, List.append_assoc, List.map_cons, List.map_append, List.map_nil,
      List.map_eq_nil_iff, List.map_eq_append_iff, map_token_eq_cons] at same
    obtain ⟨p, _, rfl, _, _, rfl, expression, q, _, rfl, _, _, rfl, choices, r, _, rfl, rfl⟩ := same
    obtain ⟨_, scrutinee⟩ := inner expression
    obtain ⟨_, clauses⟩ := listed choices
    have derived := Derives.selection p q r scrutinee clauses
    simp only [List.cons_append, List.append_assoc] at derived
    exact ⟨_, derived⟩
  | conditional _ _ _ _ _ _ _ tested first second =>
    simp only [List.cons_append, List.append_assoc, List.map_cons, List.map_append, List.map_nil,
      List.map_eq_nil_iff, List.map_eq_append_iff, map_token_eq_cons] at same
    obtain ⟨p, _, rfl, _, _, rfl, decision, q, _, rfl, _, _, rfl, positive, r, _, rfl, _, _, rfl,
      negative, s, _, rfl, rfl⟩ := same
    obtain ⟨_, condition⟩ := tested decision
    obtain ⟨_, consequent⟩ := first positive
    obtain ⟨_, alternative⟩ := second negative
    have derived := Derives.conditional p q r s condition consequent alternative
    simp only [List.cons_append, List.append_assoc] at derived
    exact ⟨_, derived⟩
  | binding _ _ _ _ _ listed inner =>
    simp only [List.cons_append, List.append_assoc, List.map_cons, List.map_append, List.map_nil,
      List.map_eq_nil_iff, List.map_eq_append_iff, map_token_eq_cons] at same
    obtain ⟨p, _, rfl, _, _, rfl, bound, q, _, rfl, _, _, rfl, expression, r, _, rfl, rfl⟩ := same
    obtain ⟨_, definitions⟩ := listed bound
    obtain ⟨_, body⟩ := inner expression
    have derived := Derives.binding p q r definitions body
    simp only [List.cons_append, List.append_assoc] at derived
    exact ⟨_, derived⟩
  | numbered value _ _ _ inner =>
    simp only [List.map_cons, map_token_eq_cons] at same
    obtain ⟨p, _, rfl, q, _, rfl, expression⟩ := same
    obtain ⟨_, derived⟩ := inner expression
    exact ⟨_, .numbered value p q derived⟩
  | wildcard _ _ _ inner =>
    simp only [List.map_cons, map_token_eq_cons] at same
    obtain ⟨p, _, rfl, q, _, rfl, expression⟩ := same
    obtain ⟨_, derived⟩ := inner expression
    exact ⟨_, .wildcard p q derived⟩
  | lastClause _ last =>
    obtain ⟨_, derived⟩ := last same
    exact ⟨_, .lastClause derived⟩
  | moreClauses _ _ _ one more =>
    simp only [List.map_append, List.map_cons, List.map_eq_append_iff, map_token_eq_cons] at same
    obtain ⟨_, _, rfl, before, p, _, rfl, after⟩ := same
    obtain ⟨_, first⟩ := one before
    obtain ⟨_, rest⟩ := more after
    exact ⟨_, .moreClauses p first rest⟩
  | named name _ _ _ inner =>
    simp only [List.map_cons, map_token_eq_cons] at same
    obtain ⟨p, _, rfl, q, _, rfl, expression⟩ := same
    obtain ⟨_, derived⟩ := inner expression
    exact ⟨_, .named name p q derived⟩
  | lastDefinition _ last =>
    obtain ⟨_, derived⟩ := last same
    exact ⟨_, .lastDefinition derived⟩
  | moreDefinitions _ _ _ one more =>
    simp only [List.map_append, List.map_cons, List.map_eq_append_iff, map_token_eq_cons] at same
    obtain ⟨_, _, rfl, before, p, _, rfl, after⟩ := same
    obtain ⟨_, first⟩ := one before
    obtain ⟨_, rest⟩ := more after
    exact ⟨_, .moreDefinitions p first rest⟩

/-- Tokens of the same kinds, wherever they are, are a statement as well. -/
theorem DerivesStatement.elsewhere {tokens : List Located} {statement : Statement}
    (derived : DerivesStatement tokens statement)
    (same : others.map Located.token = tokens.map Located.token) :
    ∃ other, DerivesStatement others other := by
  cases derived with
  | definition derived =>
    obtain ⟨_, again⟩ := derived.elsewhere same
    exact ⟨_, .definition again⟩
  | expression start derived =>
    obtain ⟨_, again⟩ := derived.elsewhere same
    obtain ⟨first, more, rfl⟩ := List.exists_cons_of_ne_nil again.nonempty
    exact ⟨_, .expression first again⟩

/-- Tokens of the same kinds, wherever they are, are a program as well. -/
theorem DerivesProgram.elsewhere {tokens : List Located} {statements : List Statement}
    (derived : DerivesProgram tokens statements)
    (same : others.map Located.token = tokens.map Located.token) :
    ∃ other, DerivesProgram others other := by
  induction derived generalizing others with
  | empty =>
    obtain rfl := List.map_eq_nil_iff.mp same
    exact ⟨_, .empty⟩
  | next first _ inductionHypothesis =>
    simp only [List.map_append, List.map_eq_append_iff] at same
    obtain ⟨_, _, rfl, before, after⟩ := same
    obtain ⟨_, statement⟩ := first.elsewhere before
    obtain ⟨_, rest⟩ := inductionHypothesis after
    exact ⟨_, .next statement rest⟩
  | nextComma _ first _ inductionHypothesis =>
    simp only [List.map_append, List.map_cons, List.map_eq_append_iff, map_token_eq_cons] at same
    obtain ⟨_, _, rfl, before, p, _, rfl, after⟩ := same
    obtain ⟨_, statement⟩ := first.elsewhere before
    obtain ⟨_, rest⟩ := inductionHypothesis after
    exact ⟨_, .nextComma p statement rest⟩

end Grammar

/-- The same tokens in other places are read as the same statements up to their
lines. -/
theorem Parser.statements_elsewhere {tokens others rest : List Located} {found : List Statement}
    (succeeded : statements tokens = .ok found rest)
    (same : others.map Located.token = tokens.map Located.token) :
    ∃ again, statements others = .ok again [] ∧
      again.map Statement.unplaced = found.map Statement.unplaced := by
  obtain ⟨_, derived⟩ := (statements_derives succeeded).2.elsewhere same
  obtain ⟨again, accepted⟩ := statementsWithin_accepts (Nat.le_refl _) derived
  refine ⟨again, accepted, ?_⟩
  -- In one place, the two lists of tokens are the same list.
  have first := statements_moved .together succeeded
  have second := statements_moved .together accepted
  rw [Relocation.together_tokens, same, ← Relocation.together_tokens, first] at second
  exact (Reply.ok.inj second).1.symm

end Timbre
