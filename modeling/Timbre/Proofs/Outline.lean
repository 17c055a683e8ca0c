import Timbre.Proofs.Grammar

/-!
# Expressions from left to right

The lists of tokens that the grammar derives from an expression, in a form that
follows the tokens and leaves out what they stand for. A phrase is a lambda up to
the end, or a unit and a tail. A unit is an atom that has an end of its own. A
tail is empty, a phrase, or a sign and a phrase.

This form is not ambiguous about where a lambda or an application ends: both take
in all that follows. Every derivation has an outline, because a tail can be
appended to a phrase, also to a phrase that ends in a lambda.
-/

namespace Timbre.Grammar

/-- What stands in a list between commas. -/
inductive Entry where
  | clause | definition

/-- The parts of an outline. -/
inductive Part where
  | phrase
  | tail
  | unit
  | entry (kind : Entry)
  | entries (kind : Entry)

/-- A list of tokens has the outline of a part. -/
inductive Outline : Part → List Located → Prop where
  | follow {before after : List Located} (first : Outline .unit before)
      (rest : Outline .tail after) : Outline .phrase (before ++ after)
  | lambda {inner : List Located} (name : String) (p q r : Position)
      (body : Outline .phrase inner) :
      Outline .phrase
        (⟨.mark .backslash, p⟩ :: ⟨.identifier name, q⟩ :: ⟨.mark .dot, r⟩ :: inner)
  | done : Outline .tail []
  | beside {after : List Located} (rest : Outline .phrase after) : Outline .tail after
  | joined {after : List Located} {sign : Located} {operator : BinaryBuiltin}
      (known : sign.token.operator = some operator) (rest : Outline .phrase after) :
      Outline .tail (sign :: after)
  | number (value : Float) (p : Position) : Outline .unit [⟨.number value, p⟩]
  | identifier (name : String) (p : Position) : Outline .unit [⟨.identifier name, p⟩]
  | builtin (operator : Builtin) (p : Position) : Outline .unit [⟨.builtin operator, p⟩]
  | parenthesized {inner : List Located} (p q : Position) (expression : Outline .phrase inner) :
      Outline .unit (⟨.mark .openParen, p⟩ :: inner ++ [⟨.mark .closeParen, q⟩])
  | selection {inner listed : List Located} (p q r : Position)
      (scrutinee : Outline .phrase inner) (clauses : Outline (.entries .clause) listed) :
      Outline .unit
        (⟨.keyword .caseWord, p⟩ :: inner ++ ⟨.keyword .ofWord, q⟩ :: listed ++
          [⟨.keyword .endWord, r⟩])
  | conditional {tested first second : List Located} (p q r s : Position)
      (decision : Outline .phrase tested) (positive : Outline .phrase first)
      (negative : Outline .phrase second) :
      Outline .unit
        (⟨.keyword .ifWord, p⟩ :: tested ++ ⟨.keyword .thenWord, q⟩ :: first ++
          ⟨.keyword .elseWord, r⟩ :: second ++ [⟨.keyword .endWord, s⟩])
  | binding {listed inner : List Located} (p q r : Position)
      (definitions : Outline (.entries .definition) listed) (body : Outline .phrase inner) :
      Outline .unit
        (⟨.keyword .letWord, p⟩ :: listed ++ ⟨.keyword .inWord, q⟩ :: inner ++
          [⟨.keyword .endWord, r⟩])
  | numbered {inner : List Located} (value : Float) (p q : Position)
      (result : Outline .phrase inner) :
      Outline (.entry .clause) (⟨.number value, p⟩ :: ⟨.mark .arrow, q⟩ :: inner)
  | wildcard {inner : List Located} (p q : Position) (result : Outline .phrase inner) :
      Outline (.entry .clause) (⟨.mark .underscore, p⟩ :: ⟨.mark .arrow, q⟩ :: inner)
  | named {inner : List Located} (name : String) (p q : Position)
      (body : Outline .phrase inner) :
      Outline (.entry .definition) (⟨.identifier name, p⟩ :: ⟨.mark .assign, q⟩ :: inner)
  | last {kind : Entry} {tokens : List Located} (only : Outline (.entry kind) tokens) :
      Outline (.entries kind) tokens
  | more {kind : Entry} {before after : List Located} (p : Position)
      (first : Outline (.entry kind) before) (rest : Outline (.entries kind) after) :
      Outline (.entries kind) (before ++ ⟨.mark .comma, p⟩ :: after)

/-! ### Derivations have outlines -/

/-- A tail can be appended to a phrase and to a tail. -/
theorem Outline.append_tail {part : Part} {tokens after : List Located}
    (outline : Outline part tokens) (rest : Outline .tail after)
    (extensible : part = .phrase ∨ part = .tail) : Outline part (tokens ++ after) := by
  induction outline with
  | follow first following _ inductionHypothesis =>
    rw [List.append_assoc]
    exact .follow first (inductionHypothesis (.inr rfl))
  | lambda name p q r body inductionHypothesis =>
    exact .lambda name p q r (inductionHypothesis (.inl rfl))
  | done => exact rest
  | beside following inductionHypothesis => exact .beside (inductionHypothesis (.inl rfl))
  | joined known following inductionHypothesis =>
    exact .joined known (inductionHypothesis (.inl rfl))
  | _ => simp at extensible

/-- The part that a symbol derives. -/
def Symbol.part : Symbol → Part
  | term _ => .phrase
  | clause => .entry .clause
  | clauses => .entries .clause
  | definition => .entry .definition
  | definitions => .entries .definition

/-- A sign of a level stands for its operator. -/
theorem Precedence.sign_operator {level : Precedence} {sign : Mark} {operator : BinaryBuiltin}
    (listed : (sign, operator) ∈ level.signs) : sign.operator = some operator := by
  cases level <;> simp [signs] at listed <;> grind [Mark.operator]

/-- A unit alone is a phrase. -/
theorem Outline.phrase {tokens : List Located} (only : Outline .unit tokens) :
    Outline .phrase tokens := by
  simpa using Outline.follow only .done

/-- What a derivation uses is laid out from left to right. -/
theorem Derives.outline {symbol : Symbol} {tokens : List Located} {tree : symbol.Tree}
    (derived : Derives symbol tokens tree) : Outline symbol.part tokens := by
  induction derived with
  | operand first inductionHypothesis => exact inductionHypothesis
  | function first inductionHypothesis => exact inductionHypothesis
  | joined p listed first second left right =>
    exact left.append_tail (.joined (Precedence.sign_operator listed) right) (.inl rfl)
  | applied start first second left right =>
    exact left.append_tail (.beside right) (.inl rfl)
  | number value p => exact (Outline.number value p).phrase
  | identifier name p => exact (Outline.identifier name p).phrase
  | builtin operator p => exact (Outline.builtin operator p).phrase
  | parenthesized p q expression inner => exact (Outline.parenthesized p q inner).phrase
  | lambda name p q r expression inner => exact .lambda name p q r inner
  | selection p q r expression choices inner listed =>
    exact (Outline.selection p q r inner listed).phrase
  | conditional p q r s decision positive negative tested first second =>
    exact (Outline.conditional p q r s tested first second).phrase
  | binding p q r bound expression listed inner =>
    exact (Outline.binding p q r listed inner).phrase
  | numbered value p q expression inner => exact .numbered value p q inner
  | wildcard p q expression inner => exact .wildcard p q inner
  | lastClause last inductionHypothesis => exact .last inductionHypothesis
  | moreClauses p first rest one others => exact .more p one others
  | named name p q expression inner => exact .named name p q inner
  | lastDefinition last inductionHypothesis => exact .last inductionHypothesis
  | moreDefinitions p first rest one others => exact .more p one others

/-! ### First tokens -/

/-- No equals sign is next. -/
def Unassigned (tokens : List Located) : Prop :=
  ∀ p after, tokens ≠ ⟨.mark .assign, p⟩ :: after

/-- No part begins with an equals sign. -/
theorem Outline.unassigned {part : Part} {tokens rest : List Located}
    (outline : Outline part tokens) (next : Unassigned rest) : Unassigned (tokens ++ rest) := by
  induction outline generalizing rest with
  | follow first following left right =>
    rw [List.append_assoc]
    exact left (right next)
  | done => exact next
  | beside following inductionHypothesis => exact inductionHypothesis next
  | joined known following =>
    intro p after same
    cases same
    cases known
  | last only inductionHypothesis => exact inductionHypothesis next
  | more p first following left right =>
    rw [List.append_assoc]
    apply left
    intro q after same
    cases same
  | _ =>
    intro p after same
    cases same

/-- The first token may begin an argument, and no equals sign is after it, unless
one comes after all of the tokens. -/
def BeginsOperand (tokens : List Located) : Prop :=
  ∃ first more, tokens = first :: more ∧ first.token.startsAtom = true ∧
    ∀ rest, Unassigned rest → Unassigned (more ++ rest)

/-- After a first token that may begin an argument comes a part and a closing
token. -/
theorem Outline.beginsOperand {part : Part} {inner after : List Located} {first closing : Located}
    (outline : Outline part inner) (starts : first.token.startsAtom = true)
    (different : closing.token ≠ .mark .assign) :
    BeginsOperand (first :: (inner ++ closing :: after)) := by
  refine ⟨first, _, rfl, starts, ?_⟩
  intro rest _
  rw [List.append_assoc]
  apply outline.unassigned
  intro p others same
  cases same
  exact different rfl

/-- A unit begins an operand. -/
theorem Outline.unit_beginsOperand {tokens : List Located} (outline : Outline .unit tokens) :
    BeginsOperand tokens := by
  cases outline with
  | number value p => exact ⟨_, [], rfl, rfl, fun rest next => next⟩
  | identifier name p => exact ⟨_, [], rfl, rfl, fun rest next => next⟩
  | builtin operator p => exact ⟨_, [], rfl, rfl, fun rest next => next⟩
  | parenthesized p q expression => exact expression.beginsOperand rfl (by simp)
  | selection p q r scrutinee clauses =>
    simp only [List.cons_append, List.append_assoc]
    exact scrutinee.beginsOperand rfl (by simp)
  | conditional p q r s decision positive negative =>
    simp only [List.cons_append, List.append_assoc]
    exact decision.beginsOperand rfl (by simp)
  | binding p q r definitions body =>
    simp only [List.cons_append, List.append_assoc]
    exact definitions.beginsOperand rfl (by simp)

/-- A phrase begins an operand, since its first unit does. -/
theorem Outline.phrase_beginsOperand {tokens : List Located} (outline : Outline .phrase tokens) :
    BeginsOperand tokens := by
  cases outline with
  | follow first following =>
    obtain ⟨start, more, rfl, starts, unassigned⟩ := first.unit_beginsOperand
    rw [List.cons_append]
    refine ⟨start, _, rfl, starts, ?_⟩
    intro rest next
    rw [List.append_assoc]
    exact unassigned _ (following.unassigned next)
  | lambda name p q r body =>
    refine ⟨_, _, rfl, rfl, ?_⟩
    intro rest _ s after same
    cases same

end Timbre.Grammar
