import Timbre.Builtin

/-!
# Terms

The expressions of the language. Every node keeps the line that messages about
it refer to. An infix operator is the curried application of a builtin, so terms
have no node for it.

Clauses select by number: a pattern is a term that stands for one, or absent for
the wildcard, which matches everything. A source text can only spell numerals
as patterns.
-/

namespace Timbre

/-- One clause of a selection, over the type of its terms. -/
structure ClauseOf (τ : Type) where
  /-- What to match; the wildcard has none. -/
  pattern : Option τ
  result : τ
  line : Nat
  deriving Repr

/-- A name for a term, over the type of its body. -/
structure DefinitionOf (τ : Type) where
  name : String
  body : τ
  line : Nat
  deriving Repr

/-- An expression. -/
inductive Term where
  | number (value : Float) (line : Nat)
  | builtin (operator : Builtin) (line : Nat)
  | identifier (name : String) (line : Nat)
  /-- `\parameter. body` -/
  | lambda (parameter : String) (body : Term) (line : Nat)
  | application (function argument : Term) (line : Nat)
  /-- `if condition then consequent else alternative end` -/
  | conditional (condition consequent alternative : Term) (line : Nat)
  /-- `case scrutinee of clauses end` -/
  | selection (scrutinee : Term) (clauses : List (ClauseOf Term)) (line : Nat)
  /-- `let definitions in body end`; each definition sees the ones before it. -/
  | binding (definitions : List (DefinitionOf Term)) (body : Term) (line : Nat)
  deriving Repr

/-- One clause of a selection. -/
abbrev Clause := ClauseOf Term

/-- A name for a term. -/
abbrev Definition := DefinitionOf Term

namespace Term

/-- The parameter and the body of a lambda. -/
def asLambda : Term → Option (String × Term)
  | lambda parameter body _ => some (parameter, body)
  | _ => none

/-- The two parameters and the inner body of nested lambdas: a waveform is a
function of frequency and time. -/
def asWaveform (term : Term) : Option (String × String × Term) :=
  match term with
  | lambda frequency (lambda time body _) _ => some (frequency, time, body)
  | _ => none

/-- A binary operator between two operands, on the line of the operator. -/
def infixed (operator : BinaryBuiltin) (left right : Term) (line : Nat) : Term :=
  application (application (builtin (.binary operator) line) left line) right line

end Term

end Timbre
