import Timbre.Number.Shortest
import Timbre.Term

/-!
# Values

What a term evaluates to. A closure remembers the scope it was made in. A binary
operator that has received one operand keeps that operand as a term, together
with the scope to evaluate it in, and evaluates it only when the other operand
arrives, each time anew.
-/

namespace Timbre

/-- A scope is the frame that was bound last; the empty scope has none. Frames
are numbered from zero. -/
abbrev Scope := Option Nat

/-- The result of evaluating a term. -/
inductive Value where
  | number (value : Float)
  | closure (parameter : String) (body : Term) (scope : Scope)
  | builtin (operator : Builtin)
  /-- A binary operator that has its first operand. -/
  | awaiting (operator : BinaryBuiltin) (operand : Term) (scope : Scope)
  deriving Repr

/-- The types of values, as far as messages tell them apart. -/
inductive Kind where
  | number | closure | builtin
  deriving DecidableEq, Repr

/-- The name of a type. -/
def Kind.name : Kind → String
  | number => "number"
  | closure => "closure"
  | builtin => "builtin"

namespace Value

/-- The type of a value. -/
def kind : Value → Kind
  | number _ => .number
  | closure .. => .closure
  | builtin _ | awaiting .. => .builtin

/-- The text of a value. -/
def text : Value → String
  | number value => numberText value
  | closure parameter _ _ => "<closure \\" ++ parameter ++ ">"
  | builtin operator => "<builtin " ++ operator.name ++ ">"
  | awaiting operator _ _ => "<builtin " ++ operator.name ++ " _>"

end Value

end Timbre
