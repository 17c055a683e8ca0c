import Timbre.Number.Rounding

/-!
# Builtin operators

The operators that a program can name. Unary ones take one number and binary
ones two. Truth is the number one and falsehood is zero. Equality compares the
nearest whole numbers of its operands; the orderings compare the numbers as they
are.
-/

namespace Timbre

/-- Operators on one number. -/
inductive UnaryBuiltin where
  | sin | cos | exp | inv | abs | floor | round | ceil | sqrt
  deriving DecidableEq, Repr

/-- Operators on two numbers. -/
inductive BinaryBuiltin where
  | plus | minus | mult | divide | eq | neq | lt | lteq | gt | gteq | mod | pow
  deriving DecidableEq, Repr

/-- An operator as it is named in a program. -/
inductive Builtin where
  | unary (operator : UnaryBuiltin)
  | binary (operator : BinaryBuiltin)
  deriving DecidableEq, Repr

namespace UnaryBuiltin

/-- The word that names an operator. -/
def name : UnaryBuiltin → String
  | sin => "sin"
  | cos => "cos"
  | exp => "exp"
  | inv => "inv"
  | abs => "abs"
  | floor => "floor"
  | round => "round"
  | ceil => "ceil"
  | sqrt => "sqrt"

/-- All operators. -/
def all : List UnaryBuiltin := [sin, cos, exp, inv, abs, floor, round, ceil, sqrt]

/-- The value of an operator. `inv` is negation, and `round` takes halves away
from zero. -/
def apply (operator : UnaryBuiltin) (x : Float) : Float :=
  match operator with
  | sin => x.sin
  | cos => x.cos
  | exp => x.exp
  | inv => -x
  | abs => x.abs
  | floor => x.floor
  | round => x.round
  | ceil => x.ceil
  | sqrt => x.sqrt

end UnaryBuiltin

/-- The number that stands for a truth value. -/
def truth (condition : Bool) : Float := if condition then 1 else 0

namespace BinaryBuiltin

/-- The word that names an operator. -/
def name : BinaryBuiltin → String
  | plus => "plus"
  | minus => "minus"
  | mult => "mult"
  | divide => "divide"
  | eq => "eq"
  | neq => "neq"
  | lt => "lt"
  | lteq => "lteq"
  | gt => "gt"
  | gteq => "gteq"
  | mod => "mod"
  | pow => "pow"

/-- All operators. -/
def all : List BinaryBuiltin :=
  [plus, minus, mult, divide, eq, neq, lt, lteq, gt, gteq, mod, pow]

/-- The value of an operator. -/
def apply (operator : BinaryBuiltin) (a b : Float) : Float :=
  match operator with
  | plus => a + b
  | minus => a - b
  | mult => a * b
  | divide => a / b
  | eq => truth (nearestWhole a = nearestWhole b)
  | neq => truth (nearestWhole a ≠ nearestWhole b)
  | lt => truth (a < b)
  | lteq => truth (a ≤ b)
  | gt => truth (b < a)
  | gteq => truth (b ≤ a)
  | mod => remainder a b
  | pow => a.pow b

end BinaryBuiltin

namespace Builtin

/-- The word that names an operator. -/
def name : Builtin → String
  | unary operator => operator.name
  | binary operator => operator.name

/-- All operators. -/
def all : List Builtin := UnaryBuiltin.all.map unary ++ BinaryBuiltin.all.map binary

end Builtin

end Timbre
