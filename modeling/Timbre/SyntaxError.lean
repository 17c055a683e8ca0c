import Timbre.Token.Scan

/-!
# Syntax errors

A token where another one was required, the end of the input where one was
required, or a reserved word where a name was required. The first and the last
are about a token that was read; the second has no place of its own, so a
message about it takes the place where the input ends.
-/

namespace Timbre

/-- What could have come instead. -/
inductive Expectation where
  | expression
  | name
  | pattern
  | token (token : Token)
  /-- Another item of a list, or the token that closes it. -/
  | commaOr (closing : Token)
  deriving DecidableEq, Repr

/-- What could have come instead, in words. -/
def Expectation.describe : Expectation → String
  | expression => "an expression"
  | name => "a name"
  | pattern => "a number or '_'"
  | token t => t.describe
  | commaOr closing => "',' or " ++ closing.describe

/-- Why a list of tokens is not what was asked for. -/
inductive SyntaxError where
  | unexpected (found : Located) (expected : Expectation)
  | endOfInput (expected : Expectation)
  | reserved (word : String) (position : Position)
  deriving DecidableEq, Repr

namespace SyntaxError

/-- The place that an error is about, in an input that ends at `stop`. -/
def position (stop : Position) : SyntaxError → Position
  | unexpected found _ => found.position
  | endOfInput _ => stop
  | reserved _ position => position

/-- What is wrong, without the place. -/
def describe : SyntaxError → String
  | unexpected found expected =>
      "unexpected " ++ found.token.describe ++ ", expected " ++ expected.describe
  | endOfInput expected => "unexpected end of input, expected " ++ expected.describe
  | reserved word _ => "'" ++ word ++ "' is reserved and cannot be used as a name"

/-- The text of a message, for an input that ends at `stop`. -/
def message (stop : Position) (e : SyntaxError) : String :=
  messagePlace (e.position stop) ++ "syntax error: " ++ e.describe

end SyntaxError

end Timbre
