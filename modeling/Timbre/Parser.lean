import Timbre.SyntaxError

/-!
# Parsers of token lists

A parser takes tokens from the front of a list. It answers with a value and the
tokens that are left, or with an error and the tokens that are left; a token
that was read and rejected is not left.

Loops carry a bound on the number of rounds. Each round takes at least one
token, so the number of tokens is a sufficient bound.
-/

namespace Timbre

/-- The answer of a parser. -/
inductive Reply (α : Type) where
  | ok (value : α) (rest : List Located)
  | error (reason : SyntaxError) (rest : List Located)
  deriving Repr

/-- The tokens that are left. -/
def Reply.rest {α : Type} : Reply α → List Located
  | ok _ rest => rest
  | error _ rest => rest

/-- A function from tokens to a reply. -/
def Parser (α : Type) : Type := List Located → Reply α

namespace Parser

variable {α β : Type}

/-- Run the second parser on what the first one leaves. -/
def andThen (first : Parser α) (next : α → Parser β) : Parser β := fun tokens =>
  match first tokens with
  | .ok value rest => next value rest
  | .error reason rest => .error reason rest

instance : Monad Parser where
  pure value := fun tokens => .ok value tokens
  bind := andThen

/-- Take one given token. -/
def expect (token : Token) : Parser Unit
  | [] => .error (.endOfInput (.token token)) []
  | found :: rest =>
      if found.token = token then .ok () rest
      else .error (.unexpected found (.token token)) rest

/-- Take a name that is not reserved, with its line. -/
def name : Parser (String × Nat)
  | [] => .error (.endOfInput .name) []
  | found :: rest =>
      match found.token, found.token.reservedWord with
      | .identifier name, _ => .ok (name, found.position.line) rest
      | _, some word => .error (.reserved word found.position) rest
      | _, none => .error (.unexpected found .name) rest

/-- Repeat a step until it declines, at most `rounds` times. -/
def repeatWithin (step : α → Parser (Option α)) : Nat → α → Parser α
  | 0, value => pure value
  | rounds + 1, value => do
      match ← step value with
      | none => return value
      | some next => repeatWithin step rounds next

/-- Repeat a step until it declines. -/
def repeatStep (step : α → Parser (Option α)) (value : α) : Parser α := fun tokens =>
  repeatWithin step tokens.length value tokens

/-- Take the comma before another item, or the token that closes a list; the
answer is whether another item follows. -/
def continues (closing : Token) : Parser Bool
  | [] => .error (.endOfInput (.token closing)) []
  | found :: rest =>
      if found.token = .mark .comma then .ok true rest
      else if found.token = closing then .ok false rest
      else .error (.unexpected found (.commaOr closing)) rest

/-- Items separated by commas and closed by a token, at most `rounds + 1` of
them. -/
def separatedWithin (item : Parser α) (closing : Token) : Nat → Parser (List α)
  | 0 => do
      let first ← item
      return [first]
  | rounds + 1 => do
      let first ← item
      if ← continues closing then
        let others ← separatedWithin item closing rounds
        return first :: others
      else return [first]

/-- One or more items separated by commas and closed by a token. -/
def separated (item : Parser α) (closing : Token) : Parser (List α) := fun tokens =>
  separatedWithin item closing tokens.length tokens

end Parser

end Timbre
