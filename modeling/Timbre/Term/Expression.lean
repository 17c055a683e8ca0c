import Timbre.Parser
import Timbre.Term

/-!
# Expressions

Comparisons bind loosest, then sums, then products, then application by
juxtaposition. All of them group to the left. A lambda extends as far to the
right as it can; the other compound forms end with a keyword or a parenthesis.

Application stops in front of a name that is followed by an equals sign, because
that name begins the next definition.

Nesting is bounded by the number of tokens: the parser of inner expressions is
an argument of each level, and it only sees what is left after a token was
taken.
-/

namespace Timbre

/-- Whether an argument may begin with a token. -/
def Token.startsAtom : Token → Bool
  | .number _ | .identifier _ | .builtin _ => true
  | .mark .openParen | .mark .backslash => true
  | .keyword .caseWord | .keyword .ifWord | .keyword .letWord => true
  | _ => false

/-- Whether a definition begins here: an identifier and an equals sign. -/
def startsDefinition : List Located → Bool
  | ⟨.identifier _, _⟩ :: ⟨.mark .assign, _⟩ :: _ => true
  | _ => false

/-- Operators of the loosest level. -/
def BinaryBuiltin.isComparison : BinaryBuiltin → Bool
  | eq | neq | lt | lteq | gt | gteq => true
  | _ => false

/-- Operators of the level of sums. -/
def BinaryBuiltin.isAdditive : BinaryBuiltin → Bool
  | plus | minus => true
  | _ => false

/-- Operators of the level of products. -/
def BinaryBuiltin.isMultiplicative : BinaryBuiltin → Bool
  | mult | divide => true
  | _ => false

namespace Parser

/-! ### Forms that begin with a token of their own

Each takes the parser of inner expressions and begins after its first token,
whose line it is given. -/

/-- A name, an equals sign and a body. -/
def definition (inner : Parser Term) : Parser Definition := do
  let (name, line) ← name
  expect (.mark .assign)
  let body ← inner
  return ⟨name, body, line⟩

/-- A number or the wildcard, with its line. -/
def pattern : Parser (Option Term × Nat)
  | [] => .error (.endOfInput .pattern) []
  | found :: rest =>
      let line := found.position.line
      match found.token with
      | .number value => .ok (some (.number value line), line) rest
      | .mark .underscore => .ok (none, line) rest
      | _ => .error (.unexpected found .pattern) rest

/-- A pattern, an arrow and a result. -/
def clause (inner : Parser Term) : Parser Clause := do
  let (pattern, line) ← pattern
  expect (.mark .arrow)
  let result ← inner
  return ⟨pattern, result, line⟩

/-- The rest of a parenthesized expression. -/
def parenthesized (inner : Parser Term) : Parser Term := do
  let term ← inner
  expect (.mark .closeParen)
  return term

/-- The rest of a lambda. -/
def lambda (inner : Parser Term) (line : Nat) : Parser Term := do
  let (parameter, _) ← name
  expect (.mark .dot)
  let body ← inner
  return .lambda parameter body line

/-- The rest of a conditional. -/
def conditional (inner : Parser Term) (line : Nat) : Parser Term := do
  let condition ← inner
  expect (.keyword .thenWord)
  let consequent ← inner
  expect (.keyword .elseWord)
  let alternative ← inner
  expect (.keyword .endWord)
  return .conditional condition consequent alternative line

/-- The rest of a selection. -/
def selection (inner : Parser Term) (line : Nat) : Parser Term := do
  let scrutinee ← inner
  expect (.keyword .ofWord)
  let clauses ← separated (clause inner) (.keyword .endWord)
  return .selection scrutinee clauses line

/-- The rest of a binding. -/
def binding (inner : Parser Term) (line : Nat) : Parser Term := do
  let definitions ← separated (definition inner) (.keyword .inWord)
  let body ← inner
  expect (.keyword .endWord)
  return .binding definitions body line

/-! ### Levels -/

/-- A term that needs no parentheses as an argument. -/
def atom (inner : Parser Term) : Parser Term
  | [] => .error (.endOfInput .expression) []
  | found :: rest =>
      let line := found.position.line
      match found.token with
      | .number value => .ok (.number value line) rest
      | .identifier name => .ok (.identifier name line) rest
      | .builtin operator => .ok (.builtin operator line) rest
      | .mark .openParen => parenthesized inner rest
      | .mark .backslash => lambda inner line rest
      | .keyword .caseWord => selection inner line rest
      | .keyword .ifWord => conditional inner line rest
      | .keyword .letWord => binding inner line rest
      | _ => .error (.unexpected found .expression) rest

/-- Apply a function to one more argument, on the line where the argument
begins, unless none follows. -/
def argument (inner : Parser Term) (function : Term) : Parser (Option Term)
  | [] => .ok none []
  | next :: rest =>
      if next.token.startsAtom && !startsDefinition (next :: rest) then
        (do
          let argument ← atom inner
          return some (.application function argument next.position.line) :
            Parser (Option Term)) (next :: rest)
      else .ok none (next :: rest)

/-- An atom applied to the atoms that follow it. -/
def application (inner : Parser Term) : Parser Term := do
  let function ← atom inner
  repeatStep (argument inner) function

/-- Join one more operand by an operator that `accepts` admits, on the line of
the operator, unless none follows. -/
def operand (accepts : BinaryBuiltin → Bool) (next : Parser Term) (left : Term) :
    Parser (Option Term)
  | [] => .ok none []
  | found :: rest =>
      match found.token.operator.filter accepts with
      | some operator =>
          (do
            let right ← next
            return some (.infixed operator left right found.position.line) :
              Parser (Option Term)) rest
      | none => .ok none (found :: rest)

/-- Operands joined by the operators of one level. -/
def level (accepts : BinaryBuiltin → Bool) (next : Parser Term) : Parser Term := do
  let first ← next
  repeatStep (operand accepts next) first

/-- Products and quotients. -/
def multiplicative (inner : Parser Term) : Parser Term :=
  level BinaryBuiltin.isMultiplicative (application inner)

/-- Sums and differences. -/
def additive (inner : Parser Term) : Parser Term :=
  level BinaryBuiltin.isAdditive (multiplicative inner)

/-- Comparisons. -/
def comparison (inner : Parser Term) : Parser Term :=
  level BinaryBuiltin.isComparison (additive inner)

/-- An expression with at most `depth` expressions inside one another. -/
def expressionWithin : Nat → Parser Term
  | 0 => fun tokens => .error (.endOfInput .expression) tokens
  | depth + 1 => comparison (expressionWithin depth)

/-- An expression. -/
def expression : Parser Term := fun tokens => expressionWithin tokens.length tokens

end Parser

end Timbre
