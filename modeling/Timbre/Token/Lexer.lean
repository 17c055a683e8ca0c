import Timbre.Token.Scan

/-!
# The tokens of a source text

Two rules look beyond a single lexeme. A sign that cannot be an operator,
because no operand ends before it, joins a numeral that follows it directly.
After a backslash and a parameter, a numeral that begins with a point is the dot
of the lambda followed by the rest of the numeral.

The lexer delivers one item at a time. What it has scanned ahead waits in order
in `pending`. An error changes neither what is pending nor what the lexer
remembers about the token before.
-/

namespace Timbre

/-- What the two rules need to know about the tokens before. -/
structure Context where
  /-- The token before may end an operand. -/
  afterOperand : Bool
  /-- The token before is a backslash. -/
  afterBackslash : Bool
  /-- The tokens before are a backslash and an identifier. -/
  afterParameter : Bool
  deriving DecidableEq, Repr

namespace Context

/-- The context at the start of a text. -/
def start : Context := ⟨false, false, false⟩

/-- The context after one more token. -/
def after (context : Context) (token : Token) : Context where
  afterOperand := token.endsOperand
  afterBackslash := token = .mark .backslash
  afterParameter := context.afterBackslash &&
    match token with
    | .identifier _ => true
    | _ => false

end Context

/-- A source text that is being read token by token. -/
structure Lexer where
  cursor : Cursor
  /-- Items scanned but not delivered, the next one first. -/
  pending : List Item
  context : Context

namespace Lexer

/-- The lexer at the start of a source text. -/
def start (source : List Char) : Lexer := ⟨.start source, [], .start⟩

/-- The next scanned item, and the lexer without it. -/
def pull (lexer : Lexer) : Option (Item × Lexer) :=
  match lexer.pending with
  | item :: pending => some (item, { lexer with pending })
  | [] =>
      match lexer.cursor.scan with
      | ([], _) => none
      | (item :: pending, cursor) => some (item, { lexer with cursor, pending })

/-- Give an item back, to be delivered next. -/
def push (lexer : Lexer) (item : Item) : Lexer :=
  { lexer with pending := item :: lexer.pending }

/-- Join a sign with the numeral that follows it directly, if one does. -/
def foldSign (lexer : Lexer) (negative : Bool) (sign : Lexeme) : Lexeme × Lexer :=
  match lexer.pull with
  | none => (sign, lexer)
  | some (.ok ⟨.number value, text, start, position⟩, next) =>
      if start = sign.stop then
        ({ sign with
            token := .number (if negative then -value else value)
            text := sign.text ++ text }, next)
      else (sign, next.push (.ok ⟨.number value, text, start, position⟩))
  | some (item, next) => (sign, next.push item)

/-- Take the point off a numeral that begins with one; the rest of the numeral
is delivered next. -/
def splitDot (lexer : Lexer) (numeral : Lexeme) : Lexeme × Lexer :=
  let digits := numeral.text.tail
  ({ numeral with token := .mark .dot, text := ['.'] },
    lexer.push (.ok {
      token := .number (numeralValue digits)
      text := digits
      start := numeral.start + byteLength ['.']
      position := numeral.position.step '.' }))

/-- Apply the two rules to a lexeme that is about to be delivered. -/
def settle (lexer : Lexer) (lexeme : Lexeme) : Lexeme × Lexer :=
  match lexeme.token with
  | .mark .plus =>
      if lexer.context.afterOperand then (lexeme, lexer) else lexer.foldSign false lexeme
  | .mark .minus =>
      if lexer.context.afterOperand then (lexeme, lexer) else lexer.foldSign true lexeme
  | .number _ =>
      if lexer.context.afterParameter && lexeme.text.head? = some '.' then
        lexer.splitDot lexeme
      else (lexeme, lexer)
  | _ => (lexeme, lexer)

/-- The next item of the text, if there is one, and the lexer after it. -/
def next (lexer : Lexer) : Option (Item × Lexer) :=
  match lexer.pull with
  | none => none
  | some (.error e, rest) => some (.error e, rest)
  | some (.ok lexeme, rest) =>
      let (settled, rest) := rest.settle lexeme
      some (.ok settled, { rest with context := rest.context.after settled.token })

/-- The items that are left, at most `bound` of them. -/
def itemsWithin : Nat → Lexer → List Item
  | 0, _ => []
  | bound + 1, lexer =>
      match lexer.next with
      | none => []
      | some (item, rest) => item :: itemsWithin bound rest

end Lexer

/-- The items of a source text, past errors. Each covers at least one
character. -/
def lexItems (source : String) : List Item :=
  let text := source.toList
  (Lexer.start text).itemsWithin text.length

/-- The lexemes of a source text, or the first error in it. -/
def lexemes (source : String) : Except LexicalError (List Lexeme) := (lexItems source).mapM id

/-- The tokens of a source text, or the first error in it. -/
def tokenize (source : String) : Except LexicalError (List Located) :=
  (lexemes source).map (·.map Lexeme.located)

end Timbre
