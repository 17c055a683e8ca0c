import Timbre.Number.Literal
import Timbre.Token

/-!
# Lexemes at the front of a text

A cursor walks over a source text. Blanks, newlines and comments are layout and
are skipped; what follows them is the longest numeral, word or mark that begins
there. A character that begins none of these is an error and is passed over on
its own.

A numeral whose exponent has no digits is an error as well, unless its exponent
letter runs on into a word: `3else` is the number `3` followed by `else`.
-/

namespace Timbre

/-- A token with the text that it covers: its first byte, its place and its
characters. -/
structure Lexeme where
  token : Token
  text : List Char
  start : Nat
  position : Position
  deriving DecidableEq, Repr

namespace Lexeme

/-- The first byte after a lexeme. -/
def stop (lexeme : Lexeme) : Nat := lexeme.start + byteLength lexeme.text

/-- A lexeme without its text. -/
def located (lexeme : Lexeme) : Located := ⟨lexeme.token, lexeme.position⟩

end Lexeme

/-- Text that is no token. -/
inductive LexicalError where
  | unexpectedCharacter (character : Char) (position : Position)
  | malformedNumber (text : String) (position : Position)
  deriving DecidableEq, Repr

/-- How messages refer to a source text, which has no name of its own. -/
def sourceName : String := "<string>"

/-- The place that a message is about. -/
def messagePlace (position : Position) : String := sourceName ++ ":" ++ position.text ++ ": "

namespace LexicalError

/-- The text of a message. -/
def message : LexicalError → String
  | unexpectedCharacter character position =>
      messagePlace position ++ "unrecognized character '" ++ shownCharacter character ++ "'"
  | malformedNumber text position =>
      messagePlace position ++ "malformed number '" ++ text ++ "', expected digits in exponent"

end LexicalError

/-- What scanning finds: a lexeme, or text that is no token. -/
abbrev Item := Except LexicalError Lexeme

/-! ### Numerals, words and marks -/

/-- The digits of a numeral up to its exponent, and what follows them: digits
with an optional point and fraction, or a point and at least one digit. -/
def mantissa (text : List Char) : Option (List Char × List Char) :=
  let whole := text.takeWhile Char.isDigit
  match text.dropWhile Char.isDigit with
  | '.' :: rest =>
      let fraction := rest.takeWhile Char.isDigit
      if whole = [] ∧ fraction = [] then none
      else some (whole ++ '.' :: fraction, rest.dropWhile Char.isDigit)
  | rest => if whole = [] then none else some (whole, rest)

/-- The longest numeral at the front of a text. -/
inductive Numeral where
  /-- A numeral and the rest of the text. -/
  | complete (text rest : List Char)
  /-- A mantissa whose exponent letter and sign are followed by no digit. -/
  | cut (mantissa : List Char) (letter : Char) (sign rest : List Char)
  deriving DecidableEq, Repr

/-- The sign that may follow an exponent letter, and the rest. -/
def signText : List Char → List Char × List Char
  | '+' :: rest => (['+'], rest)
  | '-' :: rest => (['-'], rest)
  | rest => ([], rest)

/-- Extend a mantissa by the exponent that follows it. -/
def Numeral.extend (mantissa : List Char) : List Char → Numeral
  | [] => .complete mantissa []
  | letter :: rest =>
      if letter = 'e' ∨ letter = 'E' then
        let (sign, tail) := signText rest
        let digits := tail.takeWhile Char.isDigit
        if digits = [] then .cut mantissa letter sign tail
        else .complete (mantissa ++ letter :: sign ++ digits) (tail.dropWhile Char.isDigit)
      else .complete mantissa (letter :: rest)

/-- The longest numeral at the front of a text, if one is there. -/
def Numeral.front (text : List Char) : Option Numeral :=
  (mantissa text).map fun (digits, rest) => extend digits rest

/-- The characters of a word after its first letter. -/
def isWordCharacter (c : Char) : Bool := c.isAlphanum || c = '_'

/-- The longest mark at the front of a text. -/
def Mark.front (text : List Char) : Option Mark :=
  Mark.all.find? fun mark => mark.text.toList.isPrefixOf text

/-! ### Walking over the text -/

/-- A place in a source text with what is still to be read. -/
structure Cursor where
  rest : List Char
  offset : Nat
  position : Position
  deriving DecidableEq, Repr

namespace Cursor

/-- The cursor at the start of a source text. -/
def start (text : List Char) : Cursor := ⟨text, 0, Position.start⟩

/-- The cursor after reading `text`, which leaves `rest`. -/
def after (cursor : Cursor) (text rest : List Char) : Cursor :=
  ⟨rest, cursor.offset + byteLength text, cursor.position.advance text⟩

/-- The lexeme that begins at the cursor and covers `text`. -/
def lexeme (cursor : Cursor) (token : Token) (text : List Char) : Lexeme :=
  ⟨token, text, cursor.offset, cursor.position⟩

/-- The blanks between lexemes. -/
def isSpace (c : Char) : Bool := c = ' ' || c = '\t' || c = '\r' || c = '\x0c'

/-- Skip layout. Inside a comment everything up to the end of the line is
layout. -/
def skip (comment : Bool) (offset : Nat) (position : Position) : List Char → Cursor
  | [] => ⟨[], offset, position⟩
  | c :: rest =>
      if c = '\n' then skip false (offset + c.utf8Size) (position.step c) rest
      else if comment || isSpace c then
        skip comment (offset + c.utf8Size) (position.step c) rest
      else if c = '#' then skip true (offset + c.utf8Size) (position.step c) rest
      else ⟨c :: rest, offset, position⟩

/-- The cursor at the next character that is no layout. -/
def skipLayout (cursor : Cursor) : Cursor :=
  skip false cursor.offset cursor.position cursor.rest

/-- Read one lexeme that covers `text`. -/
def single (cursor : Cursor) (token : Token) (text rest : List Char) : List Item × Cursor :=
  ([.ok (cursor.lexeme token text)], cursor.after text rest)

/-- Read a numeral. A bare exponent letter that continues as a word is given
back as the first letter of that word. -/
def scanNumeral (cursor : Cursor) : Numeral → List Item × Cursor
  | .complete text rest => cursor.single (.number (numeralValue text)) text rest
  | .cut mantissa letter sign rest =>
      let run := rest.takeWhile isWordCharacter
      if sign = [] ∧ run ≠ [] then
        let next := cursor.after mantissa (letter :: rest)
        let word := letter :: run
        ([.ok (cursor.lexeme (.number (numeralValue mantissa)) mantissa),
            .ok (next.lexeme (.ofWord (String.ofList word)) word)],
          next.after word (rest.dropWhile isWordCharacter))
      else
        let text := mantissa ++ letter :: sign
        ([.error (.malformedNumber (String.ofList text) cursor.position)],
          cursor.after text rest)

/-- Read what stands at a cursor that is not at layout: nothing at the end of
the text, otherwise one item, or a number and the word it runs into. -/
def scanItem (cursor : Cursor) : List Item × Cursor :=
  match cursor.rest with
  | [] => ([], cursor)
  | c :: rest =>
      match Numeral.front (c :: rest) with
      | some numeral => cursor.scanNumeral numeral
      | none =>
          if c.isAlpha then
            let word := c :: rest.takeWhile isWordCharacter
            cursor.single (.ofWord (String.ofList word)) word (rest.dropWhile isWordCharacter)
          else
            match Mark.front (c :: rest) with
            | some mark =>
                let text := mark.text.toList
                cursor.single (.mark mark) text ((c :: rest).drop text.length)
            | none => ([.error (.unexpectedCharacter c cursor.position)], cursor.after [c] rest)

/-- Skip layout, then read. -/
def scan (cursor : Cursor) : List Item × Cursor := cursor.skipLayout.scanItem

end Cursor

end Timbre
