import Timbre.Builtin
import Timbre.Number.Shortest
import Timbre.Text

/-!
# Tokens

The words and marks that programs are made of. A word is a keyword, the name of
a builtin operator, or an identifier; the first two are reserved. Some marks
stand for binary operators between their operands.
-/

namespace Timbre

/-- Reserved words that shape an expression. -/
inductive Keyword where
  | caseWord | ofWord | endWord | ifWord | thenWord | elseWord | letWord | inWord
  deriving DecidableEq, Repr

namespace Keyword

/-- The spelling of a keyword. -/
def text : Keyword → String
  | caseWord => "case"
  | ofWord => "of"
  | endWord => "end"
  | ifWord => "if"
  | thenWord => "then"
  | elseWord => "else"
  | letWord => "let"
  | inWord => "in"

/-- All keywords. -/
def all : List Keyword :=
  [caseWord, ofWord, endWord, ifWord, thenWord, elseWord, letWord, inWord]

end Keyword

/-- Punctuation. -/
inductive Mark where
  | unequal | equal | atLeast | atMost | arrow
  | plus | minus | star | slash | assign | greater | less
  | openParen | closeParen | backslash | dot | comma | underscore
  deriving DecidableEq, Repr

namespace Mark

/-- The spelling of a mark. -/
def text : Mark → String
  | unequal => "=/="
  | equal => "=="
  | atLeast => ">="
  | atMost => "=<"
  | arrow => "->"
  | plus => "+"
  | minus => "-"
  | star => "*"
  | slash => "/"
  | assign => "="
  | greater => ">"
  | less => "<"
  | openParen => "("
  | closeParen => ")"
  | backslash => "\\"
  | dot => "."
  | comma => ","
  | underscore => "_"

/-- All marks, longer spellings before shorter ones, so that the first mark
found at the front of a text is the longest one there. -/
def all : List Mark :=
  [unequal, equal, atLeast, atMost, arrow, plus, minus, star, slash, assign, greater, less,
    openParen, closeParen, backslash, dot, comma, underscore]

/-- The binary operator that a mark stands for between two operands. -/
def operator : Mark → Option BinaryBuiltin
  | plus => some .plus
  | minus => some .minus
  | star => some .mult
  | slash => some .divide
  | equal => some .eq
  | unequal => some .neq
  | greater => some .gt
  | atLeast => some .gteq
  | less => some .lt
  | atMost => some .lteq
  | _ => none

end Mark

/-- The unit of a program's text. -/
inductive Token where
  | number (value : Float)
  | identifier (name : String)
  | builtin (operator : Builtin)
  | keyword (word : Keyword)
  | mark (mark : Mark)
  deriving DecidableEq, Repr

namespace Token

/-- The token that a word spells: reserved words come before identifiers. -/
def ofWord (word : String) : Token :=
  match Keyword.all.find? (·.text = word), Builtin.all.find? (·.name = word) with
  | some reserved, _ => .keyword reserved
  | none, some operator => .builtin operator
  | none, none => .identifier word

/-- The reserved word that a token is. -/
def reservedWord : Token → Option String
  | builtin operator => some operator.name
  | keyword word => some word.text
  | _ => none

/-- The binary operator that a token stands for between two operands. -/
def operator : Token → Option BinaryBuiltin
  | mark m => m.operator
  | _ => none

/-- Whether an operand may end with a token. A sign right after such a token is
an operator and never part of a number. -/
def endsOperand : Token → Bool
  | number _ | identifier _ | mark .closeParen | keyword .endWord => true
  | _ => false

/-- A token as messages name it. -/
def describe : Token → String
  | number value => "number " ++ numberText value
  | identifier name => "identifier '" ++ name ++ "'"
  | builtin operator => "'" ++ operator.name ++ "'"
  | keyword word => "'" ++ word.text ++ "'"
  | mark m => "'" ++ m.text ++ "'"

end Token

/-- A token and the place where it begins. -/
structure Located where
  token : Token
  position : Position
  deriving DecidableEq, Repr

end Timbre
