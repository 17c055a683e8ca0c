/-!
# Texts

A position in a source text is a line and a column, both counted from one.
Columns count the bytes of the UTF-8 encoding, so a character may be up to four
columns wide. Only a newline ends a line.

A character that was not understood is shown between quotes. Printable
characters stand for themselves, quotes and the backslash get a backslash, and
all others are named by their code point.

Blank characters are those with the Unicode property White_Space, which may
surround a note name.
-/

namespace Timbre

/-! ### Positions -/

/-- A place in a source text. -/
structure Position where
  line : Nat
  column : Nat
  deriving DecidableEq, Repr

namespace Position

/-- The place of the first character. -/
def start : Position := ⟨1, 1⟩

/-- The place after one character. -/
def step (p : Position) (c : Char) : Position :=
  if c = '\n' then ⟨p.line + 1, 1⟩ else ⟨p.line, p.column + c.utf8Size⟩

/-- The place after a text that begins at `p`. -/
def advance (p : Position) (text : List Char) : Position := text.foldl step p

/-- The text `line:column`. -/
def text (p : Position) : String := toString p.line ++ ":" ++ toString p.column

end Position

/-- The place just past the last character of a source text. -/
def endPosition (source : String) : Position := Position.start.advance source.toList

/-- The number of bytes that encode a text. -/
def byteLength : List Char → Nat
  | [] => 0
  | c :: rest => c.utf8Size + byteLength rest

/-! ### Characters in messages -/

/-- The code point in lower-case hexadecimal digits. -/
def hexadecimal (c : Char) : String := String.ofList (Nat.toDigits 16 c.toNat)

/-- A character as it is shown between quotes. -/
def shownCharacter (c : Char) : String :=
  match c with
  | '\t' => "\\t"
  | '\r' => "\\r"
  | '\n' => "\\n"
  | '\'' => "\\'"
  | '"' => "\\\""
  | '\\' => "\\\\"
  | _ =>
      if 0x20 ≤ c.toNat ∧ c.toNat ≤ 0x7E then String.singleton c
      else "\\u\x7b" ++ hexadecimal c ++ "\x7d"

/-! ### Blanks -/

/-- The blank characters as inclusive ranges of code points, in ascending
order. -/
def blankRanges : List (Nat × Nat) :=
  [(0x9, 0xD), (0x20, 0x20), (0x85, 0x85), (0xA0, 0xA0), (0x1680, 0x1680),
    (0x2000, 0x200A), (0x2028, 0x2029), (0x202F, 0x202F), (0x205F, 0x205F),
    (0x3000, 0x3000)]

/-- Whether a character is blank. -/
def isBlank (c : Char) : Bool :=
  blankRanges.any fun (first, last) => first ≤ c.toNat ∧ c.toNat ≤ last

/-- Remove the blanks around a text. -/
def trimBlanks (text : List Char) : List Char :=
  ((text.dropWhile isBlank).reverse.dropWhile isBlank).reverse

end Timbre
