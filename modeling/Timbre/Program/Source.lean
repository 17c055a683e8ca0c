import Timbre.Fault
import Timbre.Program
import Timbre.Term.Expression
import Timbre.Token.Lexer

/-!
# Programs from source texts

Statements follow one another, each with an optional comma after it. A statement
is a definition when it begins with a name and an equals sign; a reserved word
in place of the name is refused as a name rather than read as an expression.

The whole text is cut into tokens first, so an error there comes before every
syntax error. A syntax error at the end of the input is placed just past the
last character.
-/

namespace Timbre

/-- Why a source text is not a program. -/
inductive ParseError where
  | lexical (reason : LexicalError)
  /-- A syntax error, in a text that ends at `stop`. -/
  | syntactic (reason : SyntaxError) (stop : Position)
  deriving DecidableEq, Repr

/-- The text of a message. -/
def ParseError.message : ParseError → String
  | lexical reason => reason.message
  | syntactic reason stop => reason.message stop

/-- Whether a reserved word and an equals sign stand here. -/
def redefinesReserved : List Located → Bool
  | word :: ⟨.mark .assign, _⟩ :: _ => word.token.reservedWord.isSome
  | _ => false

namespace Parser

/-- A statement. -/
def statement : Parser Statement := fun tokens =>
  if startsDefinition tokens || redefinesReserved tokens then
    (do return .definition (← definition expression) : Parser Statement) tokens
  else
    let line := (tokens.head?.map (·.position.line)).getD 0
    (do return .expression (← expression) line : Parser Statement) tokens

/-- Take a comma if one is next. -/
def optionalComma : Parser Unit
  | ⟨.mark .comma, _⟩ :: rest => .ok () rest
  | tokens => .ok () tokens

/-- Statements up to the end of the tokens, at most `rounds` of them. -/
def statementsWithin : Nat → Parser (List Statement)
  | 0 => pure []
  | rounds + 1 => fun tokens =>
      match tokens with
      | [] => .ok [] []
      | tokens =>
          (do
            let first ← statement
            optionalComma
            let others ← statementsWithin rounds
            return first :: others : Parser (List Statement)) tokens

/-- Statements up to the end of the tokens. -/
def statements : Parser (List Statement) := fun tokens =>
  statementsWithin tokens.length tokens

end Parser

namespace Program

/-- The program that a list of tokens spells. -/
def ofTokens (tokens : List Located) : Except SyntaxError Program :=
  match Parser.statements tokens with
  | .ok statements _ => .ok (ofStatements statements)
  | .error reason _ => .error reason

/-- The program that a source text spells. -/
def ofSource (source : String) : Except ParseError Program :=
  match tokenize source with
  | .error reason => .error (.lexical reason)
  | .ok tokens =>
      match ofTokens tokens with
      | .error reason => .error (.syntactic reason (endPosition source))
      | .ok program => .ok program

/-- The program that a source text spells, with a record of its size. -/
def parse (source : String) : Logged (Except ParseError Program) :=
  match ofSource source with
  | .error reason => ⟨.error reason, []⟩
  | .ok program =>
      let size := toString program.statements.length
      ⟨.ok program, [⟨.debug, "parsed " ++ size ++ " top-level items"⟩]⟩

end Program

end Timbre
