import Timbre.Program
import Timbre.Token

/-!
# Moving programs to other lines

Positions do not decide how tokens are read; they only leave their lines in the
terms. A relocation moves tokens to other places and terms to the lines of these
places.
-/

namespace Timbre

/-- Where positions go, and where their lines go with them. -/
structure Relocation where
  place : Position → Position
  line : Nat → Nat
  /-- The line of a place depends on the line alone. -/
  line_place : ∀ position, (place position).line = line position.line

namespace Relocation

/-- Everything stays where it is. -/
def still : Relocation := ⟨id, id, fun _ => rfl⟩

/-- Everything moves down by a number of lines. -/
def down (lines : Nat) : Relocation :=
  ⟨fun p => ⟨p.line + lines, p.column⟩, (· + lines), fun _ => rfl⟩

variable (moved : Relocation)

/-- A token at its new place. -/
def locate (found : Located) : Located := ⟨found.token, moved.place found.position⟩

/-- Tokens at their new places. -/
def tokens (list : List Located) : List Located := list.map moved.locate

/-- In an empty list there is nothing to move. -/
@[simp] theorem tokens_nil : moved.tokens [] = [] := rfl

/-- The first token moves and so do the others. -/
@[simp] theorem tokens_cons (first : Located) (rest : List Located) :
    moved.tokens (first :: rest) = moved.locate first :: moved.tokens rest := rfl

/-- Moving tokens keeps their number. -/
@[simp] theorem length_tokens (list : List Located) :
    (moved.tokens list).length = list.length := List.length_map _

/-- Tokens that stay are the same. -/
@[simp] theorem tokens_still (list : List Located) : still.tokens list = list := List.map_id _

end Relocation

mutual

/-- A term with other lines. -/
def Term.onLines (line : Nat → Nat) : Term → Term
  | .number value l => .number value (line l)
  | .builtin operator l => .builtin operator (line l)
  | .identifier name l => .identifier name (line l)
  | .lambda parameter body l => .lambda parameter (body.onLines line) (line l)
  | .application function argument l =>
      .application (function.onLines line) (argument.onLines line) (line l)
  | .conditional condition consequent alternative l =>
      .conditional (condition.onLines line) (consequent.onLines line) (alternative.onLines line)
        (line l)
  | .selection scrutinee clauses l =>
      .selection (scrutinee.onLines line) (clausesOnLines line clauses) (line l)
  | .binding definitions body l =>
      .binding (definitionsOnLines line definitions) (body.onLines line) (line l)

/-- Clauses with other lines. -/
def clausesOnLines (line : Nat → Nat) : List (ClauseOf Term) → List (ClauseOf Term)
  | [] => []
  | ⟨pattern, result, l⟩ :: rest =>
      ⟨patternOnLines line pattern, result.onLines line, line l⟩ :: clausesOnLines line rest

/-- A pattern with other lines. -/
def patternOnLines (line : Nat → Nat) : Option Term → Option Term
  | none => none
  | some pattern => some (pattern.onLines line)

/-- Definitions with other lines. -/
def definitionsOnLines (line : Nat → Nat) :
    List (DefinitionOf Term) → List (DefinitionOf Term)
  | [] => []
  | ⟨name, body, l⟩ :: rest =>
      ⟨name, body.onLines line, line l⟩ :: definitionsOnLines line rest

end

/-- A clause with other lines. -/
def ClauseOf.onLines (line : Nat → Nat) (clause : Clause) : Clause :=
  ⟨clause.pattern.map (Term.onLines line), clause.result.onLines line, line clause.line⟩

/-- A definition with other lines. -/
def DefinitionOf.onLines (line : Nat → Nat) (definition : Definition) : Definition :=
  ⟨definition.name, definition.body.onLines line, line definition.line⟩

/-- A statement with other lines. -/
def Statement.onLines (line : Nat → Nat) : Statement → Statement
  | .definition d => .definition (d.onLines line)
  | .expression term l => .expression (term.onLines line) (line l)

/-- A pattern gets other lines as a term does. -/
theorem patternOnLines_eq_map (line : Nat → Nat) (pattern : Option Term) :
    patternOnLines line pattern = pattern.map (Term.onLines line) := by
  cases pattern <;> rfl

/-- Clauses get other lines one by one. -/
theorem clausesOnLines_eq_map (line : Nat → Nat) (clauses : List Clause) :
    clausesOnLines line clauses = clauses.map (ClauseOf.onLines line) := by
  induction clauses with
  | nil => rfl
  | cons clause rest inductionHypothesis =>
    rw [clausesOnLines, inductionHypothesis, patternOnLines_eq_map]
    rfl

/-- Definitions get other lines one by one. -/
theorem definitionsOnLines_eq_map (line : Nat → Nat) (definitions : List Definition) :
    definitionsOnLines line definitions = definitions.map (DefinitionOf.onLines line) := by
  induction definitions with
  | nil => rfl
  | cons definition rest inductionHypothesis =>
    rw [definitionsOnLines, inductionHypothesis]
    rfl

mutual

/-- Where every line stays, nothing changes. -/
theorem Term.onLines_id : ∀ term : Term, term.onLines id = term
  | .number _ _ => rfl
  | .builtin _ _ => rfl
  | .identifier _ _ => rfl
  | .lambda _ body _ => by rw [Term.onLines, body.onLines_id]; rfl
  | .application function argument _ => by
      rw [Term.onLines, function.onLines_id, argument.onLines_id]; rfl
  | .conditional condition consequent alternative _ => by
      rw [Term.onLines, condition.onLines_id, consequent.onLines_id, alternative.onLines_id]; rfl
  | .selection scrutinee clauses _ => by
      rw [Term.onLines, scrutinee.onLines_id, clausesOnLines_id clauses]; rfl
  | .binding definitions body _ => by
      rw [Term.onLines, definitionsOnLines_id definitions, body.onLines_id]; rfl

/-- Clauses that stay on their lines are the same. -/
theorem clausesOnLines_id : ∀ clauses : List (ClauseOf Term), clausesOnLines id clauses = clauses
  | [] => rfl
  | ⟨pattern, result, _⟩ :: rest => by
      rw [clausesOnLines, patternOnLines_id pattern, result.onLines_id, clausesOnLines_id rest]; rfl

/-- A pattern that stays on its lines is the same. -/
theorem patternOnLines_id : ∀ pattern : Option Term, patternOnLines id pattern = pattern
  | none => rfl
  | some pattern => by rw [patternOnLines, pattern.onLines_id]

/-- Definitions that stay on their lines are the same. -/
theorem definitionsOnLines_id : ∀ definitions : List (DefinitionOf Term),
    definitionsOnLines id definitions = definitions
  | [] => rfl
  | ⟨_, body, _⟩ :: rest => by
      rw [definitionsOnLines, body.onLines_id, definitionsOnLines_id rest]; rfl

end

/-- Statements that stay on their lines stay the same. -/
theorem Statement.onLines_id (statement : Statement) : statement.onLines id = statement := by
  cases statement with
  | definition d => simp only [Statement.onLines, DefinitionOf.onLines, Term.onLines_id, id_eq]
  | expression term line => simp only [Statement.onLines, Term.onLines_id, id_eq]

/-- Statements that stay on their lines are the same. -/
@[simp] theorem Relocation.map_onLines_still (statements : List Statement) :
    statements.map (Statement.onLines still.line) = statements := by
  have same : Statement.onLines still.line = id := funext Statement.onLines_id
  rw [same, List.map_id]

end Timbre
