import Timbre.Proofs.Completion
import Timbre.Proofs.Coverage

/-!
# Errors point at what was rejected

A parser that fails has rejected the token that it read last, or has found no more
tokens. In the first case the error has the place of that token and names it, and
the tokens behind it are left; in the second case nothing is left.

So an error about a source text is its first lexical error, or is about one of its
tokens, or is placed where the text ends. All of these places are in the text, whose
lines and columns are counted from one.
-/

namespace Timbre

/-! ### Errors of parsers -/

/-- An error is about a token: it has the place of the token and names it, or it
names the reserved word that the token is. -/
inductive SyntaxError.About (found : Located) : SyntaxError → Prop where
  | unexpected (expected : Expectation) : About found (.unexpected found expected)
  | reserved {word : String} (known : found.token.reservedWord = some word) :
      About found (.reserved word found.position)

/-- An error is about the last of the tokens that were taken, with `rest` behind it,
or about the end of the tokens, with nothing behind it. -/
inductive SyntaxError.Rejects (tokens rest : List Located) : SyntaxError → Prop where
  | token {reason : SyntaxError} {before : List Located} {last : Located}
      (split : tokens = before ++ last :: rest) (about : reason.About last) :
      Rejects tokens rest reason
  | ended (expected : Expectation) (nothing : rest = []) :
      Rejects tokens rest (.endOfInput expected)

/-- An error that divides the tokens rejects the first of those that were not read. -/
theorem SyntaxError.Divides.rejects {reason : SyntaxError} {tokens before rest : List Located}
    (divides : reason.Divides tokens before rest) : reason.Rejects tokens rest := by
  cases reason with
  | unexpected found expected => exact .token divides (.unexpected expected)
  | reserved word position =>
    obtain ⟨token, known, split⟩ := divides
    exact .token split (.reserved known)
  | endOfInput expected => exact .ended expected divides.2

namespace Parser

variable {α : Type}

/-- Every error of the parser is about what it rejected. -/
def Pinpoints (parser : Parser α) : Prop :=
  ∀ tokens reason rest, parser tokens = .error reason rest → reason.Rejects tokens rest

/-- A failure that can be completed behind the tokens that were read is a failure at
the next token. -/
theorem pinpoints_of_completes {parser : Parser α} {language : List Located → Prop}
    (completes : ∀ bound, parser.Completes (bound + 1) language) : parser.Pinpoints := by
  intro tokens reason rest failed
  obtain ⟨before, _, divides, _, _⟩ :=
    (completes tokens.length).interrupted (Nat.le_succ _) failed
  exact divides.rejects

/-- Products are followed: each error comes behind the tokens that lead to it. -/
theorem multiplicative_follows (bound : Nat) :
    (multiplicative expression).Follows (bound + 1)
      (Grammar.Derives (.term (.operands .multiplicative))) :=
  level_follows .multiplicative (application_follows expression_follows)

/-- Sums are followed in the same way. -/
theorem additive_follows (bound : Nat) :
    (additive expression).Follows (bound + 1) (Grammar.Derives (.term (.operands .additive))) :=
  level_follows .additive (multiplicative_follows bound)

/-- Every error about statements is about what they rejected. -/
theorem statements_pinpoints : Pinpoints statements :=
  pinpoints_of_completes fun _ => completes_within statementsWithin_completes

end Parser

/-! ### Places of lexical errors -/

/-- The place that a lexical error is about. -/
def LexicalError.position : LexicalError → Position
  | unexpectedCharacter _ position => position
  | malformedNumber _ position => position

namespace Cursor

variable {cursor : Cursor}

/-- What is refused at a cursor is placed there. -/
theorem scanItem_error_position {e : LexicalError} (refused : .error e ∈ cursor.scanItem.1) :
    e.position = cursor.position := by
  unfold scanItem at refused
  split at refused
  · nomatch refused
  · split at refused
    · rename_i numeral _
      cases numeral with
      | complete text rest => simp [scanNumeral, single] at refused
      | cut mantissa letter sign rest =>
        simp only [scanNumeral] at refused
        split at refused
        · simp at refused
        · simp only [List.mem_singleton, Except.error.injEq] at refused
          rw [refused]
          rfl
    · split at refused
      · simp [single] at refused
      · split at refused
        · simp [single] at refused
        · simp only [List.mem_singleton, Except.error.injEq] at refused
          rw [refused]
          rfl

/-- Reading moves a cursor over some text. -/
theorem Reads.moved {items : List Item} {next : Cursor} (reads : cursor.Reads (items, next)) :
    ∃ text, next.position = cursor.position.advance text := by
  cases reads with
  | nothing ended => exact ⟨[], rfl⟩
  | token split front => exact ⟨_, rfl⟩
  | numberAndWord split numeral front isWord following =>
    rw [after_after]
    exact ⟨_, rfl⟩
  | refused split nonempty none => exact ⟨_, rfl⟩

/-- Errors that are scanned are placed at or after the cursor. -/
theorem scanAll_error_position {cursor : Cursor} {e : LexicalError}
    (refused : .error e ∈ cursor.scanAll) :
    ∃ text, e.position = cursor.position.advance text := by
  obtain ⟨gap, rest, _, _, skipped⟩ := cursor.skipLayout_layout
  have reads := cursor.skipLayout.scanItem_reads
  rcases found : cursor.scan with ⟨items, next⟩
  have scanned : cursor.skipLayout.scanItem = (items, next) := found
  cases items with
  | nil =>
    rw [scanAll_nil found] at refused
    nomatch refused
  | cons item items =>
    rw [scanAll_cons found, ← List.cons_append, List.mem_append] at refused
    rcases refused with here | later
    · have placed : e.position = cursor.skipLayout.position :=
        scanItem_error_position (by rw [scanned]; exact here)
      rw [placed, skipped]
      exact ⟨gap, rfl⟩
    · have shorter := scan_shorter found
      obtain ⟨more, placed⟩ := scanAll_error_position later
      rw [scanned] at reads
      obtain ⟨text, moved⟩ := reads.moved
      rw [placed, moved, skipped]
      exact ⟨gap ++ text ++ more, by simp [after]⟩
termination_by cursor.rest.length

end Cursor

/-- Errors that are delivered were scanned. -/
theorem Delivers.error_of_mem {context : Context} {items delivered : List Item}
    (delivers : Delivers context items delivered) {e : LexicalError}
    (member : .error e ∈ delivered) : .error e ∈ items := by
  induction delivers with
  | nothing => exact member
  | error _ inductionHypothesis =>
    rcases List.mem_cons.mp member with same | inside
    · exact List.mem_cons.mpr (.inl same)
    · exact List.mem_cons_of_mem _ (inductionHypothesis inside)
  | joined _ _ _ inductionHypothesis =>
    have inside := (List.mem_cons.mp member).resolve_left (nomatch ·)
    exact List.mem_cons_of_mem _ (List.mem_cons_of_mem _ (inductionHypothesis inside))
  | split _ _ inductionHypothesis =>
    have inside := (List.mem_cons.mp member).resolve_left (nomatch ·)
    have inside := (List.mem_cons.mp inside).resolve_left (nomatch ·)
    exact List.mem_cons_of_mem _ (inductionHypothesis inside)
  | whole _ _ _ inductionHypothesis =>
    have inside := (List.mem_cons.mp member).resolve_left (nomatch ·)
    exact List.mem_cons_of_mem _ (inductionHypothesis inside)

/-! ### Errors about a source text -/

/-- A place that can be reached in a text, counted from one. -/
theorem Position.counted {place : Position} (reached : ∃ text, place = start.advance text) :
    1 ≤ place.line ∧ 1 ≤ place.column := by
  obtain ⟨text, same⟩ := reached
  rw [same, start_advance]
  exact ⟨Nat.le_add_right 1 _, Nat.le_add_right 1 _⟩

/-- The tokens of a text are placed in it. -/
theorem tokenize_position {source : String} {tokens : List Located} {found : Located}
    (accepted : tokenize source = .ok tokens) (member : found ∈ tokens) :
    ∃ text, found.position = Position.start.advance text := by
  obtain ⟨lexemes, listed, same⟩ := tokenize_eq_ok.mp accepted
  rw [same] at member
  obtain ⟨lexeme, inside, located⟩ := List.mem_map.mp member
  have tiles := (lexItems_delivers source).tiles (Cursor.scanAll_tiles _ (scanAll_accepted listed))
  rw [listed] at tiles
  obtain ⟨text, _, position⟩ := tiles.reached lexeme inside
  rw [← located]
  exact ⟨text, position⟩

/-- What an error about a source text is about, and the place of that: the first
lexical error, one of the tokens, or the end of the text. -/
inductive ParseError.PlacedAt (source : String) : Position → ParseError → Prop where
  | lexical {found : List Lexeme} {e : LexicalError} {others : List Item}
      (first : lexItems source = found.map .ok ++ .error e :: others) :
      PlacedAt source e.position (.lexical e)
  | token {tokens : List Located} {found : Located} {reason : SyntaxError}
      (accepted : tokenize source = .ok tokens) (member : found ∈ tokens)
      (about : reason.About found) :
      PlacedAt source found.position (.syntactic reason (endPosition source))
  | ended (expected : Expectation) :
      PlacedAt source (endPosition source)
        (.syntactic (.endOfInput expected) (endPosition source))

namespace ParseError.PlacedAt

variable {source : String} {place : Position} {reason : ParseError}

/-- The message about an error begins with its place. -/
theorem message_eq (placed : reason.PlacedAt source place) :
    ∃ text, reason.message = messagePlace place ++ text := by
  cases placed with
  | @lexical _ e _ first =>
    cases e with
    | unexpectedCharacter character position =>
      simp only [ParseError.message, LexicalError.message, String.append_assoc]
      exact ⟨_, rfl⟩
    | malformedNumber text position =>
      simp only [ParseError.message, LexicalError.message, String.append_assoc]
      exact ⟨_, rfl⟩
  | token accepted member about =>
    cases about with
    | unexpected expected =>
      simp only [ParseError.message, SyntaxError.message, String.append_assoc]
      exact ⟨_, rfl⟩
    | reserved known =>
      simp only [ParseError.message, SyntaxError.message, String.append_assoc]
      exact ⟨_, rfl⟩
  | ended expected =>
    simp only [ParseError.message, SyntaxError.message, String.append_assoc]
    exact ⟨_, rfl⟩

/-- Lines and columns are counted from one. -/
theorem counted (placed : reason.PlacedAt source place) : 1 ≤ place.line ∧ 1 ≤ place.column := by
  apply Position.counted
  cases placed with
  | @lexical _ e _ first =>
    have delivered : .error e ∈ lexItems source := by
      rw [first]
      simp
    exact Cursor.scanAll_error_position ((lexItems_delivers source).error_of_mem delivered)
  | token accepted member about => exact tokenize_position accepted member
  | ended expected => exact ⟨source.toList, rfl⟩

end ParseError.PlacedAt

/-- A text that is refused is refused for the first error that is delivered. -/
theorem tokenize_eq_error {source : String} {e : LexicalError}
    (refused : tokenize source = .error e) :
    ∃ found others, lexItems source = List.map .ok found ++ .error e :: others := by
  unfold tokenize lexemes at refused
  obtain ⟨found, accepted, _⟩ | ⟨found, first, others, stopped, listed⟩ :=
    collect_cases (lexItems source)
  · rw [accepted] at refused
    nomatch refused
  · rw [stopped] at refused
    rw [Except.error.inj refused] at listed
    exact ⟨found, others, listed⟩

/-- A text is refused because of its first lexical error, or because of a syntax error
in its tokens, placed with the end of the text. -/
theorem Program.ofSource_eq_error {source : String} {reason : ParseError}
    (failed : Program.ofSource source = .error reason) :
    (∃ e, reason = .lexical e ∧ tokenize source = .error e) ∨
      ∃ tokens rest problem, reason = .syntactic problem (endPosition source) ∧
        tokenize source = .ok tokens ∧ Parser.statements tokens = .error problem rest := by
  cases read : tokenize source with
  | error e =>
    simp only [Program.ofSource, read] at failed
    exact .inl ⟨e, (Except.error.inj failed).symm, rfl⟩
  | ok tokens =>
    cases parsed : Parser.statements tokens with
    | ok statements rest =>
      simp only [Program.ofSource, read, Program.ofTokens, parsed] at failed
      nomatch failed
    | error problem rest =>
      simp only [Program.ofSource, read, Program.ofTokens, parsed] at failed
      exact .inr ⟨tokens, rest, problem, (Except.error.inj failed).symm, rfl, parsed⟩

/-- An error about a source text is about something in it. -/
theorem Program.ofSource_error_placed {source : String} {reason : ParseError}
    (failed : Program.ofSource source = .error reason) : ∃ place, reason.PlacedAt source place := by
  rcases Program.ofSource_eq_error failed with
    ⟨e, rfl, refused⟩ | ⟨tokens, rest, problem, rfl, accepted, stopped⟩
  · obtain ⟨found, others, first⟩ := tokenize_eq_error refused
    exact ⟨e.position, .lexical first⟩
  · cases Parser.statements_pinpoints tokens problem rest stopped with
    | @token _ before last split about =>
      have member : last ∈ tokens := by
        rw [split]
        simp
      exact ⟨last.position, .token accepted member about⟩
    | ended expected nothing => exact ⟨endPosition source, .ended expected⟩

namespace Parser

/-- Each parser of expressions, of their parts and of statements reports the last
token that it took, with the tokens behind it left, or the end of the tokens, with
nothing left. An error about a source text is its first lexical error, or is about
one of its tokens, or is placed at its end. The message begins with that place, and
its line and its column are counted from one. -/
theorem errors_at_rejected_tokens :
    Pinpoints expression ∧ Pinpoints (comparison expression) ∧ Pinpoints (additive expression) ∧
      Pinpoints (multiplicative expression) ∧ Pinpoints statement ∧
      Pinpoints (definition expression) ∧
      (∀ line, Pinpoints (conditional expression line) ∧ Pinpoints (selection expression line) ∧
        Pinpoints (binding expression line)) ∧
      ∀ source reason, Program.ofSource source = .error reason →
        ∃ place text, reason.PlacedAt source place ∧ reason.message = messagePlace place ++ text ∧
          1 ≤ place.line ∧ 1 ≤ place.column := by
  have whole (bound : Nat) : expression.Follows bound _ := expression_follows
  refine ⟨?_, ?_, ?_, ?_, ?_, ?_, ?_, ?_⟩
  · exact pinpoints_of_completes fun bound => (whole (bound + 1)).completes
  · exact pinpoints_of_completes fun bound => (comparison_follows (whole bound)).completes
  · exact pinpoints_of_completes fun bound => (additive_follows bound).completes
  · exact pinpoints_of_completes fun bound => (multiplicative_follows bound).completes
  · exact pinpoints_of_completes fun bound => statement_follows.completes
  · exact pinpoints_of_completes fun bound => (definition_follows (whole (bound + 1))).completes
  · intro line
    -- The form begins behind its keyword, of which only the line matters.
    let keyword : Position := ⟨line, 1⟩
    exact ⟨pinpoints_of_completes fun bound => conditional_completes (whole (bound + 1)) keyword,
      pinpoints_of_completes fun bound => selection_completes (whole (bound + 1)) keyword,
      pinpoints_of_completes fun bound => binding_completes (whole (bound + 1)) keyword⟩
  · intro source reason failed
    obtain ⟨place, placed⟩ := Program.ofSource_error_placed failed
    obtain ⟨text, message⟩ := placed.message_eq
    exact ⟨place, text, placed, message, placed.counted⟩

/-- A conditional without a consequent, and a reserved word as a parameter. -/
theorem errors_at_rejected_tokens_reserved :
    let tokens : List Located := [⟨.identifier "x", ⟨1, 4⟩⟩, ⟨.keyword .thenWord, ⟨1, 6⟩⟩,
      ⟨.keyword .elseWord, ⟨1, 11⟩⟩, ⟨.keyword .endWord, ⟨1, 16⟩⟩]
    let problem : SyntaxError := .unexpected ⟨.keyword .elseWord, ⟨1, 11⟩⟩ .expression
    let reason : ParseError := .syntactic (.reserved "sin" ⟨1, 6⟩) ⟨1, 9⟩
    conditional expression 1 tokens = .error problem [⟨.keyword .endWord, ⟨1, 16⟩⟩] ∧
      problem.Rejects tokens [⟨.keyword .endWord, ⟨1, 16⟩⟩] ∧
      Program.ofSource "a = \\sin" = .error reason ∧
      ∃ place text, reason.PlacedAt "a = \\sin" place ∧
        reason.message = messagePlace place ++ text ∧ 1 ≤ place.line ∧ 1 ≤ place.column := by
  intro tokens problem reason
  obtain ⟨_, _, _, _, _, _, forms, sources⟩ := errors_at_rejected_tokens
  have stopped : conditional expression 1 tokens =
      .error problem [⟨.keyword .endWord, ⟨1, 16⟩⟩] := rfl
  have read : tokenize "a = \\sin" = .ok [⟨.identifier "a", ⟨1, 1⟩⟩, ⟨.mark .assign, ⟨1, 3⟩⟩,
      ⟨.mark .backslash, ⟨1, 5⟩⟩, ⟨.builtin (.unary .sin), ⟨1, 6⟩⟩] := rfl
  have rejected : statements [⟨.identifier "a", ⟨1, 1⟩⟩, ⟨.mark .assign, ⟨1, 3⟩⟩,
      ⟨.mark .backslash, ⟨1, 5⟩⟩, ⟨.builtin (.unary .sin), ⟨1, 6⟩⟩] =
        .error (.reserved "sin" ⟨1, 6⟩) [] := rfl
  have failed : Program.ofSource "a = \\sin" = .error reason := by
    have ends : endPosition "a = \\sin" = ⟨1, 9⟩ := by decide
    simp only [Program.ofSource, read, Program.ofTokens, rejected, ends, reason]
  exact ⟨stopped, (forms 1).1 _ _ _ stopped, failed, sources _ _ failed⟩

end Parser

end Timbre
