import Timbre.Proofs.Delivery
import Timbre.Proofs.ParserStability

/-!
# Definitions after a program

A newline keeps the tokens on its two sides apart, and a name with an equals
sign after it is read alike after any tokens. So definitions can be written
below a program: the two are read as they are read on their own, the definitions
on later lines.
-/

namespace Timbre

/-! ### Delivering what was scanned apart -/

/-- Scanned items further down in a longer text. -/
def itemsDown (bytes lines : Nat) (items : List Item) : List Item :=
  items.map (Except.map (Lexeme.down bytes lines))

/-- A lexeme further down ends as many bytes later. -/
theorem Lexeme.stop_down (bytes lines : Nat) (lexeme : Lexeme) :
    (lexeme.down bytes lines).stop = lexeme.stop + bytes :=
  Nat.add_right_comm _ _ _

/-- The items do not begin with a number, which a sign before them could join. -/
def NoNumberFirst (items : List Item) : Prop :=
  ∀ lexeme others value, items = .ok lexeme :: others → lexeme.token ≠ .number value

/-- Moving items down puts no number in front of them. -/
theorem NoNumberFirst.down {items : List Item} (apart : NoNumberFirst items)
    (bytes lines : Nat) : NoNumberFirst (itemsDown bytes lines items) := by
  intro lexeme others value listed
  obtain ⟨item, rest, rfl, moved, _⟩ := List.map_eq_cons_iff.mp listed
  cases item with
  | error e => nomatch moved
  | ok first =>
    obtain rfl := Except.ok.inj moved
    exact apart first rest value rfl

namespace Delivers

variable {context : Context} {items delivered : List Item}

/-- Items further down are delivered as before, further down. -/
theorem down (bytes lines : Nat) (delivers : Delivers context items delivered) :
    Delivers context (itemsDown bytes lines items) (itemsDown bytes lines delivered) := by
  induction delivers with
  | nothing => exact .nothing
  | error _ others => exact .error others
  | @joined _ sign _ value text position _ _ outside signs _ others =>
    have joined := @joined _ (sign.down bytes lines) _ value text
      ((Relocation.down lines).place position) _ _ outside signs others
    rw [Lexeme.stop_down] at joined
    exact joined
  | @split _ value digits start position _ _ parameter _ others =>
    have split := @split _ value digits (start + bytes) ((Relocation.down lines).place position)
      _ _ parameter others
    have stepped : ((Relocation.down lines).place position).step '.' =
        (Relocation.down lines).place (position.step '.') :=
      Position.advance_down lines position ['.']
    rw [stepped, Nat.add_right_comm] at split
    exact split
  | @whole context lexeme items _ unjoined unsplit _ others =>
    refine .whole (fun joins => unjoined ?_) unsplit others
    obtain ⟨outside, signs, value, text, position, left, adjacent⟩ := joins
    rw [Lexeme.stop_down] at adjacent
    obtain ⟨item, rest, rfl, moved, _⟩ := List.map_eq_cons_iff.mp adjacent
    cases item with
    | error e => nomatch moved
    | ok number =>
      obtain ⟨token, digits, start, place⟩ := number
      simp only [Except.map, Lexeme.down, Except.ok.injEq, Lexeme.mk.injEq] at moved
      obtain ⟨rfl, rfl, same, _⟩ := moved
      obtain rfl : start = lexeme.stop := Nat.add_right_cancel same
      exact ⟨outside, signs, value, digits, place, rest, rfl⟩

/-- Items that are delivered alike in every context can come after others. -/
theorem append {later following : List Item} (delivers : Delivers context items delivered)
    (continued : ∀ context, Delivers context later following) (apart : NoNumberFirst later) :
    Delivers context (items ++ later) (delivered ++ following) := by
  induction delivers with
  | nothing => exact continued _
  | error _ others => exact .error others
  | joined outside signs _ others => exact .joined outside signs others
  | split parameter _ others => exact .split parameter others
  | @whole context lexeme items _ unjoined unsplit _ others =>
    refine .whole ?_ unsplit others
    rintro ⟨outside, signs, value, text, position, left, adjacent⟩
    cases items with
    | nil => exact apart _ _ value adjacent rfl
    | cons item items =>
      obtain ⟨rfl, _⟩ := List.cons.inj adjacent
      exact unjoined ⟨outside, signs, value, text, position, items, rfl⟩

/-- A lexeme that is no sign and no number is delivered as it is. -/
theorem as_is {lexeme : Lexeme} (noSign : ∀ negative, ¬ Signs lexeme.token negative)
    (noNumber : ∀ value, lexeme.token ≠ .number value)
    (others : Delivers (context.after lexeme.token) items delivered) :
    Delivers context (.ok lexeme :: items) (.ok lexeme :: delivered) := by
  refine .whole ?_ ?_ others
  · rintro ⟨_, ⟨negative, signs⟩, _⟩
    exact noSign negative signs
  · rintro ⟨_, ⟨value, number⟩, _⟩
    exact noNumber value number

/-- A token that is no number and no dot was scanned as it is. -/
theorem of_ok {lexeme : Lexeme} (delivers : Delivers context items (.ok lexeme :: delivered))
    (noNumber : ∀ value, lexeme.token ≠ .number value) (noDot : lexeme.token ≠ .mark .dot) :
    ∃ left, items = .ok lexeme :: left ∧ Delivers (context.after lexeme.token) left delivered := by
  generalize listed : (.ok lexeme :: delivered : List Item) = all at delivers
  cases delivers with
  | nothing => nomatch listed
  | error _ => nomatch listed
  | joined _ _ _ =>
    obtain ⟨same, rfl⟩ := List.cons.inj listed
    obtain rfl := Except.ok.inj same
    exact absurd rfl (noNumber _)
  | split _ _ =>
    obtain ⟨same, _⟩ := List.cons.inj listed
    obtain rfl := Except.ok.inj same
    exact absurd rfl noDot
  | whole _ _ others =>
    obtain ⟨same, rfl⟩ := List.cons.inj listed
    obtain rfl := Except.ok.inj same
    exact ⟨_, rfl, others⟩

/-- After a name and an equals sign nothing is left of the context before. -/
theorem any_context {first second : Lexeme} {name : String}
    (delivers : Delivers context items (.ok first :: .ok second :: delivered))
    (named : first.token = .identifier name) (assigned : second.token = .mark .assign) :
    NoNumberFirst items ∧
      ∀ other, Delivers other items (.ok first :: .ok second :: delivered) := by
  obtain ⟨left, rfl, next⟩ := delivers.of_ok (by simp [named]) (by simp [named])
  obtain ⟨others, rfl, last⟩ := next.of_ok (by simp [assigned]) (by simp [assigned])
  constructor
  · intro lexeme left value listed number
    obtain ⟨same, _⟩ := List.cons.inj listed
    obtain rfl := Except.ok.inj same
    rw [named] at number
    nomatch number
  · intro other
    -- The context keeps two tokens, and both are given.
    have same : (other.after first.token).after second.token =
        (context.after first.token).after second.token := by
      rw [named, assigned]
      rfl
    rw [← same] at last
    refine as_is ?_ (by simp [named]) (as_is ?_ (by simp [assigned]) last)
    · rw [named]
      exact fun _ impossible => nomatch impossible
    · rw [assigned]
      exact fun _ impossible => nomatch impossible

end Delivers

/-! ### Tokens -/

/-- Where a definition starts, a name and an equals sign come first. -/
theorem startsDefinition_cons {tokens : List Located} (starts : startsDefinition tokens = true) :
    ∃ name p q rest, tokens = ⟨.identifier name, p⟩ :: ⟨.mark .assign, q⟩ :: rest := by
  unfold startsDefinition at starts
  split at starts
  · exact ⟨_, _, _, _, rfl⟩
  · nomatch starts

/-- A text that begins with a definition, or has no tokens, is read alike after
any tokens. -/
theorem delivers_definition {below : String} {found : List Lexeme}
    (listed : lexItems below = found.map .ok)
    (begins : found.map Lexeme.located = [] ∨
      startsDefinition (found.map Lexeme.located) = true) :
    NoNumberFirst (Cursor.start below.toList).scanAll ∧
      ∀ context, Delivers context (Cursor.start below.toList).scanAll (found.map .ok) := by
  have delivers := lexItems_delivers below
  rw [listed] at delivers
  rcases begins with empty | starts
  · obtain rfl := List.map_eq_nil_iff.mp empty
    generalize (Cursor.start below.toList).scanAll = items at delivers
    cases delivers with
    | nothing => exact ⟨fun _ _ _ impossible => (nomatch impossible), fun _ => .nothing⟩
  · obtain ⟨name, p, q, rest, same⟩ := startsDefinition_cons starts
    obtain ⟨first, others, rfl, named, same⟩ := List.map_eq_cons_iff.mp same
    obtain ⟨second, left, rfl, assigned, _⟩ := List.map_eq_cons_iff.mp same
    exact delivers.any_context (congrArg Located.token named) (congrArg Located.token assigned)

/-- The tokens of a program and of definitions below it. -/
theorem tokenize_newline {source below : String} {tokens later : List Located}
    (accepted : tokenize source = .ok tokens) (also : tokenize below = .ok later)
    (begins : later = [] ∨ startsDefinition later = true) :
    tokenize (source ++ "\n" ++ below) =
      .ok (tokens ++ (Relocation.down (source.toList.count '\n' + 1)).tokens later) := by
  obtain ⟨found, listed, rfl⟩ := tokenize_eq_ok.mp accepted
  obtain ⟨following, listedBelow, rfl⟩ := tokenize_eq_ok.mp also
  obtain ⟨apart, alike⟩ := delivers_definition listedBelow begins
  have delivers := lexItems_delivers source
  rw [listed] at delivers
  let bytes := byteLength (source.toList ++ ['\n'])
  let lines := source.toList.count '\n' + 1
  have scanned : (Cursor.start (source ++ "\n" ++ below).toList).scanAll =
      (Cursor.start source.toList).scanAll ++
        itemsDown bytes lines (Cursor.start below.toList).scanAll := by
    have text : (source ++ "\n" ++ below).toList = source.toList ++ '\n' :: below.toList := by simp
    rw [text]
    exact Cursor.scanAll_newline (scanAll_accepted listed) (scanAll_accepted listedBelow)
  have joined := delivers.append (fun context => (alike context).down bytes lines)
    (apart.down bytes lines)
  rw [← scanned] at joined
  refine tokenize_eq_ok.mpr ⟨found ++ following.map (Lexeme.down bytes lines), ?_, ?_⟩
  · rw [lexItems_eq joined]
    simp [itemsDown, Except.map, Function.comp_def]
  · rw [List.map_append, List.map_map, Relocation.tokens, List.map_map]
    rfl

/-! ### Programs -/

/-- A text is a program when it is cut into tokens and the tokens are read as the
statements. -/
theorem Program.ofSource_eq_ok {source : String} {program : Program} :
    Program.ofSource source = .ok program ↔
      ∃ tokens rest, tokenize source = .ok tokens ∧
        Parser.statements tokens = .ok program.statements rest := by
  unfold Program.ofSource Program.ofTokens
  constructor
  · intro parsed
    split at parsed
    · nomatch parsed
    · rename_i tokens accepted
      cases found : Parser.statements tokens with
      | ok statements rest =>
        rw [found] at parsed
        obtain rfl := Except.ok.inj parsed
        exact ⟨tokens, rest, accepted, found⟩
      | error reason rest =>
        rw [found] at parsed
        nomatch parsed
  · rintro ⟨tokens, rest, accepted, found⟩
    simp only [accepted, found]
    rw [Program.ofStatements_statements]

namespace Parser

/-- What is read as a definition starts like one. -/
theorem startsDefinition_of_statement {tokens rest : List Located} {found : Definition}
    (succeeded : statement tokens = .ok (.definition found) rest) :
    startsDefinition tokens = true := by
  unfold statement at succeeded
  split at succeeded
  · obtain ⟨read, middle, taken, finished⟩ := bind_eq_ok.mp succeeded
    obtain ⟨p, q, body, rfl, _⟩ := definition_eq_ok.mp taken
    rfl
  · obtain ⟨term, middle, taken, finished⟩ := bind_eq_ok.mp succeeded
    obtain ⟨impossible, _⟩ := pure_eq_ok.mp finished
    nomatch impossible

/-- If the first of the statements is a definition, the tokens start like one. -/
theorem startsDefinition_of_statements {tokens rest : List Located} {found : Definition}
    {others : List Statement}
    (succeeded : statements tokens = .ok (.definition found :: others) rest) :
    startsDefinition tokens = true := by
  cases tokens with
  | nil => nomatch succeeded
  | cons first more =>
    obtain ⟨statement, middle, taken, after⟩ := bind_eq_ok.mp succeeded
    obtain ⟨⟨⟩, next, _, after⟩ := bind_eq_ok.mp after
    obtain ⟨following, final, _, finished⟩ := bind_eq_ok.mp after
    obtain ⟨listed, _⟩ := pure_eq_ok.mp finished
    obtain ⟨rfl, _⟩ := List.cons.inj listed
    exact startsDefinition_of_statement taken

end Parser

/-- Two programs, the second of which has no tokens or begins with a definition,
make one program with a newline between them. Its statements are those of the
first and those of the second, moved down by the lines of the first. -/
theorem Program.ofSource_appends (source below : String) (first second : Program)
    (parsed : Program.ofSource source = .ok first) (also : Program.ofSource below = .ok second)
    (begins : tokenize below = .ok [] ∨
      ∃ definition others, second.statements = .definition definition :: others) :
    Program.ofSource (source ++ "\n" ++ below) =
      .ok (.ofStatements (first.statements ++
        second.statements.map (Statement.onLines (· + (source.toList.count '\n' + 1))))) := by
  obtain ⟨tokens, left, accepted, read⟩ := Program.ofSource_eq_ok.mp parsed
  obtain ⟨later, rest, acceptedBelow, readBelow⟩ := Program.ofSource_eq_ok.mp also
  have starts : later = [] ∨ startsDefinition later = true := by
    rcases begins with empty | ⟨definition, others, listed⟩
    · rw [acceptedBelow] at empty
      exact .inl (Except.ok.inj empty)
    · rw [listed] at readBelow
      exact .inr (Parser.startsDefinition_of_statements readBelow)
  let moved := Relocation.down (source.toList.count '\n' + 1)
  have startsMoved : moved.tokens later = [] ∨ startsDefinition (moved.tokens later) = true := by
    rcases starts with rfl | starts
    · exact .inl rfl
    · obtain ⟨name, p, q, more, rfl⟩ := startsDefinition_cons starts
      exact .inr rfl
  have together := Parser.statements_append startsMoved read
    (Parser.statements_moved moved readBelow)
  exact Program.ofSource_eq_ok.mpr ⟨_, [], tokenize_newline accepted acceptedBelow starts, together⟩

/-- A lambda whose body and last comment end with their text: the definition
below is not taken into either. -/
theorem Program.ofSource_appends_lambda :
    let first := Program.ofStatements [.definition ⟨"f", .lambda "x" (.identifier "x" 1) 1, 1⟩]
    let second := Program.ofStatements
      [.definition ⟨"g", .application (.identifier "f" 1) (.identifier "f" 1) 1, 1⟩]
    Program.ofSource "f = \\x. x # note" = .ok first ∧ Program.ofSource "g = f f" = .ok second ∧
      Program.ofSource ("f = \\x. x # note" ++ "\n" ++ "g = f f") =
        .ok (.ofStatements (first.statements ++ second.statements.map (Statement.onLines
          (· + ("f = \\x. x # note".toList.count '\n' + 1))))) := by
  intro first second
  have lexed : tokenize "f = \\x. x # note" =
      .ok [⟨.identifier "f", ⟨1, 1⟩⟩, ⟨.mark .assign, ⟨1, 3⟩⟩, ⟨.mark .backslash, ⟨1, 5⟩⟩,
        ⟨.identifier "x", ⟨1, 6⟩⟩, ⟨.mark .dot, ⟨1, 7⟩⟩, ⟨.identifier "x", ⟨1, 9⟩⟩] := rfl
  have lexedBelow : tokenize "g = f f" =
      .ok [⟨.identifier "g", ⟨1, 1⟩⟩, ⟨.mark .assign, ⟨1, 3⟩⟩, ⟨.identifier "f", ⟨1, 5⟩⟩,
        ⟨.identifier "f", ⟨1, 7⟩⟩] := rfl
  have parsed : Program.ofSource "f = \\x. x # note" = .ok first :=
    Program.ofSource_eq_ok.mpr ⟨_, [], lexed, rfl⟩
  have also : Program.ofSource "g = f f" = .ok second :=
    Program.ofSource_eq_ok.mpr ⟨_, [], lexedBelow, rfl⟩
  exact ⟨parsed, also, Program.ofSource_appends _ _ first second parsed also (.inr ⟨_, _, rfl⟩)⟩

end Timbre
