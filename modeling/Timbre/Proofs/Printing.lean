import Timbre.Proofs.ParserStability

/-!
# Reading undoes printing

A term is printed with parentheses around every lambda and every application, so
that what is printed can stand wherever an atom can. An application of a binary
operator to two operands may also be printed with the operator's mark between
them. Clauses and definitions are printed with commas between them, and only
numbers and the wildcard can be printed as patterns.

What is printed is read back as an atom, in front of any tokens, and nothing of
these is taken. The lines of the term that is read are those of the tokens, so it
is the printed term up to its lines.
-/

namespace Timbre

/-- What is printed. -/
inductive Printed where
  | term (term : Term)
  | clause (clause : Clause)
  | clauses (clauses : List Clause)
  | definition (definition : Definition)
  | definitions (definitions : List Definition)

/-- Tokens that something is printed as. -/
inductive Prints : Printed → List Token → Prop where
  | number (value : Float) (line : Nat) : Prints (.term (.number value line)) [.number value]
  | identifier (name : String) (line : Nat) :
      Prints (.term (.identifier name line)) [.identifier name]
  | builtin (operator : Builtin) (line : Nat) :
      Prints (.term (.builtin operator line)) [.builtin operator]
  | lambda {body : Term} {inner : List Token} (parameter : String) (line : Nat)
      (printed : Prints (.term body) inner) :
      Prints (.term (.lambda parameter body line))
        (.mark .openParen :: .mark .backslash :: .identifier parameter :: .mark .dot :: inner ++
          [.mark .closeParen])
  | application {function argument : Term} {first second : List Token} (line : Nat)
      (applied : Prints (.term function) first) (operand : Prints (.term argument) second) :
      Prints (.term (.application function argument line))
        (.mark .openParen :: first ++ second ++ [.mark .closeParen])
  | infixed {left right : Term} {first second : List Token} {sign : Mark}
      {operator : BinaryBuiltin} (builtinLine innerLine line : Nat)
      (known : sign.operator = some operator) (before : Prints (.term left) first)
      (after : Prints (.term right) second) :
      Prints
        (.term (.application
          (.application (.builtin (.binary operator) builtinLine) left innerLine) right line))
        (.mark .openParen :: first ++ .mark sign :: second ++ [.mark .closeParen])
  | conditional {condition consequent alternative : Term} {tested first second : List Token}
      (line : Nat) (decision : Prints (.term condition) tested)
      (positive : Prints (.term consequent) first)
      (negative : Prints (.term alternative) second) :
      Prints (.term (.conditional condition consequent alternative line))
        (.keyword .ifWord :: tested ++ .keyword .thenWord :: first ++
          .keyword .elseWord :: second ++ [.keyword .endWord])
  | selection {scrutinee : Term} {clauses : List Clause} {inner listed : List Token}
      (line : Nat) (examined : Prints (.term scrutinee) inner)
      (choices : Prints (.clauses clauses) listed) :
      Prints (.term (.selection scrutinee clauses line))
        (.keyword .caseWord :: inner ++ .keyword .ofWord :: listed ++ [.keyword .endWord])
  | binding {definitions : List Definition} {body : Term} {listed inner : List Token}
      (line : Nat) (bound : Prints (.definitions definitions) listed)
      (printed : Prints (.term body) inner) :
      Prints (.term (.binding definitions body line))
        (.keyword .letWord :: listed ++ .keyword .inWord :: inner ++ [.keyword .endWord])
  | numbered {result : Term} {inner : List Token} (value : Float) (patternLine line : Nat)
      (printed : Prints (.term result) inner) :
      Prints (.clause ⟨some (.number value patternLine), result, line⟩)
        (.number value :: .mark .arrow :: inner)
  | wildcard {result : Term} {inner : List Token} (line : Nat)
      (printed : Prints (.term result) inner) :
      Prints (.clause ⟨none, result, line⟩) (.mark .underscore :: .mark .arrow :: inner)
  | lastClause {clause : Clause} {tokens : List Token} (last : Prints (.clause clause) tokens) :
      Prints (.clauses [clause]) tokens
  | moreClauses {clause : Clause} {others : List Clause} {first rest : List Token}
      (one : Prints (.clause clause) first) (more : Prints (.clauses others) rest) :
      Prints (.clauses (clause :: others)) (first ++ .mark .comma :: rest)
  | named {body : Term} {inner : List Token} (name : String) (line : Nat)
      (printed : Prints (.term body) inner) :
      Prints (.definition ⟨name, body, line⟩) (.identifier name :: .mark .assign :: inner)
  | lastDefinition {definition : Definition} {tokens : List Token}
      (last : Prints (.definition definition) tokens) :
      Prints (.definitions [definition]) tokens
  | moreDefinitions {definition : Definition} {others : List Definition}
      {first rest : List Token} (one : Prints (.definition definition) first)
      (more : Prints (.definitions others) rest) :
      Prints (.definitions (definition :: others)) (first ++ .mark .comma :: rest)

/-- A pattern that has a spelling: a number or the wildcard. -/
def ClauseOf.Spellable (clause : Clause) : Prop :=
  clause.pattern = none ∨ ∃ value line, clause.pattern = some (.number value line)

/-- Terms that can be printed: patterns have spellings, and no list of clauses or
definitions is empty. -/
inductive Term.Printable : Term → Prop where
  | number (value : Float) (line : Nat) : Printable (.number value line)
  | identifier (name : String) (line : Nat) : Printable (.identifier name line)
  | builtin (operator : Builtin) (line : Nat) : Printable (.builtin operator line)
  | lambda {body : Term} (parameter : String) (line : Nat) (inside : Printable body) :
      Printable (.lambda parameter body line)
  | application {function argument : Term} (line : Nat) (applied : Printable function)
      (operand : Printable argument) : Printable (.application function argument line)
  | conditional {condition consequent alternative : Term} (line : Nat)
      (decision : Printable condition) (positive : Printable consequent)
      (negative : Printable alternative) :
      Printable (.conditional condition consequent alternative line)
  | selection {scrutinee : Term} {clauses : List Clause} (line : Nat)
      (examined : Printable scrutinee) (nonempty : clauses ≠ [])
      (patterns : ∀ clause ∈ clauses, clause.Spellable)
      (results : ∀ clause ∈ clauses, Printable clause.result) :
      Printable (.selection scrutinee clauses line)
  | binding {definitions : List Definition} {body : Term} (line : Nat)
      (nonempty : definitions ≠ [])
      (bodies : ∀ definition ∈ definitions, Printable definition.body)
      (inside : Printable body) : Printable (.binding definitions body line)

/-- A term without its lines. -/
def Term.unplaced (term : Term) : Term := term.onLines fun _ => 0

/-- A clause without its lines. -/
def ClauseOf.unplaced (clause : Clause) : Clause := clause.onLines fun _ => 0

/-- A definition without its lines. -/
def DefinitionOf.unplaced (definition : Definition) : Definition := definition.onLines fun _ => 0

namespace BinaryBuiltin

variable {operator : BinaryBuiltin}

/-- A comparison belongs to no other level. -/
theorem comparison_only (compares : operator.isComparison = true) :
    operator.isAdditive = false ∧ operator.isMultiplicative = false := by
  cases operator <;> first | exact ⟨rfl, rfl⟩ | cases compares

/-- A sum is no product. -/
theorem additive_only (adds : operator.isAdditive = true) : operator.isMultiplicative = false := by
  cases operator <;> first | rfl | cases adds

end BinaryBuiltin

namespace Parser

open Grammar

/-! ### Parts of an expression -/

section Parts

variable {α : Type} {tokens middle rest : List Located}

/-- A step that declines at once leaves the value as it is. -/
theorem repeatStep_declined {step : α → Parser (Option α)} {value : α}
    (declined : step value tokens = .ok none tokens) :
    repeatStep step value tokens = .ok value tokens := by
  unfold repeatStep
  cases tokens.length with
  | zero => rfl
  | succ rounds => exact bind_eq_ok.mpr ⟨none, tokens, declined, rfl⟩

/-- A step that goes on once and then declines gives the next value. -/
theorem repeatStep_once {step : α → Parser (Option α)} {value next : α} {first : Located}
    (continued : step value (first :: tokens) = .ok (some next) rest)
    (declined : step next rest = .ok none rest) :
    repeatStep step value (first :: tokens) = .ok next rest := by
  unfold repeatStep
  refine bind_eq_ok.mpr ⟨some next, rest, continued, ?_⟩
  dsimp only
  cases tokens.length with
  | zero => rfl
  | succ rounds => exact bind_eq_ok.mpr ⟨none, rest, declined, rfl⟩

/-- No operator of a level is next. -/
def Declines (accepts : BinaryBuiltin → Bool) (tokens : List Located) : Prop :=
  ∀ found more, tokens = found :: more →
    ∀ operator, found.token.operator = some operator → accepts operator = false

/-- Where an expression stops no operator is next. -/
theorem declines_stops (accepts : BinaryBuiltin → Bool) (stops : Stops rest) :
    Declines accepts rest := by
  intro found more same operator known
  rw [(stops found more same).2.1] at known
  cases known

/-- An operand is alone where no operator of the level is next. -/
theorem level_alone {accepts : BinaryBuiltin → Bool} {next : Parser Term} {term : Term}
    (taken : next tokens = .ok term rest) (declines : Declines accepts rest) :
    level accepts next tokens = .ok term rest :=
  bind_eq_ok.mpr ⟨term, rest, taken, repeatStep_declined (operand_eq_none.mpr ⟨rfl, declines⟩)⟩

/-- Two operands with a sign of the level between them are joined. -/
theorem level_pair {accepts : BinaryBuiltin → Bool} {next : Parser Term} {left right : Term}
    {sign : Located} {operator : BinaryBuiltin}
    (taken : next tokens = .ok left (sign :: middle))
    (known : sign.token.operator = some operator) (accepted : accepts operator = true)
    (joined : next middle = .ok right rest) (stops : Stops rest) :
    level accepts next tokens = .ok (.infixed operator left right sign.position.line) rest := by
  refine bind_eq_ok.mpr ⟨left, _, taken, repeatStep_once ?_ ?_⟩
  · exact operand_eq_some.mpr ⟨sign, middle, operator, right, rfl, known, accepted, joined, rfl⟩
  · exact operand_eq_none.mpr ⟨rfl, declines_stops accepts stops⟩

/-- An atom is alone where no argument follows. -/
theorem application_alone {inner : Parser Term} {term : Term}
    (taken : atom inner tokens = .ok term rest)
    (ends : ∀ next more, rest = next :: more → next.token.startsAtom = true →
      startsDefinition rest = true) :
    application inner tokens = .ok term rest :=
  bind_eq_ok.mpr ⟨term, rest, taken, repeatStep_declined (argument_eq_none.mpr ⟨rfl, ends⟩)⟩

/-- Tokens that are read as an atom begin an argument. -/
theorem atom_begins {inner : Parser Term} (yields : inner.Yields (Derives (.term .expression)))
    {term : Term} (taken : atom inner tokens = .ok term rest) (stops : Stops rest) :
    startsDefinition tokens = false ∧
      ∃ next more, tokens = next :: more ∧ next.token.startsAtom = true := by
  obtain ⟨used, rfl, derived⟩ := atom_yields yields taken
  obtain ⟨next, more, rfl, starts, -⟩ := derived.outline.phrase_beginsOperand
  exact ⟨(derived.outline.defines_nothing stops).1, next, more ++ rest, rfl, starts⟩

/-- An atom is applied to the one after it. -/
theorem application_pair {inner : Parser Term}
    (yields : inner.Yields (Derives (.term .expression))) {function argument : Term}
    (taken : atom inner tokens = .ok function middle)
    (argued : atom inner middle = .ok argument rest) (stops : Stops rest) :
    ∃ line, application inner tokens = .ok (.application function argument line) rest := by
  obtain ⟨undefined, next, more, rfl, starts⟩ := atom_begins yields argued stops
  refine ⟨next.position.line, bind_eq_ok.mpr ⟨function, _, taken, repeatStep_once ?_ ?_⟩⟩
  · exact argument_eq_some.mpr ⟨next, more, argument, rfl, starts, undefined, argued, rfl⟩
  · exact argument_eq_none.mpr ⟨rfl, fun next more same => (stops next more same).2.2⟩

/-- An application in front of a place where an expression stops is an expression
of its own. -/
theorem expression_of_application {term : Term}
    (taken : application expression tokens = .ok term rest) (stops : Stops rest) :
    expression tokens = .ok term rest := by
  have product := level_alone taken (declines_stops BinaryBuiltin.isMultiplicative stops)
  have sum := level_alone product (declines_stops BinaryBuiltin.isAdditive stops)
  exact expression_of_comparison
    (level_alone sum (declines_stops BinaryBuiltin.isComparison stops))

/-- An atom is an expression where an expression stops. -/
theorem expression_alone {term : Term} (taken : atom expression tokens = .ok term rest)
    (stops : Stops rest) : expression tokens = .ok term rest :=
  expression_of_application
    (application_alone taken fun next more same => (stops next more same).2.2) stops

/-- Two atoms with a sign between them are read at the level of the sign. -/
theorem expression_infixed {left right : Term} {sign : Located} {operator : BinaryBuiltin}
    (taken : atom expression tokens = .ok left (sign :: middle))
    (known : sign.token.operator = some operator)
    (joined : atom expression middle = .ok right rest) (stops : Stops rest) :
    expression tokens = .ok (.infixed operator left right sign.position.line) rest := by
  have ends := fun next more same => (stops next more same).2.2
  have first : application expression tokens = .ok left (sign :: middle) := by
    refine application_alone taken fun next more same starts => ?_
    cases same
    rw [Token.startsAtom_sign known] at starts
    cases starts
  have second := application_alone joined ends
  -- A level that does not know the operator leaves the sign to the next looser one.
  have refuses : ∀ {accepts : BinaryBuiltin → Bool}, accepts operator = false →
      Declines accepts (sign :: middle) := by
    intro accepts refused found more same other stands
    cases same
    rw [known] at stands
    cases stands
    exact refused
  apply expression_of_comparison
  obtain compares | adds | multiplies := Token.operator_level known
  · obtain ⟨noSum, noProduct⟩ := BinaryBuiltin.comparison_only compares
    have firstSum := level_alone (level_alone first (refuses noProduct)) (refuses noSum)
    have secondSum := level_alone
      (level_alone second (declines_stops BinaryBuiltin.isMultiplicative stops))
      (declines_stops BinaryBuiltin.isAdditive stops)
    exact level_pair firstSum known compares secondSum stops
  · have firstProduct := level_alone first (refuses (BinaryBuiltin.additive_only adds))
    have secondProduct :=
      level_alone second (declines_stops BinaryBuiltin.isMultiplicative stops)
    have sum := level_pair firstProduct known adds secondProduct stops
    exact level_alone sum (declines_stops BinaryBuiltin.isComparison stops)
  · have product := level_pair first known multiplies second stops
    have sum := level_alone product (declines_stops BinaryBuiltin.isAdditive stops)
    exact level_alone sum (declines_stops BinaryBuiltin.isComparison stops)

/-! ### Lists with commas -/

/-- One item up to the closing token is a list. -/
theorem separated_last {item : Parser α} {closing : Token} {value : α} {p : Position}
    (advances : item.Advances) (different : closing ≠ .mark .comma)
    (taken : item tokens = .ok value (⟨closing, p⟩ :: rest)) :
    separated item closing tokens = .ok [value] rest := by
  have progress := advances taken
  obtain ⟨rounds, count⟩ : ∃ rounds, tokens.length = rounds + 1 := ⟨tokens.length - 1, by omega⟩
  rw [separated, count]
  refine bind_eq_ok.mpr ⟨value, _, taken, ?_⟩
  exact bind_eq_ok.mpr ⟨false, rest, (continues_eq_ok different).mpr ⟨p, rfl⟩, rfl⟩

/-- An item and a comma before a list make a longer list. -/
theorem separated_more {item : Parser α} {closing : Token} {value : α} {others : List α}
    {p : Position} (advances : item.Advances) (different : closing ≠ .mark .comma)
    (taken : item tokens = .ok value (⟨.mark .comma, p⟩ :: middle))
    (continued : separated item closing middle = .ok others rest) :
    separated item closing tokens = .ok (value :: others) rest := by
  have progress := advances taken
  rw [List.length_cons] at progress
  obtain ⟨rounds, count⟩ : ∃ rounds, tokens.length = rounds + 1 := ⟨tokens.length - 1, by omega⟩
  have itself : Carries .still [] middle.length id item item := by
    intro tokens value rest _ succeeded
    simpa using succeeded
  have bounded := separatedWithin_carries itself advances different middle.length rounds
    (Nat.le_refl _) (Nat.le_refl _) (by omega) continued
  simp only [Relocation.tokens_still, List.append_nil, List.map_id] at bounded
  rw [separated, count]
  refine bind_eq_ok.mpr ⟨value, _, taken, ?_⟩
  refine bind_eq_ok.mpr ⟨true, middle, (continues_eq_ok different).mpr ⟨p, rfl⟩, ?_⟩
  exact bind_eq_ok.mpr ⟨others, rest, bounded, rfl⟩

end Parts

/-! ### What is printed is read back -/

/-- A parser reads a value up to its lines and leaves the rest. -/
def ReadsAs {α : Type} (parser : Parser α) (unplaced : α → α) (value : α)
    (tokens rest : List Located) : Prop :=
  ∃ found, parser tokens = .ok found rest ∧ unplaced found = unplaced value

/-- Tokens are read as what is printed: a term as an atom in front of anything, an
entry in front of a place where an expression stops, and a list in front of the
token that closes it. -/
def ReadsBack (tokens : List Located) : Printed → Prop
  | .term term => ∀ rest, ReadsAs (atom expression) Term.unplaced term (tokens ++ rest) rest
  | .clause clause => ∀ rest, Stops rest →
      ReadsAs (Parser.clause expression) ClauseOf.unplaced clause (tokens ++ rest) rest
  | .clauses clauses => ∀ p rest,
      ReadsAs (separated (Parser.clause expression) (.keyword .endWord))
        (List.map ClauseOf.unplaced) clauses (tokens ++ ⟨.keyword .endWord, p⟩ :: rest) rest
  | .definition definition => ∀ rest, Stops rest →
      ReadsAs (Parser.definition expression) DefinitionOf.unplaced definition (tokens ++ rest) rest
  | .definitions definitions => ∀ p rest,
      ReadsAs (separated (Parser.definition expression) (.keyword .inWord))
        (List.map DefinitionOf.unplaced) definitions (tokens ++ ⟨.keyword .inWord, p⟩ :: rest) rest

/-- A clause takes a token. -/
theorem clause_advances : (Parser.clause expression).Advances :=
  (clause_yields expression_yields).advances fun _ _ derived => derived.nonempty

/-- A definition takes a token. -/
theorem definition_advances : (Parser.definition expression).Advances :=
  (definition_yields expression_yields).advances fun _ _ derived => derived.nonempty

namespace ReadsBack

variable {tokens first second third : List Located}

/-- A printed lambda is read back. -/
theorem lambda {body : Term} (inner : ReadsBack tokens (.term body)) (parameter : String)
    (line : Nat) (p q r s t : Position) :
    ReadsBack (⟨.mark .openParen, p⟩ :: ⟨.mark .backslash, q⟩ :: ⟨.identifier parameter, r⟩ ::
      ⟨.mark .dot, s⟩ :: (tokens ++ [⟨.mark .closeParen, t⟩]))
      (.term (.lambda parameter body line)) := by
  intro rest
  simp only [List.cons_append, List.append_assoc, List.nil_append]
  have stops : Stops (⟨.mark .closeParen, t⟩ :: rest) := stops_closing rfl t rest
  obtain ⟨found, taken, alike⟩ := inner (⟨.mark .closeParen, t⟩ :: rest)
  have read : atom expression (⟨.mark .backslash, q⟩ :: ⟨.identifier parameter, r⟩ ::
      ⟨.mark .dot, s⟩ :: (tokens ++ ⟨.mark .closeParen, t⟩ :: rest)) =
      .ok (.lambda parameter found q.line) (⟨.mark .closeParen, t⟩ :: rest) :=
    lambda_eq_ok.mpr ⟨parameter, found, r, s, _, rfl, rfl, expression_alone taken stops⟩
  refine ⟨_, parenthesized_eq_ok.mpr ⟨t, expression_alone read stops⟩, ?_⟩
  simp only [Term.unplaced, Term.onLines] at alike ⊢
  rw [alike]

/-- The line of the application is that of its argument's first token. -/
theorem application {function argument : Term} (applied : ReadsBack first (.term function))
    (operand : ReadsBack second (.term argument)) (line : Nat) (p q : Position) :
    ReadsBack (⟨.mark .openParen, p⟩ :: (first ++ (second ++ [⟨.mark .closeParen, q⟩])))
      (.term (.application function argument line)) := by
  intro rest
  simp only [List.cons_append, List.append_assoc, List.nil_append]
  have stops : Stops (⟨.mark .closeParen, q⟩ :: rest) := stops_closing rfl q rest
  obtain ⟨left, leftTaken, leftAlike⟩ := applied (second ++ ⟨.mark .closeParen, q⟩ :: rest)
  obtain ⟨right, rightTaken, rightAlike⟩ := operand (⟨.mark .closeParen, q⟩ :: rest)
  obtain ⟨place, taken⟩ := application_pair expression_yields leftTaken rightTaken stops
  refine ⟨_, parenthesized_eq_ok.mpr ⟨q, expression_of_application taken stops⟩, ?_⟩
  simp only [Term.unplaced, Term.onLines] at leftAlike rightAlike ⊢
  rw [leftAlike, rightAlike]

/-- A printed infix application is read back. -/
theorem infixed {left right : Term} {sign : Mark} {operator : BinaryBuiltin}
    (known : sign.operator = some operator) (before : ReadsBack first (.term left))
    (after : ReadsBack second (.term right)) (builtinLine innerLine line : Nat)
    (p q r : Position) :
    ReadsBack
      (⟨.mark .openParen, p⟩ ::
        (first ++ ⟨.mark sign, q⟩ :: (second ++ [⟨.mark .closeParen, r⟩])))
      (.term (.application (.application (.builtin (.binary operator) builtinLine) left innerLine)
        right line)) := by
  intro rest
  simp only [List.cons_append, List.append_assoc, List.nil_append]
  have stops : Stops (⟨.mark .closeParen, r⟩ :: rest) := stops_closing rfl r rest
  obtain ⟨left, leftTaken, leftAlike⟩ :=
    before (⟨.mark sign, q⟩ :: (second ++ ⟨.mark .closeParen, r⟩ :: rest))
  obtain ⟨right, rightTaken, rightAlike⟩ := after (⟨.mark .closeParen, r⟩ :: rest)
  have taken := expression_infixed leftTaken known rightTaken stops
  refine ⟨_, parenthesized_eq_ok.mpr ⟨r, taken⟩, ?_⟩
  simp only [Term.unplaced, Term.infixed, Term.onLines] at leftAlike rightAlike ⊢
  rw [leftAlike, rightAlike]

/-- A printed conditional is read back. -/
theorem conditional {condition consequent alternative : Term}
    (decision : ReadsBack first (.term condition)) (positive : ReadsBack second (.term consequent))
    (negative : ReadsBack third (.term alternative)) (line : Nat) (p q r s : Position) :
    ReadsBack
      (⟨.keyword .ifWord, p⟩ :: (first ++ ⟨.keyword .thenWord, q⟩ ::
        (second ++ ⟨.keyword .elseWord, r⟩ :: (third ++ [⟨.keyword .endWord, s⟩]))))
      (.term (.conditional condition consequent alternative line)) := by
  intro rest
  simp only [List.cons_append, List.append_assoc, List.nil_append]
  obtain ⟨tested, decided, testedAlike⟩ := decision (⟨.keyword .thenWord, q⟩ ::
    (second ++ ⟨.keyword .elseWord, r⟩ :: (third ++ ⟨.keyword .endWord, s⟩ :: rest)))
  obtain ⟨chosen, taken, chosenAlike⟩ :=
    positive (⟨.keyword .elseWord, r⟩ :: (third ++ ⟨.keyword .endWord, s⟩ :: rest))
  obtain ⟨other, refused, otherAlike⟩ := negative (⟨.keyword .endWord, s⟩ :: rest)
  refine ⟨_, conditional_eq_ok.mpr ⟨tested, chosen, other, q, r, s, _, _, rfl,
    expression_alone decided (stops_closing rfl q _),
    expression_alone taken (stops_closing rfl r _),
    expression_alone refused (stops_closing rfl s _)⟩, ?_⟩
  simp only [Term.unplaced, Term.onLines] at testedAlike chosenAlike otherAlike ⊢
  rw [testedAlike, chosenAlike, otherAlike]

/-- A printed selection is read back. -/
theorem selection {scrutinee : Term} {clauses : List Clause}
    (examined : ReadsBack first (.term scrutinee)) (choices : ReadsBack second (.clauses clauses))
    (line : Nat) (p q r : Position) :
    ReadsBack
      (⟨.keyword .caseWord, p⟩ :: (first ++ ⟨.keyword .ofWord, q⟩ ::
        (second ++ [⟨.keyword .endWord, r⟩])))
      (.term (.selection scrutinee clauses line)) := by
  intro rest
  simp only [List.cons_append, List.append_assoc, List.nil_append]
  obtain ⟨found, taken, alike⟩ :=
    examined (⟨.keyword .ofWord, q⟩ :: (second ++ ⟨.keyword .endWord, r⟩ :: rest))
  obtain ⟨listed, read, listedAlike⟩ := choices r rest
  refine ⟨_, selection_eq_ok.mpr ⟨found, listed, q, _, rfl,
    expression_alone taken (stops_closing rfl q _), read⟩, ?_⟩
  simp only [Term.unplaced, Term.onLines, clausesOnLines_eq_map] at alike ⊢
  rw [alike]
  exact congrArg (Term.selection _ · 0) listedAlike

/-- A printed binding is read back. -/
theorem binding {definitions : List Definition} {body : Term}
    (bound : ReadsBack first (.definitions definitions)) (inner : ReadsBack second (.term body))
    (line : Nat) (p q r : Position) :
    ReadsBack
      (⟨.keyword .letWord, p⟩ :: (first ++ ⟨.keyword .inWord, q⟩ ::
        (second ++ [⟨.keyword .endWord, r⟩])))
      (.term (.binding definitions body line)) := by
  intro rest
  simp only [List.cons_append, List.append_assoc, List.nil_append]
  obtain ⟨listed, read, listedAlike⟩ := bound q (second ++ ⟨.keyword .endWord, r⟩ :: rest)
  obtain ⟨found, taken, alike⟩ := inner (⟨.keyword .endWord, r⟩ :: rest)
  refine ⟨_, binding_eq_ok.mpr ⟨listed, found, r, _, rfl, read,
    expression_alone taken (stops_closing rfl r _)⟩, ?_⟩
  simp only [Term.unplaced, Term.onLines, definitionsOnLines_eq_map] at alike ⊢
  rw [alike]
  exact congrArg (Term.binding · _ 0) listedAlike

/-- A printed clause with a numeral is read back. -/
theorem numbered {result : Term} (inner : ReadsBack tokens (.term result)) (value : Float)
    (patternLine line : Nat) (p q : Position) :
    ReadsBack (⟨.number value, p⟩ :: ⟨.mark .arrow, q⟩ :: tokens)
      (.clause ⟨some (.number value patternLine), result, line⟩) := by
  intro rest stops
  obtain ⟨found, taken, alike⟩ := inner rest
  refine ⟨⟨some (.number value p.line), found, p.line⟩, clause_eq_ok.mpr ⟨p, q, tokens ++ rest,
    expression_alone taken stops, rfl, .inl ⟨value, rfl, rfl⟩⟩, ?_⟩
  exact congrArg (ClauseOf.mk _ · 0) alike

/-- A printed clause with the wildcard is read back. -/
theorem wildcard {result : Term} (inner : ReadsBack tokens (.term result)) (line : Nat)
    (p q : Position) :
    ReadsBack (⟨.mark .underscore, p⟩ :: ⟨.mark .arrow, q⟩ :: tokens)
      (.clause ⟨none, result, line⟩) := by
  intro rest stops
  obtain ⟨found, taken, alike⟩ := inner rest
  refine ⟨⟨none, found, p.line⟩, clause_eq_ok.mpr ⟨p, q, tokens ++ rest,
    expression_alone taken stops, rfl, .inr ⟨rfl, rfl⟩⟩, ?_⟩
  exact congrArg (ClauseOf.mk _ · 0) alike

/-- A printed definition is read back. -/
theorem named {body : Term} (inner : ReadsBack tokens (.term body)) (name : String) (line : Nat)
    (p q : Position) :
    ReadsBack (⟨.identifier name, p⟩ :: ⟨.mark .assign, q⟩ :: tokens)
      (.definition ⟨name, body, line⟩) := by
  intro rest stops
  obtain ⟨found, taken, alike⟩ := inner rest
  refine ⟨⟨name, found, p.line⟩, definition_eq_ok.mpr ⟨p, q, tokens ++ rest, rfl, rfl,
    expression_alone taken stops⟩, ?_⟩
  exact congrArg (DefinitionOf.mk name · 0) alike

end ReadsBack

/-! Lists of clauses and of definitions are read alike. -/

section Lists

variable {α : Type} {item : Parser α} {unplaced : α → α} {value : α} {others : List α}
  {closing : Token} (advances : item.Advances) (different : closing ≠ .mark .comma)
  {first second : List Located}
  (one : ∀ rest, Stops rest → ReadsAs item unplaced value (first ++ rest) rest)

include advances different one

/-- An entry that is read back is a list of one up to the closing token. -/
theorem readsAs_last (final : closes closing = true) (p : Position) (rest : List Located) :
    ReadsAs (separated item closing) (List.map unplaced) [value] (first ++ ⟨closing, p⟩ :: rest)
      rest := by
  obtain ⟨found, taken, alike⟩ := one (⟨closing, p⟩ :: rest) (stops_closing final p rest)
  refine ⟨[found], separated_last advances different taken, ?_⟩
  simp only [List.map_cons, List.map_nil, alike]

/-- An entry and a comma before a list that is read back make a longer one. -/
theorem readsAs_more
    (more : ∀ p rest, ReadsAs (separated item closing) (List.map unplaced) others
      (second ++ ⟨closing, p⟩ :: rest) rest) (q p : Position) (rest : List Located) :
    ReadsAs (separated item closing) (List.map unplaced) (value :: others)
      (first ++ ⟨.mark .comma, q⟩ :: second ++ ⟨closing, p⟩ :: rest) rest := by
  simp only [List.cons_append, List.append_assoc]
  obtain ⟨found, taken, alike⟩ := one (⟨.mark .comma, q⟩ :: (second ++ ⟨closing, p⟩ :: rest))
    (stops_closing rfl q _)
  obtain ⟨listed, continued, listedAlike⟩ := more p rest
  refine ⟨found :: listed, separated_more advances different taken continued, ?_⟩
  simp only [List.map_cons, alike, listedAlike]

end Lists

/-- A list of tokens at places begins with a token when its first one is that token,
at some place. -/
theorem map_token_eq_cons {located : List Located} {token : Token} {tokens : List Token} :
    located.map Located.token = token :: tokens ↔
      ∃ p more, located = ⟨token, p⟩ :: more ∧ more.map Located.token = tokens := by
  constructor
  · intro same
    obtain ⟨first, more, rfl, rfl, rest⟩ := List.map_eq_cons_iff.mp same
    exact ⟨first.position, more, rfl, rest⟩
  · rintro ⟨p, more, rfl, rfl⟩
    rfl

/-- Induction on what is printed: the tokens are taken apart along the form, and
the parts are read by the induction hypotheses. -/
theorem readsBack {printed : Printed} {tokens : List Token} (prints : Prints printed tokens)
    {located : List Located} (same : located.map Located.token = tokens) :
    ReadsBack located printed := by
  induction prints generalizing located with
  | number value line =>
    simp only [map_token_eq_cons, List.map_eq_nil_iff] at same
    obtain ⟨p, _, rfl, rfl⟩ := same
    exact fun rest => ⟨.number value p.line, rfl, rfl⟩
  | identifier name line =>
    simp only [map_token_eq_cons, List.map_eq_nil_iff] at same
    obtain ⟨p, _, rfl, rfl⟩ := same
    exact fun rest => ⟨.identifier name p.line, rfl, rfl⟩
  | builtin operator line =>
    simp only [map_token_eq_cons, List.map_eq_nil_iff] at same
    obtain ⟨p, _, rfl, rfl⟩ := same
    exact fun rest => ⟨.builtin operator p.line, rfl, rfl⟩
  | lambda parameter line _ inner =>
    simp only [List.cons_append, map_token_eq_cons, List.map_eq_append_iff, List.map_eq_nil_iff]
      at same
    obtain ⟨p, _, rfl, q, _, rfl, r, _, rfl, s, _, rfl, tokens, _, rfl, body, t, _, rfl,
      rfl⟩ := same
    exact (inner body).lambda parameter line p q r s t
  | application line _ _ function argument =>
    simp only [List.cons_append, List.append_assoc, map_token_eq_cons, List.map_eq_append_iff,
      List.map_eq_nil_iff] at same
    obtain ⟨p, _, rfl, first, _, rfl, applied, second, _, rfl, operand, q, _, rfl, rfl⟩ := same
    exact (function applied).application (argument operand) line p q
  | infixed builtinLine innerLine line known _ _ before after =>
    simp only [List.cons_append, List.append_assoc, map_token_eq_cons, List.map_eq_append_iff,
      List.map_eq_nil_iff] at same
    obtain ⟨p, _, rfl, first, _, rfl, left, q, _, rfl, second, _, rfl, right, r, _, rfl,
      rfl⟩ := same
    exact .infixed known (before left) (after right) builtinLine innerLine line p q r
  | conditional line _ _ _ decision positive negative =>
    simp only [List.cons_append, List.append_assoc, map_token_eq_cons, List.map_eq_append_iff,
      List.map_eq_nil_iff] at same
    obtain ⟨p, _, rfl, first, _, rfl, condition, q, _, rfl, second, _, rfl, consequent, r, _, rfl,
      third, _, rfl, alternative, s, _, rfl, rfl⟩ := same
    exact (decision condition).conditional (positive consequent) (negative alternative) line p q r s
  | selection line _ _ examined choices =>
    simp only [List.cons_append, List.append_assoc, map_token_eq_cons, List.map_eq_append_iff,
      List.map_eq_nil_iff] at same
    obtain ⟨p, _, rfl, first, _, rfl, scrutinee, q, _, rfl, second, _, rfl, clauses, r, _, rfl,
      rfl⟩ := same
    exact (examined scrutinee).selection (choices clauses) line p q r
  | binding line _ _ bound inner =>
    simp only [List.cons_append, List.append_assoc, map_token_eq_cons, List.map_eq_append_iff,
      List.map_eq_nil_iff] at same
    obtain ⟨p, _, rfl, first, _, rfl, definitions, q, _, rfl, second, _, rfl, body, r, _, rfl,
      rfl⟩ := same
    exact (bound definitions).binding (inner body) line p q r
  | numbered value patternLine line _ inner =>
    simp only [map_token_eq_cons] at same
    obtain ⟨p, _, rfl, q, tokens, rfl, result⟩ := same
    exact (inner result).numbered value patternLine line p q
  | wildcard line _ inner =>
    simp only [map_token_eq_cons] at same
    obtain ⟨p, _, rfl, q, tokens, rfl, result⟩ := same
    exact (inner result).wildcard line p q
  | lastClause _ last => exact readsAs_last clause_advances (by simp) (last same) rfl
  | moreClauses _ _ one more =>
    simp only [map_token_eq_cons, List.map_eq_append_iff] at same
    obtain ⟨first, _, rfl, clause, q, second, rfl, clauses⟩ := same
    exact readsAs_more clause_advances (by simp) (one clause) (more clauses) q
  | named name line _ inner =>
    simp only [map_token_eq_cons] at same
    obtain ⟨p, _, rfl, q, tokens, rfl, body⟩ := same
    exact (inner body).named name line p q
  | lastDefinition _ last => exact readsAs_last definition_advances (by simp) (last same) rfl
  | moreDefinitions _ _ one more =>
    simp only [map_token_eq_cons, List.map_eq_append_iff] at same
    obtain ⟨first, _, rfl, definition, q, second, rfl, definitions⟩ := same
    exact readsAs_more definition_advances (by simp) (one definition) (more definitions) q

end Parser

/-! ### Terms have printed forms -/

/-- Clauses whose patterns have spellings are printed if their results are. -/
theorem prints_clauses {clauses : List Clause} (nonempty : clauses ≠ [])
    (patterns : ∀ clause ∈ clauses, clause.Spellable)
    (results : ∀ clause ∈ clauses, ∃ tokens, Prints (.term clause.result) tokens) :
    ∃ tokens, Prints (.clauses clauses) tokens := by
  induction clauses with
  | nil => exact absurd rfl nonempty
  | cons clause rest inductionHypothesis =>
    have first : ∃ tokens, Prints (.clause clause) tokens := by
      obtain ⟨pattern, result, line⟩ := clause
      obtain ⟨tokens, printed⟩ := results _ List.mem_cons_self
      obtain rfl | ⟨value, patternLine, rfl⟩ := patterns _ List.mem_cons_self
      · exact ⟨_, .wildcard line printed⟩
      · exact ⟨_, .numbered value patternLine line printed⟩
    obtain ⟨tokens, one⟩ := first
    cases rest with
    | nil => exact ⟨tokens, .lastClause one⟩
    | cons next others =>
      obtain ⟨following, more⟩ := inductionHypothesis (by simp)
        (fun clause member => patterns clause (by simp [member]))
        (fun clause member => results clause (by simp [member]))
      exact ⟨_, .moreClauses one more⟩

/-- Definitions are printed if their bodies are. -/
theorem prints_definitions {definitions : List Definition} (nonempty : definitions ≠ [])
    (bodies : ∀ definition ∈ definitions, ∃ tokens, Prints (.term definition.body) tokens) :
    ∃ tokens, Prints (.definitions definitions) tokens := by
  induction definitions with
  | nil => exact absurd rfl nonempty
  | cons definition rest inductionHypothesis =>
    obtain ⟨name, body, line⟩ := definition
    obtain ⟨inner, printed⟩ := bodies _ List.mem_cons_self
    have one : Prints (.definition ⟨name, body, line⟩) _ := .named name line printed
    cases rest with
    | nil => exact ⟨_, .lastDefinition one⟩
    | cons next others =>
      obtain ⟨following, more⟩ := inductionHypothesis (by simp)
        (fun definition member => bodies definition (by simp [member]))
      exact ⟨_, .moreDefinitions one more⟩

/-- A term that can be printed is printed as some tokens; the induction follows the
term. -/
theorem Term.Printable.prints {term : Term} (printable : term.Printable) :
    ∃ tokens, Prints (.term term) tokens := by
  induction printable with
  | number value line => exact ⟨_, .number value line⟩
  | identifier name line => exact ⟨_, .identifier name line⟩
  | builtin operator line => exact ⟨_, .builtin operator line⟩
  | lambda parameter line _ inner =>
    obtain ⟨tokens, printed⟩ := inner
    exact ⟨_, .lambda parameter line printed⟩
  | application line _ _ function argument =>
    obtain ⟨first, applied⟩ := function
    obtain ⟨second, operand⟩ := argument
    exact ⟨_, .application line applied operand⟩
  | conditional line _ _ _ decision positive negative =>
    obtain ⟨tested, decided⟩ := decision
    obtain ⟨first, chosen⟩ := positive
    obtain ⟨second, other⟩ := negative
    exact ⟨_, .conditional line decided chosen other⟩
  | selection line _ nonempty patterns _ examined results =>
    obtain ⟨inner, scrutinee⟩ := examined
    obtain ⟨listed, choices⟩ := prints_clauses nonempty patterns results
    exact ⟨_, .selection line scrutinee choices⟩
  | binding line nonempty _ _ bodies inside =>
    obtain ⟨listed, bound⟩ := prints_definitions nonempty bodies
    obtain ⟨inner, printed⟩ := inside
    exact ⟨_, .binding line bound printed⟩

/-- Every term that can be printed has a printed form, and every printed form of it,
with its tokens at any places and in front of any tokens, is read as an atom: the
tokens after it are left, and the term is the printed one up to its lines. -/
theorem Parser.atom_undoes_printing (term : Term) (printable : term.Printable) :
    (∃ tokens, Prints (.term term) tokens) ∧
      ∀ tokens, Prints (.term term) tokens → ∀ located, located.map Located.token = tokens →
        ∀ rest, ∃ found, Parser.atom Parser.expression (located ++ rest) = .ok found rest ∧
          found.unplaced = term.unplaced :=
  ⟨printable.prints, fun _ prints _ same => Parser.readsBack prints same⟩

/-- `(x + (y z))` in front of an equals sign, which would make a definition of a name. -/
theorem Parser.atom_undoes_printing_sum :
    let term : Term :=
      .application (.application (.builtin (.binary .plus) 1) (.identifier "x" 1) 1)
        (.application (.identifier "y" 2) (.identifier "z" 2) 2) 2
    let tokens : List Token := [.mark .openParen, .identifier "x", .mark .plus, .mark .openParen,
      .identifier "y", .identifier "z", .mark .closeParen, .mark .closeParen]
    term.Printable ∧ Prints (.term term) tokens ∧
      ∃ found, Parser.atom Parser.expression
          (tokens.map (⟨·, ⟨7, 1⟩⟩) ++ [⟨.mark .assign, ⟨7, 1⟩⟩]) =
            .ok found [⟨.mark .assign, ⟨7, 1⟩⟩] ∧
        found.unplaced = term.unplaced := by
  intro term tokens
  have printable : term.Printable :=
    .application 2 (.application 1 (.builtin _ 1) (.identifier "x" 1))
      (.application 2 (.identifier "y" 2) (.identifier "z" 2))
  have prints : Prints (.term term) tokens :=
    .infixed 1 1 2 rfl (.identifier "x" 1)
      (.application 2 (.identifier "y" 2) (.identifier "z" 2))
  exact ⟨printable, prints,
    (atom_undoes_printing term printable).2 tokens prints _ rfl [⟨.mark .assign, ⟨7, 1⟩⟩]⟩

end Timbre
