import Mathlib.Data.List.Forall2
import Timbre.Proofs.Delivery

/-!
# Every byte of a text is accounted for

The tokens of a text stand at byte ranges of it, one after another, and what
lies between the ranges is layout. The text of its range determines a token, and
the place that a token carries is the place of its range.
-/

namespace Timbre

/-! ### What a delivered token covers -/

/-- A token is delivered for `text` in front of `rest`: it is the longest one
there, a number with its sign, or one part of a numeral that begins with the dot
of a lambda. -/
inductive Covers : List Char → List Char → Token → Prop where
  | whole {text rest : List Char} {token : Token} (front : AtFront text rest token) :
      Covers text rest token
  | positive {text rest : List Char} {value : Float} (front : AtFront text rest (.number value)) :
      Covers ('+' :: text) rest (.number value)
  | negative {text rest : List Char} {value : Float} (front : AtFront text rest (.number value)) :
      Covers ('-' :: text) rest (.number (-value))
  | point {digits rest : List Char} {value : Float}
      (front : AtFront ('.' :: digits) rest (.number value)) :
      Covers ['.'] (digits ++ rest) (.mark .dot)
  | fraction {digits rest : List Char} {value : Float}
      (front : AtFront ('.' :: digits) rest (.number value)) :
      Covers digits rest (.number (numeralValue digits))

/-- The spellings of tokens, and those of numbers with a sign. -/
inductive Denotes : List Char → Token → Prop where
  | unsigned {text : List Char} {token : Token} (spells : Spells text token) : Denotes text token
  | positive {text : List Char} {value : Float} (spells : Spells text (.number value)) :
      Denotes ('+' :: text) (.number value)
  | negative {text : List Char} {value : Float} (spells : Spells text (.number value)) :
      Denotes ('-' :: text) (.number (-value))

/-- A number with a sign is not spelled by a single lexeme. -/
theorem Spells.not_signed {text : List Char} {value : Float} {sign : Char} {token : Token}
    (number : Spells text (.number value)) (signs : sign = '+' ∨ sign = '-') :
    ¬ Spells (sign :: text) token := by
  intro spells
  rcases spells.kinds with ⟨numeral, rfl⟩ | ⟨word, rfl⟩ | ⟨mark, spelled, rfl⟩
  · obtain ⟨_, _, same, starts⟩ := numeral.starts
    obtain ⟨rfl, _⟩ := List.cons.inj same
    rcases signs with rfl | rfl <;> exact absurd starts (by decide)
  · rcases signs with rfl | rfl <;> exact absurd word.1 (by decide)
  · obtain ⟨c, member, digit⟩ := number.of_number.1.digit
    exact Mark.not_digit (spelled ▸ List.mem_cons_of_mem sign member) digit

/-- A text is the spelling of at most one token or number with a sign. -/
theorem Denotes.unique {text : List Char} {token other : Token} (denotes : Denotes text token)
    (again : Denotes text other) : token = other := by
  cases denotes with
  | unsigned spells =>
    cases again with
    | unsigned same => exact spells.unique same
    | positive number => exact absurd spells (number.not_signed (.inl rfl))
    | negative number => exact absurd spells (number.not_signed (.inr rfl))
  | positive number =>
    cases again with
    | unsigned spells => exact absurd spells (number.not_signed (.inl rfl))
    | positive same => rw [number.unique same]
  | negative number =>
    cases again with
    | unsigned spells => exact absurd spells (number.not_signed (.inr rfl))
    | negative same =>
      have values := Token.number.inj (number.unique same)
      rw [values]

/-- No token has an empty spelling. -/
theorem Denotes.nonempty {text : List Char} {token : Token} (denotes : Denotes text token) :
    text ≠ [] := by
  cases denotes with
  | unsigned spells => exact spells.nonempty
  | positive spells => exact List.cons_ne_nil _ _
  | negative spells => exact List.cons_ne_nil _ _

namespace Covers

variable {text rest : List Char} {token : Token}

/-- What covers a text is spelled by it. -/
theorem denotes (covers : Covers text rest token) : Denotes text token := by
  cases covers with
  | whole front => exact .unsigned front.spells
  | positive front => exact .positive front.spells
  | negative front => exact .negative front.spells
  | point front => exact .unsigned (.mark .dot)
  | fraction front => exact .unsigned (.numeral front.spells.of_number.1.fraction)

/-- The text that a token covers determines the token. -/
theorem unique {other : Token} {after : List Char} (covers : Covers text rest token)
    (again : Covers text after other) : other = token :=
  again.denotes.unique covers.denotes

/-- A token that is delivered covers some text. -/
theorem nonempty (covers : Covers text rest token) : text ≠ [] := covers.denotes.nonempty

end Covers

/-! ### What is delivered tiles the text -/

/-- The first token of a tiled text, the layout before it and the tiles after it. -/
theorem Cursor.Tiles.uncons {covers : List Char → List Char → Token → Prop} {cursor : Cursor}
    {lexeme : Lexeme} {items : List Item} (tiles : cursor.Tiles covers (.ok lexeme :: items)) :
    ∃ gap text rest token, cursor.rest = gap ++ (text ++ rest) ∧ Layout (text ++ rest) gap ∧
      covers text rest token ∧ lexeme = (cursor.after gap (text ++ rest)).lexeme token text ∧
      (cursor.after (gap ++ text) rest).Tiles covers items := by
  generalize listed : (.ok lexeme :: items : List Item) = all at tiles
  cases tiles with
  | done layout => nomatch listed
  | token split layout covered others =>
    obtain ⟨same, rfl⟩ := List.cons.inj listed
    exact ⟨_, _, _, _, split, layout, covered, Except.ok.inj same, others⟩

/-- Delivery keeps a text tiled: joined tokens cover both texts, and a numeral that is
cut covers the same text in two parts. -/
theorem Delivers.tiles {context : Context} {items delivered : List Item} {cursor : Cursor}
    (delivers : Delivers context items delivered) (tiles : cursor.Tiles AtFront items) :
    cursor.Tiles Covers delivered := by
  induction delivers generalizing cursor with
  | nothing =>
    cases tiles with
    | done layout => exact .done layout
  | error _ _ => nomatch tiles
  | @joined _ _ _ _ _ _ _ _ _ signs _ inductionHypothesis =>
    obtain ⟨gap, text, rest, token, split, layout, front, rfl, others⟩ := tiles.uncons
    obtain ⟨between, digits, left, _, again, _, next, number, following⟩ := others.uncons
    simp only [Cursor.lexeme, Lexeme.mk.injEq] at number
    obtain ⟨rfl, rfl, adjacent, _⟩ := number
    -- The number begins where the sign stops, so nothing is between them.
    have empty : between = [] := by
      apply byteLength_eq_zero
      simp only [Lexeme.stop, Cursor.after, byteLength_append] at adjacent
      omega
    subst empty
    obtain rfl : rest = _ ++ left := again
    rw [Cursor.after_after, List.nil_append, List.append_assoc] at following
    cases signs with
    | plus =>
      obtain rfl : text = ['+'] := front.spells.of_mark
      exact @Cursor.Tiles.token Covers cursor gap _ left _ _ split layout (.positive next)
        (inductionHypothesis following)
    | minus =>
      obtain rfl : text = ['-'] := front.spells.of_mark
      exact @Cursor.Tiles.token Covers cursor gap _ left _ _ split layout (.negative next)
        (inductionHypothesis following)
  | @split _ _ digits _ _ _ delivered _ _ inductionHypothesis =>
    obtain ⟨gap, text, rest, token, split, layout, front, numeral, others⟩ := tiles.uncons
    simp only [Cursor.lexeme, Lexeme.mk.injEq] at numeral
    obtain ⟨rfl, rfl, rfl, rfl⟩ := numeral
    refine @Cursor.Tiles.token Covers cursor gap ['.'] (digits ++ rest) _ _ split layout
      (.point front) ?_
    rw [← Cursor.after_after cursor gap ('.' :: digits ++ rest)]
    refine @Cursor.Tiles.token Covers _ [] digits rest _ _ rfl .none (.fraction front) ?_
    simpa using inductionHypothesis others
  | whole _ _ _ inductionHypothesis =>
    obtain ⟨gap, text, rest, token, split, layout, front, rfl, others⟩ := tiles.uncons
    exact .token split layout (.whole front) (inductionHypothesis others)

/-! ### Byte ranges -/

/-- The bytes from `start` up to `stop`. -/
structure Range where
  start : Nat
  stop : Nat
  deriving DecidableEq, Repr

/-- The bytes of `inside` after the text `before`. -/
def Range.after (before inside : List Char) : Range :=
  ⟨byteLength before, byteLength (before ++ inside)⟩

/-- A range of a text is layout. -/
def Range.IsLayout (source : List Char) (range : Range) : Prop :=
  ∃ before inside after, source = before ++ (inside ++ after) ∧ range = .after before inside ∧
    Layout after inside

/-- A token stands at a range of a text: it covers the text there, which no
other token can, and its place is found by counting the newlines before it and
the bytes after the last of them. -/
def Located.StandsAt (source : List Char) (located : Located) (range : Range) : Prop :=
  ∃ before inside after, source = before ++ (inside ++ after) ∧ range = .after before inside ∧
    Covers inside after located.token ∧
    (∀ rest other, Covers inside rest other → other = located.token) ∧
    located.position = ⟨1 + before.count '\n', 1 + byteLength (lastLine before)⟩

/-- What lies between ranges, from the byte `start` up to `stop`. -/
def gaps (start stop : Nat) : List Range → List Range
  | [] => [⟨start, stop⟩]
  | range :: ranges => ⟨start, range.start⟩ :: gaps range.stop stop ranges

/-- The bytes that a lexeme covers. -/
def Lexeme.range (lexeme : Lexeme) : Range := ⟨lexeme.start, lexeme.stop⟩

namespace Cursor

/-- A cursor stands in a text after `before`. -/
structure In (cursor : Cursor) (source before : List Char) : Prop where
  split : source = before ++ cursor.rest
  offset : cursor.offset = byteLength before
  position : cursor.position = Position.start.advance before

/-- At the start of a text nothing is before the cursor. -/
theorem start_in (source : List Char) : (start source).In source [] := ⟨rfl, rfl, rfl⟩

/-- A cursor that has moved on stands after what it has passed. -/
theorem In.after {cursor : Cursor} {source before text rest : List Char}
    (inside : cursor.In source before) (split : cursor.rest = text ++ rest) :
    (cursor.after text rest).In source (before ++ text) where
  split := by rw [inside.split, split, List.append_assoc, rest_after]
  offset := by simp [Cursor.after, inside.offset]
  position := by simp [Cursor.after, inside.position]

namespace Tiles

/-- Each of the tokens stands at the range that it covers. -/
theorem standsAt {cursor : Cursor} {source before : List Char} {found : List Lexeme}
    (tiles : cursor.Tiles Covers (found.map .ok)) (inside : cursor.In source before) :
    ∀ lexeme ∈ found, lexeme.located.StandsAt source lexeme.range := by
  induction found generalizing cursor before with
  | nil => exact fun _ member => nomatch member
  | cons first found inductionHypothesis =>
    obtain ⟨gap, text, rest, token, split, _, covers, same, others⟩ := tiles.uncons
    have placed : (cursor.after gap (text ++ rest)).In source (before ++ gap) := inside.after split
    intro lexeme member
    rcases List.mem_cons.mp member with rfl | member
    · subst same
      refine ⟨before ++ gap, text, rest, placed.split, ?_, covers, ?_, ?_⟩
      · simp [Lexeme.range, Range.after, Lexeme.stop, Cursor.lexeme, placed.offset, Nat.add_assoc]
      · exact fun _ _ again => covers.unique again
      · exact placed.position.trans (Position.start_advance _)
    · have next := placed.after (rest_after cursor gap (text ++ rest))
      rw [after_after] at next
      exact inductionHypothesis others next lexeme member

/-- The gaps between the tokens are layout. -/
theorem gaps_layout {cursor : Cursor} {source before : List Char} {found : List Lexeme}
    (tiles : cursor.Tiles Covers (found.map .ok)) (inside : cursor.In source before) :
    ∀ gap ∈ gaps (byteLength before) (byteLength source) (found.map Lexeme.range),
      gap.IsLayout source := by
  induction found generalizing cursor before with
  | nil =>
    cases tiles with
    | done layout =>
      intro gap member
      obtain rfl := List.mem_singleton.mp member
      refine ⟨before, cursor.rest, [], ?_, ?_, layout⟩
      · rw [List.append_nil, inside.split]
      · rw [Range.after, ← inside.split]
  | cons first found inductionHypothesis =>
    obtain ⟨space, text, rest, token, split, layout, _, rfl, others⟩ := tiles.uncons
    have placed : (cursor.after space (text ++ rest)).In source (before ++ space) :=
      inside.after split
    have next := placed.after (rest_after cursor space (text ++ rest))
    intro gap member
    rcases List.mem_cons.mp member with rfl | member
    · refine ⟨before, space, text ++ rest, ?_, ?_, layout⟩
      · rw [inside.split, split]
      · simp only [Range.after, Lexeme.range, Cursor.lexeme, placed.offset]
    · rw [after_after] at next
      refine inductionHypothesis others next gap ?_
      simpa [Lexeme.range, Lexeme.stop, Cursor.lexeme, placed.offset, Nat.add_assoc] using member

/-- Every lexeme is reached from the cursor over some text. -/
theorem reached {cursor : Cursor} {found : List Lexeme}
    (tiles : cursor.Tiles Covers (found.map .ok)) :
    ∀ lexeme ∈ found, ∃ text, lexeme.start = cursor.offset + byteLength text ∧
      lexeme.position = cursor.position.advance text := by
  induction found generalizing cursor with
  | nil => exact fun _ member => nomatch member
  | cons first found inductionHypothesis =>
    obtain ⟨gap, text, rest, token, _, _, _, rfl, others⟩ := tiles.uncons
    intro lexeme member
    rcases List.mem_cons.mp member with rfl | member
    · exact ⟨gap, rfl, rfl⟩
    · obtain ⟨more, start, position⟩ := inductionHypothesis others lexeme member
      refine ⟨gap ++ text ++ more, ?_, ?_⟩
      · simp [start, Cursor.after, Nat.add_assoc]
      · simp [position, Cursor.after]

/-- Tokens end before later ones begin, and their places are in the same order. -/
theorem ordered {cursor : Cursor} {found : List Lexeme}
    (tiles : cursor.Tiles Covers (found.map .ok)) :
    found.Pairwise fun earlier later =>
      earlier.stop ≤ later.start ∧ earlier.position.Before later.position := by
  induction found generalizing cursor with
  | nil => exact .nil
  | cons first found inductionHypothesis =>
    obtain ⟨gap, text, rest, token, _, _, covers, rfl, others⟩ := tiles.uncons
    refine .cons ?_ (inductionHypothesis others)
    intro later member
    obtain ⟨more, start, position⟩ := others.reached later member
    constructor
    · simp [start, Lexeme.stop, Cursor.lexeme, Cursor.after, Nat.add_assoc]
    · have nonempty : text ++ more ≠ [] := List.append_ne_nil_of_left_ne_nil covers.nonempty more
      have before := (cursor.position.advance gap).before_advance nonempty
      simpa [position, Cursor.lexeme, Cursor.after] using before

end Tiles

end Cursor

/-- The tokens of a text that is accepted stand at byte ranges of it, none of
them empty and each after the one before. What is left of the text is layout,
and the places of the tokens increase. -/
theorem tokenize_covers_source (source : String) (tokens : List Located)
    (accepted : tokenize source = .ok tokens) :
    ∃ ranges : List Range,
      List.Forall₂ (Located.StandsAt source.toList) tokens ranges ∧
      (∀ range ∈ ranges, range.start < range.stop) ∧
      ranges.Pairwise (fun earlier later => earlier.stop ≤ later.start) ∧
      (∀ gap ∈ gaps 0 (byteLength source.toList) ranges, gap.IsLayout source.toList) ∧
      tokens.Pairwise (fun earlier later => earlier.position.Before later.position) := by
  obtain ⟨found, listed, rfl⟩ := tokenize_eq_ok.mp accepted
  have tiles := Cursor.scanAll_tiles _ (scanAll_accepted listed)
  have covered := (lexItems_delivers source).tiles tiles
  rw [listed] at covered
  have inside := Cursor.start_in source.toList
  have stands := covered.standsAt inside
  refine ⟨found.map Lexeme.range, ?_, ?_, ?_, covered.gaps_layout inside, ?_⟩
  · rw [List.forall₂_map_left_iff, List.forall₂_map_right_iff, List.forall₂_same]
    exact stands
  · intro range member
    obtain ⟨lexeme, inList, rfl⟩ := List.mem_map.mp member
    obtain ⟨before, inside, _, _, same, covers, _⟩ := stands lexeme inList
    have positive := byteLength_pos covers.nonempty
    simp only [same, Range.after, byteLength_append]
    omega
  · exact List.pairwise_map.mpr (covered.ordered.imp And.left)
  · exact List.pairwise_map.mpr (covered.ordered.imp And.right)

/-- A lambda whose dot runs into a numeral, a numeral that runs into a word, a
sign on the next line and a comment. -/
theorem tokenize_covers_source_split :
    let source := "\\x.5else\n-3 # end"
    let tokens : List Located :=
      [⟨.mark .backslash, ⟨1, 1⟩⟩, ⟨.identifier "x", ⟨1, 2⟩⟩, ⟨.mark .dot, ⟨1, 3⟩⟩,
        ⟨.number (numeralValue ['5']), ⟨1, 4⟩⟩, ⟨.keyword .elseWord, ⟨1, 5⟩⟩,
        ⟨.number (-numeralValue ['3']), ⟨2, 1⟩⟩]
    tokenize source = .ok tokens ∧
      ∃ ranges : List Range,
        List.Forall₂ (Located.StandsAt source.toList) tokens ranges ∧
        (∀ range ∈ ranges, range.start < range.stop) ∧
        ranges.Pairwise (fun earlier later => earlier.stop ≤ later.start) ∧
        (∀ gap ∈ gaps 0 (byteLength source.toList) ranges, gap.IsLayout source.toList) ∧
        tokens.Pairwise (fun earlier later => earlier.position.Before later.position) := by
  intro source tokens
  have accepted : tokenize source = .ok tokens := by
    unfold source tokens
    rfl
  exact ⟨accepted, tokenize_covers_source source tokens accepted⟩

end Timbre
