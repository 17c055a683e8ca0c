import Timbre.Proofs.Relocation
import Timbre.Proofs.Separation

/-!
# Texts tiled by tokens

A text without lexical errors is a row of tokens with layout between them, each
token the longest one at the front of what is left. This determines the tokens,
so a text can be shown to be read in a certain way by laying it out in tiles.
-/

namespace Timbre

namespace Cursor

/-! ### Everything that is scanned -/

/-- Reading an item leaves fewer characters. -/
theorem Reads.shorter {cursor next : Cursor} {item : Item} {items : List Item}
    (reads : cursor.Reads (item :: items, next)) : next.rest.length < cursor.rest.length := by
  cases reads with
  | token split front =>
    have := List.length_pos_iff.mpr front.spells.nonempty
    simp [split]
    omega
  | numberAndWord split _ front _ next =>
    have := List.length_pos_iff.mpr front.spells.nonempty
    simp [split]
    omega
  | refused split nonempty _ =>
    have := List.length_pos_iff.mpr nonempty
    simp [split]
    omega

/-- Scanning an item leaves fewer characters. -/
theorem scan_shorter {cursor next : Cursor} {item : Item} {items : List Item}
    (found : cursor.scan = (item :: items, next)) : next.rest.length < cursor.rest.length := by
  obtain ⟨gap, rest, split, _, skipped⟩ := cursor.skipLayout_layout
  have reads := cursor.skipLayout.scanItem_reads
  rw [show cursor.skipLayout.scanItem = _ from found] at reads
  have shorter := reads.shorter
  rw [skipped, rest_after] at shorter
  rw [split, List.length_append]
  omega

/-- All items from a cursor on, before the rules that look beyond one lexeme. -/
def scanAll (cursor : Cursor) : List Item :=
  match _ : cursor.scan with
  | ([], _) => []
  | (item :: items, next) => item :: (items ++ scanAll next)
termination_by cursor.rest.length
decreasing_by exact scan_shorter (by assumption)

/-- Where nothing is scanned there are no items. -/
theorem scanAll_nil {cursor next : Cursor} (found : cursor.scan = ([], next)) :
    cursor.scanAll = [] := by
  rw [scanAll]
  split
  · rfl
  · rename_i again
    rw [found] at again
    nomatch again

/-- What one scan finds comes before all that the next ones find. -/
theorem scanAll_cons {cursor next : Cursor} {item : Item} {items : List Item}
    (found : cursor.scan = (item :: items, next)) :
    cursor.scanAll = item :: (items ++ next.scanAll) := by
  rw [scanAll]
  split
  · rename_i again
    rw [found] at again
    nomatch again
  · rename_i again
    rw [found] at again
    cases again
    rfl

section Front

variable {cursor : Cursor} {gap text rest : List Char} {token : Token}
  (split : cursor.rest = gap ++ (text ++ rest)) (layout : Layout (text ++ rest) gap)
  (front : AtFront text rest token)

include split layout front

/-- A token at the front of the text is scanned, alone or with a word that it
runs into. -/
theorem scan_front :
    cursor.scan = (cursor.after gap (text ++ rest)).single token text rest ∨
      IsNumeral text ∧ ∃ word left following, rest = word ++ left ∧ IsWord word ∧
        AtFront word left following ∧
        cursor.scan =
          ([.ok ((cursor.after gap (text ++ rest)).lexeme token text),
              .ok ((cursor.after (gap ++ text) rest).lexeme following word)],
            cursor.after (gap ++ text ++ word) left) := by
  have skipped := skipLayout_eq split layout (front.spells.startsNoLayout rest)
  have reads := cursor.skipLayout.scanItem_reads
  generalize found : cursor.skipLayout.scanItem = result at reads
  have scanned : cursor.scan = result := found
  rw [skipped] at reads
  cases reads with
  | nothing ended => exact absurd (List.append_eq_nil_iff.mp ended).1 front.spells.nonempty
  | token whole read =>
    obtain ⟨rfl, rfl, rfl⟩ := front.unique read whole
    exact .inl scanned
  | numberAndWord whole numeral read isWord next =>
    obtain ⟨rfl, rfl, rfl⟩ := front.unique read whole
    rw [after_after, after_after] at scanned
    exact .inr ⟨numeral, _, _, _, rfl, isWord, next, scanned⟩
  | refused _ _ none => exact absurd front (none text rest token rfl)

/-- A word at the front behind layout is the first item. -/
theorem scanAll_word (word : IsWord text) :
    cursor.scanAll = .ok ((cursor.after gap (text ++ rest)).lexeme token text) ::
      (cursor.after (gap ++ text) rest).scanAll := by
  rcases scan_front split layout front with alone | ⟨numeral, _⟩
  · rw [scanAll_cons alone, List.nil_append, after_after]
  · exact absurd word.starts numeral.starts.not_word

/-- A token at the front behind layout is the first item. -/
theorem scanAll_front :
    cursor.scanAll = .ok ((cursor.after gap (text ++ rest)).lexeme token text) ::
      (cursor.after (gap ++ text) rest).scanAll := by
  rcases scan_front split layout front with
    alone | ⟨_, word, left, following, rfl, isWord, next, both⟩
  · rw [scanAll_cons alone, List.nil_append, after_after]
  -- The word that was scanned along is what a scan after the number finds.
  · have again := @scanAll_word (cursor.after (gap ++ text) (word ++ left)) [] word left following
      rfl .none next isWord
    rw [scanAll_cons both, again]
    simp

end Front

/-- Layout up to the end has no items. -/
theorem scanAll_done {cursor : Cursor} (layout : Layout [] cursor.rest) : cursor.scanAll = [] := by
  have skipped := skipLayout_eq (List.append_nil _).symm layout startsNoLayout_nil
  have found : cursor.scan = ([], cursor.after cursor.rest []) := by
    rw [scan, skipped]
    rfl
  exact scanAll_nil found

/-- Layout up to the end of the text, layout in front of a token, or an error. -/
theorem scanAll_cases (cursor : Cursor) :
    Layout [] cursor.rest ∨
      (∃ gap text rest token, cursor.rest = gap ++ (text ++ rest) ∧ Layout (text ++ rest) gap ∧
        AtFront text rest token) ∨
      ∃ e gap text rest, cursor.rest = gap ++ (text ++ rest) ∧ text ≠ [] ∧
        cursor.scanAll = .error e :: (cursor.after (gap ++ text) rest).scanAll := by
  obtain ⟨gap, rest, split, layout, skipped⟩ := cursor.skipLayout_layout
  have reads := cursor.skipLayout.scanItem_reads
  generalize found : cursor.skipLayout.scanItem = result at reads
  have scanned : cursor.scan = result := found
  rw [skipped] at reads
  cases reads with
  | nothing ended =>
    obtain rfl : rest = [] := ended
    rw [split, List.append_nil]
    exact .inl layout
  | token whole front =>
    obtain rfl : rest = _ := whole
    exact .inr (.inl ⟨gap, _, _, _, split, layout, front⟩)
  | numberAndWord whole _ front _ _ =>
    obtain rfl : rest = _ := whole
    exact .inr (.inl ⟨gap, _, _, _, split, layout, front⟩)
  | @refused e text left whole nonempty _ =>
    obtain rfl : rest = _ := whole
    refine .inr (.inr ⟨e, gap, text, left, split, nonempty, ?_⟩)
    rw [scanAll_cons scanned, List.nil_append, after_after]

/-- Induction along what is scanned. -/
theorem scanAll_induction {motive : Cursor → List Item → Prop}
    (done : ∀ cursor : Cursor, Layout [] cursor.rest → motive cursor [])
    (token : ∀ (cursor : Cursor) (gap text rest : List Char) (token : Token),
      cursor.rest = gap ++ (text ++ rest) → Layout (text ++ rest) gap → AtFront text rest token →
      motive (cursor.after (gap ++ text) rest) (cursor.after (gap ++ text) rest).scanAll →
      motive cursor (.ok ((cursor.after gap (text ++ rest)).lexeme token text) ::
        (cursor.after (gap ++ text) rest).scanAll))
    (refused : ∀ (cursor : Cursor) (e : LexicalError) (gap text rest : List Char),
      cursor.rest = gap ++ (text ++ rest) → text ≠ [] →
      motive (cursor.after (gap ++ text) rest) (cursor.after (gap ++ text) rest).scanAll →
      motive cursor (.error e :: (cursor.after (gap ++ text) rest).scanAll))
    (cursor : Cursor) : motive cursor cursor.scanAll := by
  have shorter {gap text rest : List Char} (split : cursor.rest = gap ++ (text ++ rest))
      (nonempty : text ≠ []) : rest.length < cursor.rest.length := by
    have := List.length_pos_iff.mpr nonempty
    simp only [split, List.length_append]
    omega
  rcases cursor.scanAll_cases with
    layout | ⟨gap, text, rest, found, split, layout, front⟩ |
      ⟨e, gap, text, rest, split, nonempty, scanned⟩
  · rw [scanAll_done layout]
    exact done cursor layout
  · rw [scanAll_front split layout front]
    have := shorter split front.spells.nonempty
    exact token cursor gap text rest found split layout front
      (scanAll_induction done token refused (cursor.after (gap ++ text) rest))
  · rw [scanned]
    have := shorter split nonempty
    exact refused cursor e gap text rest split nonempty
      (scanAll_induction done token refused (cursor.after (gap ++ text) rest))
termination_by cursor.rest.length

/-- What is scanned as a token is spelled so. -/
theorem spells_of_mem_scanAll (cursor : Cursor) :
    ∀ lexeme : Lexeme, .ok lexeme ∈ cursor.scanAll → Spells lexeme.text lexeme.token := by
  induction cursor using scanAll_induction with
  | done cursor layout => exact fun _ member => nomatch member
  | token cursor gap text rest token split layout front inductionHypothesis =>
    intro lexeme member
    rcases List.mem_cons.mp member with same | member
    · obtain rfl := Except.ok.inj same
      exact front.spells
    · exact inductionHypothesis lexeme member
  | refused cursor e gap text rest split nonempty inductionHypothesis =>
    intro lexeme member
    rcases List.mem_cons.mp member with impossible | member
    · nomatch impossible
    · exact inductionHypothesis lexeme member

/-- The characters that items stand for, at least one for each. -/
def weight : List Item → Nat
  | [] => 0
  | .ok lexeme :: items => lexeme.text.length + weight items
  | .error _ :: items => 1 + weight items

/-- Items stand for no more characters than there are. -/
theorem weight_scanAll (cursor : Cursor) : weight cursor.scanAll ≤ cursor.rest.length := by
  induction cursor using scanAll_induction with
  | done cursor layout => exact Nat.zero_le _
  | token cursor gap text rest token split layout front inductionHypothesis =>
    simp only [rest_after] at inductionHypothesis
    simp only [weight, lexeme, split, List.length_append] at *
    omega
  | refused cursor e gap text rest split nonempty inductionHypothesis =>
    have := List.length_pos_iff.mpr nonempty
    simp only [rest_after] at inductionHypothesis
    simp only [weight, split, List.length_append] at *
    omega

/-! ### Tiles -/

/-- The items are the tokens of the text from a cursor on, with layout between
them. `covers` is what holds of the text of each token and the text after it. -/
inductive Tiles (covers : List Char → List Char → Token → Prop) : Cursor → List Item → Prop where
  | done {cursor : Cursor} (layout : Layout [] cursor.rest) : Tiles covers cursor []
  | token {cursor : Cursor} {gap text rest : List Char} {token : Token} {items : List Item}
      (split : cursor.rest = gap ++ (text ++ rest)) (layout : Layout (text ++ rest) gap)
      (covered : covers text rest token)
      (others : Tiles covers (cursor.after (gap ++ text) rest) items) :
      Tiles covers cursor (.ok ((cursor.after gap (text ++ rest)).lexeme token text) :: items)

/-- A text in which nothing is refused is tiled by what is scanned. -/
theorem scanAll_tiles (cursor : Cursor) :
    (∀ e, .error e ∉ cursor.scanAll) → cursor.Tiles AtFront cursor.scanAll := by
  induction cursor using scanAll_induction with
  | done _ layout => exact fun _ => .done layout
  | token cursor gap text rest token split layout front inductionHypothesis =>
    intro accepted
    refine .token split layout front (inductionHypothesis ?_)
    intro e member
    exact accepted e (List.mem_cons_of_mem _ member)
  | refused cursor e gap text rest split nonempty inductionHypothesis =>
    intro accepted
    exact absurd List.mem_cons_self (accepted e)

/-- A text is scanned into the tiles that it is laid out in. -/
theorem Tiles.scanAll_eq {cursor : Cursor} {items : List Item}
    (tiles : cursor.Tiles AtFront items) : cursor.scanAll = items := by
  induction tiles with
  | done layout => exact scanAll_done layout
  | token split layout front _ inductionHypothesis =>
    rw [scanAll_front split layout front, inductionHypothesis]

end Cursor

/-! ### Texts joined by a newline -/

/-- A newline and what follows it do not change the token in front of them. -/
theorem AtFront.before_newline {text rest : List Char} {token : Token}
    (front : AtFront text rest token) (later : List Char) :
    AtFront text (rest ++ '\n' :: later) token :=
  Apart.front (.of_head rfl separates_newline) front

namespace Cursor

/-- A cursor into the same text with another line after it. -/
def before (cursor : Cursor) (later : List Char) : Cursor :=
  { cursor with rest := cursor.rest ++ '\n' :: later }

/-- A tiled text, a newline and another tiled text are tiled together. -/
theorem Tiles.append_newline {cursor : Cursor} {items following : List Item} {later : List Char}
    (tiles : cursor.Tiles AtFront items)
    (next : (cursor.after (cursor.rest ++ ['\n']) later).Tiles AtFront following) :
    (cursor.before later).Tiles AtFront (items ++ following) := by
  induction tiles with
  | @done cursor layout =>
    -- The gap at the end of the first text and the one before the second become one.
    cases next with
    | done ended => exact .done (layout.append_newline (.newline ended))
    | @token _ gap text rest token items split first front others =>
      have laid : Layout (text ++ rest) (cursor.rest ++ '\n' :: gap) :=
        layout.append_newline (.newline first)
      have whole : (cursor.before later).rest = cursor.rest ++ '\n' :: gap ++ (text ++ rest) := by
        rw [rest_after] at split
        simp [before, split]
      have tile := @Tiles.token AtFront (cursor.before later) _ text rest token items whole laid
        front
      simp only [after_after, List.append_assoc, List.cons_append, List.nil_append] at tile others ⊢
      exact tile others
  | @token cursor gap text rest token items split layout front _ inductionHypothesis =>
    have whole : (cursor.before later).rest = gap ++ (text ++ (rest ++ '\n' :: later)) := by
      simp [before, split]
    have nonempty : text ++ rest ≠ [] :=
      List.append_ne_nil_of_left_ne_nil front.spells.nonempty rest
    have others := inductionHypothesis (by simpa [split] using next)
    exact @Tiles.token AtFront (cursor.before later) gap text (rest ++ '\n' :: later) token _ whole
      (layout.before nonempty) (front.before_newline later) others

end Cursor

namespace Position

/-- Moving on from a place further down leads further down. -/
theorem advance_down (lines : Nat) (p : Position) (text : List Char) :
    ((Relocation.down lines).place p).advance text =
      (Relocation.down lines).place (p.advance text) := by
  induction text generalizing p with
  | nil => rfl
  | cons c rest inductionHypothesis =>
    have stepped : ((Relocation.down lines).place p).step c =
        (Relocation.down lines).place (p.step c) := by
      simp only [Relocation.down, step]
      split_ifs
      · rw [Nat.add_right_comm]
      · rfl
    rw [advance_cons, stepped, inductionHypothesis, advance_cons]

end Position

/-- A lexeme further down in a longer text. -/
def Lexeme.down (bytes lines : Nat) (lexeme : Lexeme) : Lexeme :=
  { lexeme with
    start := lexeme.start + bytes
    position := (Relocation.down lines).place lexeme.position }

namespace Cursor

/-- A cursor further down in a longer text. -/
def down (bytes lines : Nat) (cursor : Cursor) : Cursor :=
  { cursor with
    offset := cursor.offset + bytes
    position := (Relocation.down lines).place cursor.position }

/-- Moving on from a cursor further down leads further down. -/
theorem after_down (bytes lines : Nat) (cursor : Cursor) (text rest : List Char) :
    (cursor.down bytes lines).after text rest = (cursor.after text rest).down bytes lines := by
  simp [after, down, Position.advance_down, Nat.add_right_comm]

/-- A tiled text is tiled further down as well, by the items moved down. -/
theorem Tiles.down {covers : List Char → List Char → Token → Prop} {cursor : Cursor}
    {items : List Item} (bytes lines : Nat) (tiles : cursor.Tiles covers items) :
    (cursor.down bytes lines).Tiles covers (items.map (Except.map (Lexeme.down bytes lines))) := by
  induction tiles with
  | done layout => exact .done layout
  | @token cursor gap text rest token items split layout covered _ inductionHypothesis =>
    rw [← after_down] at inductionHypothesis
    have tile := @Tiles.token covers (cursor.down bytes lines) gap text rest token _ split layout
      covered inductionHypothesis
    rw [after_down] at tile
    exact tile

/-- The lines after a newline are scanned as a text of their own. -/
theorem scanAll_newline {text later : List Char} (first : ∀ e, .error e ∉ (start text).scanAll)
    (second : ∀ e, .error e ∉ (start later).scanAll) :
    (start (text ++ '\n' :: later)).scanAll =
      (start text).scanAll ++ (start later).scanAll.map
        (Except.map (Lexeme.down (byteLength (text ++ ['\n'])) (text.count '\n' + 1))) := by
  have place : (start text).after (text ++ ['\n']) later =
      (start later).down (byteLength (text ++ ['\n'])) (text.count '\n' + 1) := by
    simp only [after, start, down, Position.start_advance]
    simp [lastLine, Position.start, Relocation.down]
  have next := (scanAll_tiles _ second).down (byteLength (text ++ ['\n'])) (text.count '\n' + 1)
  rw [← place] at next
  exact ((scanAll_tiles _ first).append_newline next).scanAll_eq

end Cursor

end Timbre
