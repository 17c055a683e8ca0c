import Timbre.Proofs.ErrorPlaces

/-!
# Items in a row

A text that is read past its errors is a row of items with layout between them. An item
covers at least one character: a token its spelling, an error the text that is no token.
So there are no more items in a row than characters, and their places increase.
-/

namespace Timbre

/-- The text that is no token. -/
def LexicalError.text : LexicalError → List Char
  | unexpectedCharacter character _ => [character]
  | malformedNumber text _ => text.toList

/-- The place where an item begins. -/
def itemPosition : Item → Position
  | .ok lexeme => lexeme.position
  | .error e => e.position

namespace Cursor

/-- An item stands at a cursor and covers `text`: a token, for which `covers` holds, or an
error about `text`. -/
inductive Stands (covers : List Char → Token → Prop) (cursor : Cursor) (text : List Char) :
    Item → Prop where
  | token {token : Token} (covered : covers text token) :
      Stands covers cursor text (.ok (cursor.lexeme token text))
  | refused {e : LexicalError} (about : e.text = text) (placed : e.position = cursor.position) :
      Stands covers cursor text (.error e)

/-- Items stand one after another from a cursor up to another one, with layout between
them. -/
inductive Row (covers : List Char → Token → Prop) : Cursor → List Item → Cursor → Prop where
  | done {cursor : Cursor} : Row covers cursor [] cursor
  | item {cursor last : Cursor} {gap text rest : List Char} {item : Item} {items : List Item}
      (split : cursor.rest = gap ++ (text ++ rest)) (layout : Layout (text ++ rest) gap)
      (nonempty : text ≠ []) (stands : (cursor.after gap (text ++ rest)).Stands covers text item)
      (others : Row covers (cursor.after (gap ++ text) rest) items last) :
      Row covers cursor (item :: items) last

namespace Stands

variable {covers : List Char → Token → Prop} {cursor : Cursor} {text : List Char}

/-- An item that stands at a cursor has its place. -/
theorem position_eq {item : Item} (stands : cursor.Stands covers text item) :
    itemPosition item = cursor.position := by
  cases stands with
  | token covered => rfl
  | refused about placed => exact placed

/-- A lexeme that stands at a cursor is a token that covers its text there. -/
theorem of_ok {lexeme : Lexeme} (stands : cursor.Stands covers text (.ok lexeme)) :
    ∃ token, covers text token ∧ lexeme = cursor.lexeme token text := by
  cases stands with
  | token covered => exact ⟨_, covered, rfl⟩

/-- An item stands under a weaker condition as well. -/
theorem imp {others : List Char → Token → Prop} {item : Item}
    (stands : cursor.Stands covers text item)
    (weaker : ∀ text token, covers text token → others text token) :
    cursor.Stands others text item := by
  cases stands with
  | token covered => exact .token (weaker _ _ covered)
  | refused about placed => exact .refused about placed

end Stands

namespace Row

variable {covers : List Char → Token → Prop} {cursor middle last : Cursor} {items : List Item}

/-- Items are in a row under a weaker condition as well. -/
theorem imp {others : List Char → Token → Prop} (row : Row covers cursor items last)
    (weaker : ∀ text token, covers text token → others text token) :
    Row others cursor items last := by
  induction row with
  | done => exact .done
  | item split layout nonempty stands _ inductionHypothesis =>
    exact .item split layout nonempty (stands.imp weaker) inductionHypothesis

/-- Rows one after another are one row. -/
theorem append {more : List Item} (row : Row covers cursor items middle)
    (next : Row covers middle more last) : Row covers cursor (items ++ more) last := by
  induction row with
  | done => exact next
  | item split layout nonempty stands _ inductionHypothesis =>
    exact .item split layout nonempty stands (inductionHypothesis next)

/-- The first item of a row, and the row of the others. -/
theorem uncons {item : Item} (row : Row covers cursor (item :: items) last) :
    ∃ middle, Row covers cursor [item] middle ∧ Row covers middle items last := by
  cases row with
  | item split layout nonempty stands others =>
    exact ⟨_, .item split layout nonempty stands .done, others⟩

/-- A row covers a text with a character for each item. -/
theorem covered_text (row : Row covers cursor items last) :
    ∃ text, cursor.rest = text ++ last.rest ∧ items.length ≤ text.length := by
  induction row with
  | done => exact ⟨[], rfl, Nat.le_refl 0⟩
  | @item cursor last gap text rest item items split _ nonempty _ _ inductionHypothesis =>
    obtain ⟨more, later, fewer⟩ := inductionHypothesis
    have positive := List.length_pos_iff.mpr nonempty
    rw [rest_after] at later
    refine ⟨gap ++ text ++ more, ?_, ?_⟩
    · simp [split, later]
    · simp only [List.length_cons, List.length_append]
      omega

/-- Every item of a row, and its end, is reached over some text. -/
theorem reached (row : Row covers cursor items last) :
    ∀ place ∈ items.map itemPosition ++ [last.position],
      ∃ text, place = cursor.position.advance text := by
  induction row with
  | done => exact fun place member => ⟨[], List.mem_singleton.mp member⟩
  | @item cursor last gap text rest item items _ _ _ stands _ inductionHypothesis =>
    intro place member
    rcases List.mem_cons.mp member with rfl | later
    · exact ⟨gap, stands.position_eq⟩
    · obtain ⟨more, same⟩ := inductionHypothesis place later
      exact ⟨gap ++ text ++ more, by simp [same, after]⟩

/-- The places of the items increase, up to the end of the row. -/
theorem ordered (row : Row covers cursor items last) :
    (items.map itemPosition ++ [last.position]).Pairwise Position.Before := by
  induction row with
  | done => exact List.pairwise_singleton _ _
  | @item cursor last gap text rest item items _ _ nonempty stands others inductionHypothesis =>
    refine List.pairwise_cons.mpr ⟨?_, inductionHypothesis⟩
    intro place member
    obtain ⟨more, same⟩ := others.reached place member
    have covered : text ++ more ≠ [] := List.append_ne_nil_of_left_ne_nil nonempty more
    have before := (cursor.position.advance gap).before_advance covered
    rw [stands.position_eq, same]
    simpa [after] using before

end Row

/-! ### What is scanned is a row -/

variable {cursor next : Cursor}

/-- The text that is passed over with an error is the text that the error is about. -/
theorem scanItem_error_text {e : LexicalError} (found : cursor.scanItem = ([.error e], next)) :
    cursor.rest = e.text ++ next.rest := by
  unfold scanItem at found
  split at found
  case h_1 ended => nomatch found
  case h_2 c rest split =>
    split at found
    case h_1 numeral read =>
      cases Numeral.front_leads read with
      | complete _ _ _ => simp [scanNumeral, single] at found
      | @cut mantissa sign left letter cut _ _ _ =>
        simp only [scanNumeral] at found
        split_ifs at found
        · simp at found
        · cases found
          simp [LexicalError.text, split, cut]
    case h_2 =>
      split_ifs at found
      · simp [single] at found
      · split at found
        · simp [single] at found
        · cases found
          exact split

/-- A text in which nothing is scanned is layout up to its end. -/
theorem scan_done (found : cursor.scan = ([], next)) : Layout [] cursor.rest := by
  obtain ⟨gap, rest, split, layout, skipped⟩ := cursor.skipLayout_layout
  have reads := cursor.skipLayout.scanItem_reads
  rw [show cursor.skipLayout.scanItem = _ from found] at reads
  cases reads with
  | nothing ended =>
    obtain rfl : rest = [] := by simpa [skipped] using ended
    rw [split, List.append_nil]
    exact layout

/-- What is read behind layout is a row. -/
theorem Reads.row {items : List Item} {gap rest : List Char}
    (reads : (cursor.after gap rest).Reads (items, next))
    (found : (cursor.after gap rest).scanItem = (items, next)) (some : items ≠ [])
    (split : cursor.rest = gap ++ rest) (layout : Layout rest gap) :
    Row Spells cursor items next := by
  cases reads with
  | nothing ended => exact absurd rfl some
  | @token _ text left whole front =>
    obtain rfl : rest = text ++ left := whole
    refine .item split layout front.spells.nonempty (.token front.spells) ?_
    rw [after_after]
    exact .done
  | @numberAndWord _ _ digits text left whole _ front _ word =>
    obtain rfl : rest = digits ++ (text ++ left) := whole
    refine .item split layout front.spells.nonempty (.token front.spells) ?_
    rw [after_after]
    have second : Row Spells (cursor.after (gap ++ digits) (text ++ left)) _ _ :=
      @Row.item Spells _ _ [] text left _ _ rfl .none word.spells.nonempty (.token word.spells)
        .done
    simpa using second
  | @refused e text left whole nonempty _ =>
    have about := scanItem_error_text found
    obtain rfl : text = e.text := List.append_cancel_right (whole.symm.trans about)
    obtain rfl : rest = e.text ++ left := whole
    have placed : e.position = (cursor.after gap (e.text ++ left)).position :=
      scanItem_error_position (by simp [found])
    refine .item split layout nonempty (.refused rfl placed) ?_
    rw [after_after]
    exact .done

/-- What is scanned stands in a row. -/
theorem scan_row {items : List Item} (found : cursor.scan = (items, next)) (some : items ≠ []) :
    Row Spells cursor items next := by
  obtain ⟨gap, rest, split, layout, skipped⟩ := cursor.skipLayout_layout
  have scanned : (cursor.after gap rest).scanItem = (items, next) := skipped ▸ found
  have reads := (cursor.after gap rest).scanItem_reads
  rw [scanned] at reads
  exact reads.row scanned some split layout

end Cursor

end Timbre
