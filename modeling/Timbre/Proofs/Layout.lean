import Timbre.Proofs.Place
import Timbre.Proofs.Spelling

/-!
# Layout

Blanks, newlines and comments separate tokens. No token begins like layout, so
the layout in front of a token ends where the token begins.
-/

namespace Timbre

/-! ### Cursors -/

namespace Cursor

/-- A cursor that has moved on has the rest before it. -/
@[simp] theorem rest_after (cursor : Cursor) (text rest : List Char) :
    (cursor.after text rest).rest = rest := rfl

/-- Moving on twice is moving on over both texts. -/
@[simp] theorem after_after (cursor : Cursor) (text rest more left : List Char) :
    (cursor.after text rest).after more left = cursor.after (text ++ more) left := by
  simp [after, Nat.add_assoc]

end Cursor

/-! ### Layout -/

/-- Blanks, newlines and comments in front of `after`. A comment reaches up to
the end of its line or of the text. -/
inductive Layout (after : List Char) : List Char → Prop where
  | none : Layout after []
  | blank {c : Char} {rest : List Char} (space : Cursor.isSpace c = true)
      (more : Layout after rest) : Layout after (c :: rest)
  | newline {rest : List Char} (more : Layout after rest) : Layout after ('\n' :: rest)
  | comment {body rest : List Char} (inLine : '\n' ∉ body) (more : Layout after rest) :
      Layout after ('#' :: (body ++ '\n' :: rest))
  | lastComment {body : List Char} (inLine : '\n' ∉ body) (ended : after = []) :
      Layout after ('#' :: body)

namespace Layout

variable {after gap : List Char}

/-- A comment that begins earlier is a comment too. -/
theorem widen {c : Char} (layout : Layout after ('#' :: gap)) (inLine : c ≠ '\n') :
    Layout after ('#' :: c :: gap) := by
  cases layout with
  | blank space more => exact absurd space (by decide)
  | comment body more => exact @comment _ (c :: _) _ (by simp [body, inLine.symm]) more
  | lastComment body ended => exact lastComment (by simp [body, inLine.symm]) ended

/-- Layout after a newline is layout. -/
theorem of_newline (layout : Layout after ('\n' :: gap)) : Layout after gap := by
  cases layout with
  | blank space more => exact absurd space (by decide)
  | newline more => exact more

/-- What follows matters to a comment at the end of the text only. -/
theorem before {later : List Char} (layout : Layout after gap) (nonempty : after ≠ []) :
    Layout later gap := by
  induction layout with
  | none => exact .none
  | blank space _ more => exact .blank space more
  | newline _ more => exact .newline more
  | comment inLine _ more => exact .comment inLine more
  | lastComment _ ended => exact absurd ended nonempty

/-- A newline closes the last comment of a text. -/
theorem append_newline {more later : List Char} (layout : Layout after gap)
    (continued : Layout later ('\n' :: more)) : Layout later (gap ++ '\n' :: more) := by
  induction layout with
  | none => exact continued
  | blank space _ rest => exact .blank space rest
  | newline _ rest => exact .newline rest
  | comment inLine _ rest =>
    rw [List.cons_append, List.append_assoc, List.cons_append]
    exact .comment inLine rest
  | lastComment inLine _ => exact .comment inLine continued.of_newline

end Layout

/-- Layout that anything may follow: a newline ends its last comment. -/
def ClosedLayout (gap : List Char) : Prop := ∀ after, Layout after gap

/-- Layout in front of something is closed: an open comment would have reached the end.
-/
theorem Layout.closed {after gap : List Char} (layout : Layout after gap) (nonempty : after ≠ []) :
    ClosedLayout gap := fun _ => layout.before nonempty

/-- A comment with its newline, and closed layout after it, is closed layout. -/
theorem ClosedLayout.comment {body gap : List Char} (inLine : '\n' ∉ body)
    (more : ClosedLayout gap) : ClosedLayout ('#' :: (body ++ '\n' :: gap)) :=
  fun after => .comment inLine (more after)

/-- Layout is closed, or its last comment reaches up to its end. -/
theorem Layout.closed_or_open {after gap : List Char} (layout : Layout after gap) :
    ClosedLayout gap ∨
      ∃ before body, gap = before ++ '#' :: body ∧ ClosedLayout before ∧ '\n' ∉ body := by
  induction layout with
  | none => exact .inl fun _ => .none
  | @blank c gap space _ more =>
    rcases more with closed | ⟨before, body, rfl, closed, inLine⟩
    · exact .inl fun after => .blank space (closed after)
    · exact .inr ⟨c :: before, body, rfl, fun after => .blank space (closed after), inLine⟩
  | newline _ more =>
    rcases more with closed | ⟨before, body, rfl, closed, inLine⟩
    · exact .inl fun after => .newline (closed after)
    · exact .inr ⟨'\n' :: before, body, rfl, fun after => .newline (closed after), inLine⟩
  | @comment text gap inside _ more =>
    rcases more with closed | ⟨before, body, rfl, closed, inLine⟩
    · exact .inl (closed.comment inside)
    · exact .inr ⟨'#' :: (text ++ '\n' :: before), body, by simp, closed.comment inside, inLine⟩
  | @lastComment body inLine _ => exact .inr ⟨[], body, rfl, fun _ => .none, inLine⟩

/-- What is left of a text after its first newline. -/
def nextLine (text : List Char) : List Char := (text.dropWhile (· ≠ '\n')).tail

/-- A line without a newline is passed over. -/
theorem nextLine_append {line : List Char} (inLine : '\n' ∉ line) (text : List Char) :
    nextLine (line ++ text) = nextLine text := by
  have all : ∀ c ∈ line, decide (c ≠ '\n') = true := by
    intro c member
    exact decide_eq_true (ne_of_mem_of_not_mem member inLine)
  rw [nextLine, List.dropWhile_append_of_pos all, nextLine]

/-- Inside a comment, everything up to the next line is layout. -/
theorem Layout.rest_of_line {body : List Char} (inLine : '\n' ∉ body) (text : List Char) :
    ∃ gap, '#' :: (body ++ text) = gap ++ nextLine text ∧ Layout (nextLine text) gap := by
  have whole := @List.takeWhile_append_dropWhile _ (fun c => decide (c ≠ '\n')) text
  have line : '\n' ∉ body ++ text.takeWhile (· ≠ '\n') := by
    rw [List.mem_append, not_or]
    exact ⟨inLine, fun member => by simpa using List.mem_takeWhile_imp member⟩
  unfold nextLine
  generalize text.takeWhile (· ≠ '\n') = first at whole line
  cases left : text.dropWhile (· ≠ '\n') with
  | nil =>
    rw [left, List.append_nil] at whole
    subst whole
    exact ⟨'#' :: (body ++ first), by simp, .lastComment line rfl⟩
  | cons c more =>
    have newline : c = '\n' := by
      have stopped := List.head?_dropWhile_not (fun c => decide (c ≠ '\n')) text
      rw [left] at stopped
      simpa using stopped
    subst newline
    rw [left] at whole
    refine ⟨'#' :: (body ++ first ++ ['\n']), ?_, .comment line .none⟩
    simp [← whole]

/-- The text is at its end, or at a character that is no layout. -/
def StartsNoLayout (text : List Char) : Prop :=
  ∀ c rest, text = c :: rest → c ≠ '\n' ∧ Cursor.isSpace c = false ∧ c ≠ '#'

/-- More text at the end does not turn the front into layout. -/
theorem StartsNoLayout.append {text : List Char} (stops : StartsNoLayout text)
    (nonempty : text ≠ []) (later : List Char) : StartsNoLayout (text ++ later) := by
  obtain ⟨first, others, rfl⟩ := List.exists_cons_of_ne_nil nonempty
  intro c rest split
  obtain ⟨rfl, _⟩ := List.cons.inj split
  exact stops first others rfl

/-- The end of a text starts no layout. -/
theorem startsNoLayout_nil : StartsNoLayout [] := fun _ _ impossible => nomatch impossible

/-- No word character is layout. -/
theorem isWordCharacter_not_layout {c : Char} (word : isWordCharacter c = true) :
    c ≠ '\n' ∧ Cursor.isSpace c = false ∧ c ≠ '#' := by
  refine ⟨?_, ?_, ?_⟩
  · rintro rfl
    exact absurd word (by decide)
  · rw [Bool.eq_false_iff]
    intro space
    simp only [Cursor.isSpace, Bool.or_eq_true, decide_eq_true_eq] at space
    rcases space with ((rfl | rfl) | rfl) | rfl <;> exact absurd word (by decide)
  · rintro rfl
    exact absurd word (by decide)

/-- Digits are word characters. -/
theorem isWordCharacter_of_isDigit {c : Char} (digit : c.isDigit = true) :
    isWordCharacter c = true := by
  simp [isWordCharacter, Char.isAlphanum, digit]

/-- A numeral starts no layout. -/
theorem StartsNumeral.startsNoLayout {text : List Char} (numeric : StartsNumeral text) :
    StartsNoLayout text := by
  intro c others split
  obtain ⟨first, inner, rfl, starts⟩ := numeric
  obtain ⟨rfl, _⟩ := List.cons.inj split
  rcases starts with digit | rfl
  · exact isWordCharacter_not_layout (isWordCharacter_of_isDigit digit)
  · decide

/-- No token starts with layout. -/
theorem Spells.startsNoLayout {text : List Char} {token : Token} (spells : Spells text token)
    (rest : List Char) : StartsNoLayout (text ++ rest) := by
  refine StartsNoLayout.append ?_ spells.nonempty rest
  rcases spells.kinds with ⟨numeral, rfl⟩ | ⟨word, rfl⟩ | ⟨mark, rfl, rfl⟩
  · exact numeral.starts.startsNoLayout
  · rintro c others rfl
    exact isWordCharacter_not_layout (word.character (by simp))
  · intro c others split
    exact (mark.character c (by simp [split])).2

namespace Cursor

/-- What is skipped is layout. Inside a comment, it is the rest of that comment
and what comes after. -/
theorem skip_layout (comment : Bool) (offset : Nat) (position : Position) (text : List Char) :
    ∃ gap rest, text = gap ++ rest ∧ Layout rest (if comment then '#' :: gap else gap) ∧
      skip comment offset position text =
        ⟨rest, offset + byteLength gap, position.advance gap⟩ := by
  induction text generalizing comment offset position with
  | nil =>
    refine ⟨[], [], rfl, ?_, rfl⟩
    cases comment with
    | false => exact .none
    | true => exact .lastComment (by simp) rfl
  | cons c text inductionHypothesis =>
    by_cases newline : c = '\n'
    · subst newline
      obtain ⟨gap, rest, rfl, layout, skipped⟩ :=
        inductionHypothesis false (offset + '\n'.utf8Size) (position.step '\n')
      refine ⟨'\n' :: gap, rest, rfl, ?_, ?_⟩
      · cases comment with
        | false => exact .newline layout
        | true => exact @Layout.comment _ [] _ (by simp) layout
      · simp [skip, skipped, Nat.add_assoc]
    · cases comment with
      | true =>
        obtain ⟨gap, rest, rfl, layout, skipped⟩ :=
          inductionHypothesis true (offset + c.utf8Size) (position.step c)
        refine ⟨c :: gap, rest, rfl, layout.widen newline, ?_⟩
        simp [skip, newline, skipped, Nat.add_assoc]
      | false =>
        by_cases space : isSpace c = true
        · obtain ⟨gap, rest, rfl, layout, skipped⟩ :=
            inductionHypothesis false (offset + c.utf8Size) (position.step c)
          refine ⟨c :: gap, rest, rfl, .blank space layout, ?_⟩
          simp [skip, newline, space, skipped, Nat.add_assoc]
        · by_cases sharp : c = '#'
          · subst sharp
            obtain ⟨gap, rest, rfl, layout, skipped⟩ :=
              inductionHypothesis true (offset + '#'.utf8Size) (position.step '#')
            refine ⟨'#' :: gap, rest, rfl, layout, ?_⟩
            simp [skip, space, skipped, Nat.add_assoc]
          · refine ⟨[], c :: text, rfl, .none, ?_⟩
            simp [skip, newline, space, sharp]

/-- A sharp sign opens a comment. -/
theorem skip_sharp (offset : Nat) (position : Position) (text : List Char) :
    skip false offset position ('#' :: text) =
      skip true (offset + '#'.utf8Size) (position.step '#') text := rfl

/-- A comment goes on up to the newline. -/
theorem skip_comment {body : List Char} (inLine : '\n' ∉ body) (offset : Nat)
    (position : Position) (text : List Char) :
    skip true offset position (body ++ text) =
      skip true (offset + byteLength body) (position.advance body) text := by
  induction body generalizing offset position with
  | nil => rfl
  | cons c body inductionHypothesis =>
    simp only [List.mem_cons, not_or] at inLine
    simp [skip, Ne.symm inLine.1, inductionHypothesis inLine.2, Nat.add_assoc]

/-- Layout is passed over, and what follows it is skipped as if it came first. -/
theorem skip_append {gap rest : List Char} (layout : Layout rest gap) (offset : Nat)
    (position : Position) :
    skip false offset position (gap ++ rest) =
      skip false (offset + byteLength gap) (position.advance gap) rest := by
  induction layout generalizing offset position with
  | none => rfl
  | @blank c gap space _ more =>
    have newline : c ≠ '\n' := by
      rintro rfl
      exact absurd space (by decide)
    simp [skip, newline, space, more, Nat.add_assoc]
  | newline _ more => simp [skip, more, Nat.add_assoc]
  | @comment body gap inLine _ more =>
    rw [List.cons_append, List.append_assoc, skip_sharp, skip_comment inLine]
    simp [skip, more, Nat.add_assoc]
  | @lastComment body inLine ended =>
    subst ended
    rw [List.cons_append, skip_sharp, skip_comment inLine]
    simp [skip, Nat.add_assoc]

/-- Where no layout begins, nothing is skipped. -/
theorem skip_stopped {rest : List Char} (stops : StartsNoLayout rest) (offset : Nat)
    (position : Position) : skip false offset position rest = ⟨rest, offset, position⟩ := by
  cases rest with
  | nil => rfl
  | cons c others =>
    obtain ⟨newline, space, sharp⟩ := stops c others rfl
    simp [skip, newline, space, sharp]

/-- What is left when layout is skipped starts none. -/
theorem skip_startsNoLayout (comment : Bool) (offset : Nat) (position : Position)
    (text : List Char) : StartsNoLayout (skip comment offset position text).rest := by
  fun_induction skip comment offset position text with
  | case1 => exact startsNoLayout_nil
  | case2 comment offset position rest inductionHypothesis => exact inductionHypothesis
  | case3 comment offset position c rest newline layout inductionHypothesis =>
    exact inductionHypothesis
  | case4 comment offset position rest newline layout inductionHypothesis =>
    exact inductionHypothesis
  | case5 comment offset position c rest newline layout sharp =>
    rintro _ _ ⟨⟩
    simp only [Bool.or_eq_true, not_or, Bool.not_eq_true] at layout
    exact ⟨newline, layout.2, sharp⟩

/-- A cursor skips layout and nothing else. -/
theorem skipLayout_layout (cursor : Cursor) :
    ∃ gap rest, cursor.rest = gap ++ rest ∧ Layout rest gap ∧
      cursor.skipLayout = cursor.after gap rest :=
  skip_layout false cursor.offset cursor.position cursor.rest

/-- A cursor skips layout up to where none starts. -/
theorem skipLayout_eq {cursor : Cursor} {gap rest : List Char} (split : cursor.rest = gap ++ rest)
    (layout : Layout rest gap) (stops : StartsNoLayout rest) :
    cursor.skipLayout = cursor.after gap rest := by
  rw [skipLayout, split, skip_append layout, skip_stopped stops]
  rfl

end Cursor

/-- Every text is layout in front of its end or of a character that is no layout. -/
theorem exists_layout (text : List Char) :
    ∃ gap rest, text = gap ++ rest ∧ Layout rest gap ∧ StartsNoLayout rest := by
  obtain ⟨gap, rest, split, layout, skipped⟩ := Cursor.skip_layout false 0 .start text
  have stops := Cursor.skip_startsNoLayout false 0 .start text
  rw [skipped] at stops
  exact ⟨gap, rest, split, layout, stops⟩

end Timbre
