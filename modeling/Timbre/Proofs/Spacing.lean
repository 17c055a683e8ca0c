import Timbre.Proofs.Appending
import Timbre.Proofs.Coverage
import Timbre.Proofs.Leading
import Timbre.Proofs.TokenKinds

/-!
# Layout between tokens

The layout that separates two tokens can be replaced by any other: blanks, newlines
and comments that end with their line. The tokens stay the same and so do the
statements, up to their lines.

No comment is open at the end of a token, and no token reaches into layout, so what
comes before a gap leads to one context whatever the gap is, and what comes after it
is read in that context.
-/

namespace Timbre

/-! ### Comments and tokens -/

/-- No comment is open at the end of the empty text. -/
theorem not_endsInComment_nil : ¬ EndsInComment [] := by
  rintro ⟨before, body, impossible, _⟩
  simp at impossible

namespace EndsInComment

variable {text : List Char}

/-- A comment at the end that does not begin with the first character begins after it.
-/
theorem of_cons {c : Char} (comment : EndsInComment (c :: text)) (other : c ≠ '#') :
    EndsInComment text := by
  obtain ⟨before, body, split, inLine⟩ := comment
  cases before with
  | nil => exact absurd (List.cons.inj split).1 other
  | cons d before => exact ⟨before, body, (List.cons.inj split).2, inLine⟩

/-- A comment does not begin in a text without a `#`. -/
theorem of_append {before : List Char} (comment : EndsInComment (before ++ text))
    (without : '#' ∉ before) : EndsInComment text := by
  induction before with
  | nil => exact comment
  | cons c before inductionHypothesis =>
    simp only [List.mem_cons, not_or] at without
    exact inductionHypothesis (comment.of_cons (Ne.symm without.1)) without.2

/-- A comment does not reach beyond a newline. -/
theorem of_newline {before : List Char} (comment : EndsInComment (before ++ '\n' :: text)) :
    EndsInComment text := by
  obtain ⟨earlier, body, split, inLine⟩ := comment
  rcases List.append_eq_append_iff.mp split with ⟨inner, rfl, same⟩ | ⟨inner, rfl, same⟩
  · cases inner with
    | nil => exact absurd (List.cons.inj same).1 (by decide)
    | cons c inner => exact ⟨inner, body, (List.cons.inj same).2, inLine⟩
  · cases inner with
    | nil => exact absurd (List.cons.inj same).1 (by decide)
    | cons c inner => exact absurd (by simp [(List.cons.inj same).2]) inLine

/-- The comments of closed layout end with it. -/
theorem of_closed {gap : List Char} (comment : EndsInComment (gap ++ text))
    (closed : ClosedLayout gap) : EndsInComment text := by
  have layout := closed ['\n']
  clear closed
  induction layout with
  | none => exact comment
  | blank space _ inductionHypothesis =>
    refine inductionHypothesis (comment.of_cons ?_)
    rintro rfl
    exact absurd space (by decide)
  | newline _ inductionHypothesis => exact inductionHypothesis (comment.of_cons (by decide))
  | @comment body gap _ _ inductionHypothesis =>
    refine inductionHypothesis (@of_newline _ ('#' :: body) ?_)
    simpa using comment
  | lastComment _ ended => nomatch ended

end EndsInComment

/-- No token that is delivered contains the beginning of a comment. -/
theorem Covers.sharp_notMem {text rest : List Char} {token : Token}
    (covers : Covers text rest token) : '#' ∉ text := by
  cases covers.denotes with
  | unsigned spells => exact separates_sharp _ _ spells
  | positive spells => simpa using separates_sharp _ _ spells
  | negative spells => simpa using separates_sharp _ _ spells

/-! ### What comes before a gap -/

/-- The bytes of a beginning determine it. -/
theorem beginning_unique {before other rest left : List Char}
    (same : before ++ rest = other ++ left) (bytes : byteLength before = byteLength other) :
    before = other := by
  rcases List.append_eq_append_iff.mp same with ⟨extra, rfl, _⟩ | ⟨extra, rfl, _⟩
  · obtain rfl : extra = [] := byteLength_eq_zero (by simpa using bytes)
    exact (List.append_nil before).symm
  · obtain rfl : extra = [] := byteLength_eq_zero (by simpa using bytes)
    exact List.append_nil other

/-- Ranges with equal bounds in one text cut it in the same way. -/
theorem Range.after_unique {before gap after other space left : List Char}
    (same : before ++ (gap ++ after) = other ++ (space ++ left))
    (range : Range.after before gap = Range.after other space) :
    before = other ∧ gap = space ∧ after = left := by
  simp only [Range.after, Range.mk.injEq] at range
  obtain rfl := beginning_unique same range.1
  obtain same := List.append_cancel_left same
  obtain rfl := beginning_unique same (by simpa using range.2)
  exact ⟨rfl, rfl, List.append_cancel_left same⟩

/-- Nothing lies between a cursor and a gap that begins there. -/
theorem Cursor.In.at_start {cursor : Cursor} {source passed before rest : List Char}
    (inside : cursor.In source passed) (split : source = before ++ rest)
    (bytes : byteLength before = byteLength passed) : before = passed ++ [] := by
  rw [List.append_nil]
  exact beginning_unique (split.symm.trans inside.split) bytes

/-- No comment is open in front of a gap. -/
theorem Cursor.Tiles.before_gap {cursor : Cursor} {source passed before gap after : List Char}
    {found : List Lexeme} (tiles : cursor.Tiles Covers (found.map .ok))
    (inside : cursor.In source passed) (split : source = before ++ (gap ++ after))
    (between : Range.after before gap ∈
      gaps (byteLength passed) (byteLength source) (found.map Lexeme.range)) :
    ∃ piece, before = passed ++ piece ∧ ¬ EndsInComment piece := by
  induction found generalizing cursor passed with
  | nil =>
    have range := List.mem_singleton.mp between
    exact ⟨[], inside.at_start split (congrArg Range.start range), not_endsInComment_nil⟩
  | cons first found inductionHypothesis =>
    obtain ⟨space, text, rest, token, following, layout, covers, rfl, others⟩ := tiles.uncons
    rcases List.mem_cons.mp between with range | between
    · exact ⟨[], inside.at_start split (congrArg Range.start range), not_endsInComment_nil⟩
    · have placed : (cursor.after space (text ++ rest)).In source (passed ++ space) :=
        inside.after following
      have next := placed.after (rest_after cursor space (text ++ rest))
      rw [after_after] at next
      obtain ⟨piece, rfl, closed⟩ := inductionHypothesis others next (by
        simpa [Lexeme.range, Lexeme.stop, Cursor.lexeme, placed.offset, Nat.add_assoc] using
          between)
      refine ⟨space ++ (text ++ piece), by simp, ?_⟩
      intro comment
      have nonempty : text ++ rest ≠ [] := List.append_ne_nil_of_left_ne_nil covers.nonempty rest
      exact closed ((comment.of_closed (layout.closed nonempty)).of_append covers.sharp_notMem)

/-! ### Gaps -/

/-- Layout begins with a character that no token contains. -/
theorem Layout.apart {after gap text rest : List Char} (layout : Layout after gap)
    (nonempty : gap ≠ []) : Apart text (gap ++ rest) := by
  cases layout with
  | none => exact absurd rfl nonempty
  | blank space _ => exact .of_head rfl (separates_space space)
  | newline _ => exact .of_head rfl separates_newline
  | comment _ _ => exact .of_head rfl separates_sharp
  | lastComment _ _ => exact .of_head rfl separates_sharp

/-- Layout in a gap can be replaced by other layout. -/
theorem transcript_respaced {before gap after run : String} {found : List Lexeme}
    (listed : lexItems (before ++ gap ++ after) = found.map .ok)
    (between : Range.after before.toList gap.toList ∈
      gaps 0 (byteLength (before ++ gap ++ after).toList) (found.map Lexeme.range))
    (separated : gap.toList ≠ []) (nonempty : run.toList ≠ [])
    (closed : ClosedLayout run.toList) :
    transcript (before ++ run ++ after) = transcript (before ++ gap ++ after) := by
  have tiles := (lexItems_delivers _).tiles (Cursor.scanAll_tiles _ (scanAll_accepted listed))
  rw [listed] at tiles
  have inside := Cursor.start_in (before ++ gap ++ after).toList
  have split : (before ++ gap ++ after).toList = before.toList ++ (gap.toList ++ after.toList) := by
    simp
  have layout : Layout after.toList gap.toList := by
    obtain ⟨other, space, left, again, range, layout⟩ := tiles.gaps_layout inside _ between
    obtain ⟨_, same, sameAfter⟩ := Range.after_unique (split.symm.trans again) range
    rwa [same, sameAfter]
  obtain ⟨piece, same, uncommented⟩ := tiles.before_gap inside split between
  obtain rfl : before.toList = piece := same
  have apartRun : Apart before.toList (run.toList ++ after.toList) :=
    (closed after.toList).apart nonempty
  refine transcript_alike Transcript.steady_id apartRun (layout.apart separated)
    (fun comment => absurd comment uncommented) ?_ (by simp) split
  intro context
  obtain ⟨reading, reads⟩ := exists_reads context after.toList
  exact ⟨reading, reading, .layout (closed after.toList) reads, .layout layout reads, rfl⟩

/-- Layout that separates tokens of a program, or stands before the first or after
the last one, can be replaced by any other layout whose comments end with their
lines. The tokens are the same, and so are the statements up to their lines. -/
theorem Program.ofSource_respaced (before gap after run : String) (program : Program)
    (found : List Lexeme) (parsed : Program.ofSource (before ++ gap ++ after) = .ok program)
    (listed : lexemes (before ++ gap ++ after) = .ok found)
    (between : Range.after before.toList gap.toList ∈
      gaps 0 (byteLength (before ++ gap ++ after).toList) (found.map Lexeme.range))
    (separated : gap ≠ "") (nonempty : run ≠ "") (closed : ClosedLayout run.toList) :
    transcript (before ++ run ++ after) = .ok (found.map Lexeme.token) ∧
      ∃ other, Program.ofSource (before ++ run ++ after) = .ok other ∧
        other.statements.map Statement.unplaced = program.statements.map Statement.unplaced := by
  obtain ⟨tokens, rest, accepted, succeeded⟩ := Program.ofSource_eq_ok.mp parsed
  have located : tokens = found.map Lexeme.located := by
    rw [tokenize, listed] at accepted
    exact (Except.ok.inj accepted).symm
  have same : transcript (before ++ run ++ after) = transcript (before ++ gap ++ after) :=
    transcript_respaced (collect_eq_ok.mp listed) between (by simpa) (by simpa) closed
  have kinds : transcript (before ++ run ++ after) = .ok (tokens.map Located.token) :=
    same.trans (transcript_eq_ok.mpr ⟨tokens, accepted, rfl⟩)
  obtain ⟨again, acceptedAgain, sameKinds⟩ := transcript_eq_ok.mp kinds
  obtain ⟨statements, read, alike⟩ := Parser.statements_elsewhere succeeded sameKinds
  refine ⟨?_, .ofStatements statements,
    Program.ofSource_eq_ok.mpr ⟨again, [], acceptedAgain, read⟩, alike⟩
  rw [kinds, located, List.map_map]
  rfl

/-- The blank between the dot of a lambda and a signed number gives way to a comment
and a tab. -/
theorem Program.ofSource_respaced_comment :
    let program :=
      Program.ofStatements [.definition ⟨"f", .lambda "x" (.number (-numeralValue ['1']) 1) 1, 1⟩]
    let found : List Lexeme :=
      [⟨.identifier "f", ['f'], 0, ⟨1, 1⟩⟩, ⟨.mark .assign, ['='], 2, ⟨1, 3⟩⟩,
        ⟨.mark .backslash, ['\\'], 4, ⟨1, 5⟩⟩, ⟨.identifier "x", ['x'], 5, ⟨1, 6⟩⟩,
        ⟨.mark .dot, ['.'], 6, ⟨1, 7⟩⟩, ⟨.number (-numeralValue ['1']), ['-', '1'], 8, ⟨1, 9⟩⟩]
    Program.ofSource ("f = \\x." ++ " " ++ "-1") = .ok program ∧
      lexemes ("f = \\x." ++ " " ++ "-1") = .ok found ∧
      transcript ("f = \\x." ++ "# 2\n\t" ++ "-1") = .ok (found.map Lexeme.token) ∧
      ∃ other, Program.ofSource ("f = \\x." ++ "# 2\n\t" ++ "-1") = .ok other ∧
        other.statements.map Statement.unplaced = program.statements.map Statement.unplaced := by
  intro program found
  have listed : lexemes ("f = \\x." ++ " " ++ "-1") = .ok found := rfl
  have parsed : Program.ofSource ("f = \\x." ++ " " ++ "-1") = .ok program :=
    Program.ofSource_eq_ok.mpr ⟨found.map Lexeme.located, [], rfl, rfl⟩
  have closed : ClosedLayout "# 2\n\t".toList :=
    fun _ => @Layout.comment _ [' ', '2'] ['\t'] (by decide) (.blank rfl .none)
  exact ⟨parsed, listed, Program.ofSource_respaced "f = \\x." " " "-1" "# 2\n\t" program found
    parsed listed (by decide) (by decide) (by decide) closed⟩

end Timbre
