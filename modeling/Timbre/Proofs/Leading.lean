import Timbre.Proofs.Transcripts

/-!
# What a text leads to

A text that is read apart from what follows it is read the same way whatever
follows. It is refused, or it leads to a context in which the rest is read, or its
last comment is still open, and then the rest is read from its next line on. So two
texts with the same beginning have the same transcript as soon as what follows the
beginning reads the same in every context.
-/

namespace Timbre

/-- The last line of a text has a comment, which is still open at its end. -/
def EndsInComment (text : List Char) : Prop :=
  ∃ before body, text = before ++ '#' :: body ∧ '\n' ∉ body

/-- What comes before a text does not close the comment at its end. -/
theorem EndsInComment.append {text : List Char} (comment : EndsInComment text)
    (before : List Char) : EndsInComment (before ++ text) := by
  obtain ⟨earlier, body, rfl, inLine⟩ := comment
  exact ⟨before ++ earlier, body, by rw [List.append_assoc], inLine⟩

/-- What reading a text leads to, whatever is read after it. -/
inductive Leads (context : Context) (text : List Char) : Prop where
  | refused (flaw : Flaw)
      (reads : ∀ {later}, Apart text later → Reads context (text ++ later) (.error flaw))
  | passed (tokens : List Token) (next : Context)
      (reads : ∀ {later found}, Apart text later → Reads next later found →
        Reads context (text ++ later) (found.after tokens))
  | commented (tokens : List Token) (next : Context) (comment : EndsInComment text)
      (reads : ∀ {later found}, Apart text later → Reads next (nextLine later) found →
        Reads context (text ++ later) (found.after tokens))

namespace Leads

variable {context next : Context} {piece rest : List Char}

/-- A text leads on from where its first piece leads to. -/
theorem step (tokens : List Token) (leads : Leads next rest)
    (reads : ∀ {later found}, Apart (piece ++ rest) later → Reads next (rest ++ later) found →
      Reads context (piece ++ (rest ++ later)) (found.after tokens)) :
    Leads context (piece ++ rest) := by
  cases leads with
  | refused flaw following =>
    refine .refused flaw ?_
    intro later apart
    rw [List.append_assoc]
    exact reads apart (following apart.suffix)
  | passed more last following =>
    refine .passed (tokens ++ more) last ?_
    intro later found apart others
    rw [List.append_assoc, ← Transcript.after_after]
    exact reads apart (following apart.suffix others)
  | commented more last comment following =>
    refine .commented (tokens ++ more) last (comment.append piece) ?_
    intro later found apart others
    rw [List.append_assoc, ← Transcript.after_after]
    exact reads apart (following apart.suffix others)

/-- A token at the front is delivered as it is, joined with the number after it, or
split; this is decided by what follows it in the text. -/
theorem of_front {token : Token} (front : AtFront piece rest token)
    (shorter : ∀ next text, text.length ≤ rest.length → Leads next text) :
    Leads context (piece ++ rest) := by
  by_cases splits : context.afterParameter = true ∧ ∃ value, token = .number value ∧
      ∃ digits, piece = '.' :: digits
  · obtain ⟨parameter, value, rfl, digits, rfl⟩ := splits
    refine step [.mark .dot, .number (numeralValue digits)]
      (shorter ((context.after (.mark .dot)).after (.number (numeralValue digits))) rest le_rfl) ?_
    intro later found apart others
    exact .split parameter (apart.front front) others
  by_cases joins : context.afterOperand = false ∧ ∃ negative, Signs token negative ∧
      NumberFirst rest
  · obtain ⟨outside, negative, signs, digits, left, value, rfl, number⟩ := joins
    rw [← List.append_assoc]
    let signed : Token := .number (if negative then -value else value)
    have fewer : left.length ≤ (digits ++ left).length := by
      rw [List.length_append]
      exact Nat.le_add_left _ _
    refine step [signed] (shorter (context.after signed) left fewer) ?_
    intro later found apart others
    rw [List.append_assoc] at apart
    have sign := apart.front front
    rw [List.append_assoc] at sign ⊢
    exact .joined outside signs sign (apart.suffix.front number) others
  · refine step [token] (shorter (context.after token) rest le_rfl) ?_
    intro later found apart others
    refine .whole (apart.front front) ?_ ?_ others
    · intro outside negative signs number
      exact joins ⟨outside, negative, signs, apart.suffix.numberFirst number⟩
    · intro parameter value number digits pointed
      exact splits ⟨parameter, value, number, digits, pointed⟩

end Leads

/-- Every text leads somewhere. -/
theorem leads (context : Context) (text : List Char) : Leads context text := by
  induction size : text.length using Nat.strong_induction_on generalizing context text with
  | _ size inductionHypothesis =>
    obtain ⟨gap, rest, rfl, layout, stops⟩ := exists_layout text
    by_cases empty : rest = []
    · subst empty
      rw [List.append_nil]
      rcases layout.closed_or_open with closed | ⟨before, body, rfl, closed, inLine⟩
      · refine .passed [] context ?_
        intro later found _ others
        rw [Transcript.after_nil]
        exact .layout (closed later) others
      · refine .commented [] context ⟨before, body, rfl, inLine⟩ ?_
        intro later found _ others
        obtain ⟨line, split, ended⟩ := Layout.rest_of_line inLine later
        rw [Transcript.after_nil, List.append_assoc, List.cons_append, split]
        exact .layout (closed _) (.layout ended others)
    · have closed := layout.closed empty
      have following : Leads context rest := by
        rcases Refuses.of_nonempty empty with ⟨word, left, token, rfl, front⟩ | ⟨flaw, refuses⟩
        · refine .of_front front ?_
          intro next text shorter
          have positive := List.length_pos_iff.mpr front.spells.nonempty
          refine inductionHypothesis text.length ?_ next text rfl
          rw [← size, List.length_append, List.length_append]
          omega
        · refine .refused flaw ?_
          intro later apart
          exact .refused (stops.append empty later) (apart.refuses refuses)
      refine following.step [] ?_
      intro later found _ others
      rw [Transcript.after_nil]
      exact .layout (closed _) others

/-- Every text reads as something in every context. -/
theorem exists_reads (context : Context) (text : List Char) :
    ∃ found, Reads context text found := by
  have apart := Apart.nil text
  rw [← List.append_nil text]
  cases leads context text with
  | refused flaw reads => exact ⟨_, reads apart⟩
  | passed tokens next reads => exact ⟨_, reads apart .done⟩
  | commented tokens next comment reads => exact ⟨_, reads apart .done⟩

namespace Transcript

/-- Transcripts that look alike still do after the same tokens. -/
def Steady {α : Type} (view : Transcript → α) : Prop :=
  ∀ (tokens : List Token) (first second : Transcript), view first = view second →
    view (first.after tokens) = view (second.after tokens)

/-- Equal transcripts are still equal after the same tokens. -/
theorem steady_id : Steady id := fun tokens _ _ same => congrArg (after tokens) same

end Transcript

/-- Two sources with the same beginning have transcripts that look alike if what
follows the beginning looks alike in every context. In a comment that is open there,
the rest of the line does not matter. -/
theorem transcript_alike {α : Type} {view : Transcript → α} (steady : Transcript.Steady view)
    {source changed : String} {text later other : List Char} (apart : Apart text later)
    (apartOther : Apart text other)
    (line : EndsInComment text → nextLine later = nextLine other)
    (alike : ∀ context, ∃ found foundOther, Reads context later found ∧
      Reads context other foundOther ∧ view found = view foundOther)
    (split : source.toList = text ++ later) (splitChanged : changed.toList = text ++ other) :
    view (transcript source) = view (transcript changed) := by
  cases leads .start text with
  | refused flaw reads =>
    rw [Reads.transcript_eq (split ▸ reads apart),
      Reads.transcript_eq (splitChanged ▸ reads apartOther)]
  | passed tokens next reads =>
    obtain ⟨found, foundOther, first, second, same⟩ := alike next
    rw [Reads.transcript_eq (split ▸ reads apart first),
      Reads.transcript_eq (splitChanged ▸ reads apartOther second)]
    exact steady tokens found foundOther same
  | commented tokens next comment reads =>
    obtain ⟨found, first⟩ := exists_reads next (nextLine later)
    have second := line comment ▸ first
    rw [Reads.transcript_eq (split ▸ reads apart first),
      Reads.transcript_eq (splitChanged ▸ reads apartOther second)]

end Timbre
