import Timbre.Proofs.Delivery
import Timbre.Proofs.Separation

/-!
# Transcripts

The transcript of a text is the list of its tokens without their places, or what is
wrong with the text first. It is stated by rules over the text alone: layout is
passed over, a sign joins the number right after it, a numeral that begins with the
dot of a lambda is cut in two, and every other token is the longest spelling at the
front of the text. The lexer, which works with bytes and places, gives the
transcript that these rules give.
-/

namespace Timbre

/-- The tokens of a text, or what is wrong with it first. -/
abbrev Transcript := Except Flaw (List Token)

namespace Transcript

/-- A transcript after tokens that come first. -/
def after (tokens : List Token) (transcript : Transcript) : Transcript :=
  transcript.map (tokens ++ ·)

/-- A transcript after no tokens is the transcript itself. -/
@[simp] theorem after_nil (transcript : Transcript) : transcript.after [] = transcript := by
  cases transcript <;> rfl

/-- Tokens in front of tokens are in front together. -/
@[simp] theorem after_after (tokens others : List Token) (transcript : Transcript) :
    (transcript.after others).after tokens = transcript.after (tokens ++ others) := by
  cases transcript with
  | error flaw => rfl
  | ok found => exact congrArg Except.ok (List.append_assoc tokens others found).symm

end Transcript

/-- The transcript that items amount to. -/
def itemTranscript : List Item → Transcript
  | [] => .ok []
  | .error e :: _ => .error e.flaw
  | .ok lexeme :: items => (itemTranscript items).after [lexeme.token]

/-- The tokens of a source text without their places, or what is wrong with it
first. -/
def transcript (source : String) : Transcript :=
  match tokenize source with
  | .ok tokens => .ok (tokens.map Located.token)
  | .error e => .error e.flaw

/-- A transcript without flaws is that of the tokens of the source. -/
theorem transcript_eq_ok {source : String} {tokens : List Token} :
    transcript source = .ok tokens ↔
      ∃ located, tokenize source = .ok located ∧ located.map Located.token = tokens := by
  unfold transcript
  cases tokenize source with
  | error e => simp
  | ok located => simp

/-- The transcript of a source is what its items amount to. -/
theorem transcript_eq_itemTranscript (source : String) :
    transcript source = itemTranscript (lexItems source) := by
  have collected : ∀ items : List Item,
      (match (items.mapM id).map (·.map Lexeme.located) with
        | .ok tokens => .ok (tokens.map Located.token)
        | .error e => .error e.flaw : Transcript) = itemTranscript items := by
    intro items
    induction items with
    | nil => rfl
    | cons item items inductionHypothesis =>
      cases item with
      | error e => rw [collect_error]; rfl
      | ok lexeme =>
        rw [collect_ok, itemTranscript, ← inductionHypothesis]
        cases items.mapM id <;> rfl
  exact collected (lexItems source)

/-! ### The rules -/

/-- What a text reads as in a context. -/
inductive Reads : Context → List Char → Transcript → Prop where
  | done {context : Context} : Reads context [] (.ok [])
  | layout {context : Context} {gap rest : List Char} {found : Transcript}
      (layout : Layout rest gap) (others : Reads context rest found) :
      Reads context (gap ++ rest) found
  | refused {context : Context} {text : List Char} {flaw : Flaw} (stops : StartsNoLayout text)
      (refuses : Refuses text flaw) : Reads context text (.error flaw)
  | joined {context : Context} {sign digits rest : List Char} {token : Token} {negative : Bool}
      {value : Float} {found : Transcript} (outside : context.afterOperand = false)
      (signs : Signs token negative) (front : AtFront sign (digits ++ rest) token)
      (number : AtFront digits rest (.number value))
      (others : Reads (context.after (.number (if negative then -value else value))) rest found) :
      Reads context (sign ++ (digits ++ rest))
        (found.after [.number (if negative then -value else value)])
  | split {context : Context} {digits rest : List Char} {value : Float} {found : Transcript}
      (parameter : context.afterParameter = true)
      (front : AtFront ('.' :: digits) rest (.number value))
      (others : Reads ((context.after (.mark .dot)).after (.number (numeralValue digits))) rest
        found) :
      Reads context ('.' :: digits ++ rest)
        (found.after [.mark .dot, .number (numeralValue digits)])
  | whole {context : Context} {text rest : List Char} {token : Token} {found : Transcript}
      (front : AtFront text rest token)
      (unjoined : context.afterOperand = false → ∀ negative, Signs token negative →
        ¬ NumberFirst rest)
      (unsplit : context.afterParameter = true → ∀ value, token = .number value →
        ∀ digits, text ≠ '.' :: digits)
      (others : Reads (context.after token) rest found) :
      Reads context (text ++ rest) (found.after [token])

/-! ### The lexer follows the rules -/

namespace Cursor

variable {cursor : Cursor}

/-- Cursors that scan the same find the same items. -/
theorem scanAll_congr {other : Cursor} (same : cursor.scan = other.scan) :
    cursor.scanAll = other.scanAll := by
  rcases found : other.scan with ⟨_ | ⟨item, items⟩, next⟩
  · rw [scanAll_nil found, scanAll_nil (same.trans found)]
  · rw [scanAll_cons found, scanAll_cons (same.trans found)]

/-- Nothing is scanned in layout. -/
theorem scanAll_layout {gap rest : List Char} (split : cursor.rest = gap ++ rest)
    (layout : Layout rest gap) : cursor.scanAll = (cursor.after gap rest).scanAll := by
  apply scanAll_congr
  have skipped : cursor.skipLayout = (cursor.after gap rest).skipLayout := by
    rw [skipLayout, split, skip_append layout]
    rfl
  rw [scan, skipped]
  rfl

/-- A token right at the cursor is scanned. -/
theorem scanAll_token {text rest : List Char} {token : Token} (split : cursor.rest = text ++ rest)
    (front : AtFront text rest token) :
    cursor.scanAll = .ok (cursor.lexeme token text) :: (cursor.after text rest).scanAll :=
  @scanAll_front cursor [] text rest token split .none front

/-- A flaw at the front is the first item. -/
theorem scanAll_refused {flaw : Flaw} (stops : StartsNoLayout cursor.rest)
    (refuses : Refuses cursor.rest flaw) :
    ∃ e items, cursor.scanAll = .error e :: items ∧ e.flaw = flaw := by
  have skipped : cursor.skipLayout = cursor := skip_stopped stops cursor.offset cursor.position
  obtain ⟨e, next, found, same⟩ := refuses.scanItem_eq
  rw [← skipped] at found
  exact ⟨e, _, scanAll_cons found, same⟩

/-- A number that is scanned first begins at the cursor only if nothing is skipped. -/
theorem numberFirst_of_scanAll {value : Float} {text : List Char} {position : Position}
    {items : List Item}
    (found : cursor.scanAll = .ok ⟨.number value, text, cursor.offset, position⟩ :: items) :
    NumberFirst cursor.rest := by
  rcases cursor.scanAll_cases with
    layout | ⟨gap, digits, rest, token, split, layout, front⟩ | ⟨_, _, _, _, _, _, scanned⟩
  · rw [scanAll_done layout] at found
    exact absurd found.symm (List.cons_ne_nil _ _)
  · rw [scanAll_front split layout front] at found
    obtain ⟨same, _⟩ := List.cons.inj found
    simp only [Cursor.lexeme, Cursor.after, Except.ok.injEq, Lexeme.mk.injEq] at same
    obtain ⟨rfl, rfl, start, _⟩ := same
    obtain rfl : gap = [] := byteLength_eq_zero (by omega)
    exact ⟨digits, rest, value, split, front⟩
  · rw [scanned] at found
    exact absurd (List.cons.inj found).1 (by simp)

end Cursor

namespace Reads

/-- What a text reads as is what is delivered for it, wherever it stands. -/
theorem delivers {context : Context} {text : List Char} {found : Transcript}
    (reads : Reads context text found) {cursor : Cursor} (split : cursor.rest = text) :
    ∃ delivered, Delivers context cursor.scanAll delivered ∧ itemTranscript delivered = found := by
  induction reads generalizing cursor with
  | done =>
    refine ⟨[], ?_, rfl⟩
    rw [Cursor.scanAll_done (by rw [split]; exact .none)]
    exact .nothing
  | layout layout _ inductionHypothesis =>
    rw [Cursor.scanAll_layout split layout]
    exact inductionHypothesis rfl
  | @refused context _ _ stops refuses =>
    subst split
    obtain ⟨e, items, scanned, rfl⟩ := Cursor.scanAll_refused stops refuses
    obtain ⟨delivered, others⟩ := exists_delivers context items
    refine ⟨.error e :: delivered, ?_, rfl⟩
    rw [scanned]
    exact .error others
  | @joined context sign digits rest token negative value found outside signs front number _
      inductionHypothesis =>
    obtain ⟨delivered, others, same⟩ :=
      @inductionHypothesis ((cursor.after sign (digits ++ rest)).after digits rest) rfl
    subst same
    refine ⟨.ok ((cursor.lexeme token sign).join negative value digits) :: delivered, ?_, rfl⟩
    rw [Cursor.scanAll_token split front, Cursor.scanAll_token rfl number]
    exact .joined outside signs others
  | @split context digits rest value found parameter front _ inductionHypothesis =>
    obtain ⟨delivered, others, same⟩ :=
      @inductionHypothesis (cursor.after ('.' :: digits) rest) rfl
    rw [Cursor.scanAll_token split front]
    exact ⟨_, .split parameter others, by simp [itemTranscript, same]⟩
  | @whole context text rest token found front unjoined unsplit _ inductionHypothesis =>
    obtain ⟨delivered, others, same⟩ := @inductionHypothesis (cursor.after text rest) rfl
    subst same
    refine ⟨.ok (cursor.lexeme token text) :: delivered, ?_, rfl⟩
    rw [Cursor.scanAll_token split front]
    refine .whole ?_ ?_ others
    · rintro ⟨outside, ⟨negative, signs⟩, value, digits, position, items, adjacent⟩
      exact unjoined outside negative signs (Cursor.numberFirst_of_scanAll adjacent)
    · rintro ⟨parameter, ⟨value, number⟩, digits, pointed⟩
      exact unsplit parameter value number digits pointed

/-- What a source text reads as at its start is its transcript. -/
theorem transcript_eq {source : String} {found : Transcript}
    (reads : Reads .start source.toList found) : transcript source = found := by
  obtain ⟨delivered, delivers, same⟩ := reads.delivers (rfl : (Cursor.start _).rest = _)
  rw [transcript_eq_itemTranscript, lexItems_eq delivers, same]

end Reads

end Timbre
