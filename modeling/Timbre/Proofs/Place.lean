import Mathlib.Data.List.DropRight
import Timbre.Text

/-!
# Bytes and places

The place after a text is found by counting: its line by the newlines in the
text, its column by the bytes after the last of them. Places grow as the text
does.
-/

namespace Timbre

/-- The empty text has no bytes. -/
@[simp] theorem byteLength_nil : byteLength [] = 0 := rfl

/-- The bytes of the first character come before the others. -/
@[simp] theorem byteLength_cons (c : Char) (text : List Char) :
    byteLength (c :: text) = c.utf8Size + byteLength text := rfl

/-- Bytes of texts one after another add up. -/
@[simp] theorem byteLength_append (text more : List Char) :
    byteLength (text ++ more) = byteLength text + byteLength more := by
  induction text with
  | nil => simp
  | cons c rest inductionHypothesis => simp [inductionHypothesis, Nat.add_assoc]

/-- A text with characters has bytes. -/
theorem byteLength_pos {text : List Char} (nonempty : text ≠ []) : 0 < byteLength text := by
  obtain ⟨c, rest, rfl⟩ := List.exists_cons_of_ne_nil nonempty
  have := c.utf8Size_pos
  simp
  omega

/-- Only the empty text has no bytes. -/
theorem byteLength_eq_zero {text : List Char} (empty : byteLength text = 0) : text = [] := by
  cases text with
  | nil => rfl
  | cons c rest =>
    have := c.utf8Size_pos
    simp at empty
    omega

/-- Each character has a byte at least. -/
theorem length_le_byteLength (text : List Char) : text.length ≤ byteLength text := by
  induction text with
  | nil => exact Nat.le_refl 0
  | cons c rest inductionHypothesis =>
    have := c.utf8Size_pos
    simp
    omega

/-- The bytes of the characters are those of the string. -/
theorem byteLength_toList (source : String) : byteLength source.toList = source.utf8ByteSize := by
  have counted (text : List Char) : byteLength text = (String.ofList text).utf8ByteSize := by
    induction text with
    | nil => rfl
    | cons c rest inductionHypothesis =>
      rw [byteLength_cons, inductionHypothesis, ← List.singleton_append, String.ofList_append,
        String.utf8ByteSize_append, ← String.singleton_eq_ofList, String.utf8ByteSize_singleton]
  rw [counted, String.ofList_toList]

/-- The text after the last newline. -/
def lastLine (text : List Char) : List Char := text.rtakeWhile (· ≠ '\n')

namespace Position

/-- The empty text leaves the place as it is. -/
@[simp] theorem advance_nil (p : Position) : p.advance [] = p := rfl

/-- The first character is passed before the others. -/
@[simp] theorem advance_cons (p : Position) (c : Char) (text : List Char) :
    p.advance (c :: text) = (p.step c).advance text := rfl

/-- Texts are passed one after another. -/
@[simp] theorem advance_append (p : Position) (text more : List Char) :
    p.advance (text ++ more) = (p.advance text).advance more := List.foldl_append

/-- The line counts the newlines, and the column the bytes after the last of
them. -/
theorem start_advance (text : List Char) :
    start.advance text = ⟨1 + text.count '\n', 1 + byteLength (lastLine text)⟩ := by
  induction text using List.reverseRecOn with
  | nil => rfl
  | append_singleton text c inductionHypothesis =>
    rw [advance_append, inductionHypothesis, advance_cons, advance_nil, step]
    by_cases newline : c = '\n'
    · subst newline
      simp [lastLine, Nat.add_assoc]
    · simp [lastLine, newline, Nat.add_assoc]

/-- One place comes before another in a text. -/
def Before (p q : Position) : Prop := p.line < q.line ∨ p.line = q.line ∧ p.column < q.column

/-- A place before another is before all later ones. -/
theorem Before.trans {p q r : Position} (first : p.Before q) (second : q.Before r) :
    p.Before r := by
  unfold Before at *
  omega

/-- A character moves the place forward. -/
theorem before_step (p : Position) (c : Char) : p.Before (p.step c) := by
  have := c.utf8Size_pos
  unfold Before step
  split_ifs
  · exact .inl (Nat.lt_succ_self _)
  · exact .inr ⟨rfl, Nat.lt_add_of_pos_right this⟩

/-- A text with characters moves the place forward. -/
theorem before_advance (p : Position) {text : List Char} (nonempty : text ≠ []) :
    p.Before (p.advance text) := by
  induction text generalizing p with
  | nil => exact absurd rfl nonempty
  | cons c rest inductionHypothesis =>
    cases rest with
    | nil => exact before_step p c
    | cons next others =>
      exact (before_step p c).trans (inductionHypothesis (p.step c) (List.cons_ne_nil _ _))

end Position

end Timbre
