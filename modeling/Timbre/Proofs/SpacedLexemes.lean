import Mathlib.Data.List.Forall2
import Timbre.Proofs.Transcripts

/-!
# Lexemes written apart

Lexemes that are joined by single blanks are read back one by one: a blank ends
every lexeme, and no sign reaches over a blank to the number behind it. The only
rule that looks further back is the one about the dot of a lambda. It cuts a
numeral that begins with a point after a backslash and a parameter, blank or not,
so lexemes in that order are excluded.

What the lexer remembers is a property of the last two lexemes. The induction over
the lexemes carries this together with the lexemes that came before.
-/

namespace Timbre

/-- A numeral, a word or a mark. -/
def IsLexeme (text : List Char) : Prop :=
  IsNumeral text ∨ IsWord text ∨ ∃ mark : Mark, text = mark.text.toList

/-- A word that is not reserved. -/
structure IsFreeWord (word : String) : Prop where
  letters : IsWord word.toList
  free : ∀ token : Token, token.reservedWord ≠ some word

/-- No numeral that begins with a point comes right after a backslash and a word
that can be a parameter. -/
def LambdasUndotted (words : List String) : Prop :=
  ∀ parameter numeral, ["\\", parameter, numeral] <:+: words → IsFreeWord parameter →
    IsNumeral numeral.toList → numeral.toList.head? ≠ some '.'

/-- A lexeme is the spelling of a token. -/
theorem IsLexeme.spells {text : List Char} (lexeme : IsLexeme text) :
    ∃ token, Spells text token := by
  rcases lexeme with numeral | word | ⟨mark, spelled⟩
  · exact ⟨_, .numeral numeral⟩
  · exact ⟨_, .word word⟩
  · rw [spelled]
    exact ⟨_, .mark mark⟩

/-- What is spelled as an identifier is a word that is not reserved. -/
theorem Spells.of_identifier {word : String} {name : String}
    (spells : Spells word.toList (.identifier name)) : IsFreeWord word := by
  generalize same : word.toList = text at spells
  cases spells with
  | reserved known => nomatch known
  | identifier letters free =>
    rw [String.toList_inj.mp same]
    exact ⟨letters, free⟩

/-- The token of a lexeme is at the front of the lexeme and of what is read apart
from it. -/
theorem Apart.front_of_spells {text later : List Char} {token : Token} (apart : Apart text later)
    (spells : Spells text token) : AtFront text later token := by
  have alone : AtFront text [] token := by
    refine ⟨spells, ?_, fun _ _ _ impossible => nomatch impossible⟩
    intro extra after split _ _
    exact (List.append_eq_nil_iff.mp split.symm).1
  rw [← List.append_nil text] at apart
  exact apart.front alone

/-- What a context remembers of the lexemes before. -/
structure Context.Remembers (context : Context) (before : List String) : Prop where
  backslash : context.afterBackslash = true → ["\\"] <:+ before
  parameter : context.afterParameter = true →
    ∃ parameter, IsFreeWord parameter ∧ ["\\", parameter] <:+ before

namespace Context.Remembers

variable {context : Context} {before : List String} {word : String} {token : Token}

/-- At the start nothing is remembered. -/
theorem start : Context.start.Remembers [] where
  backslash impossible := nomatch impossible
  parameter impossible := nomatch impossible

/-- One more lexeme. Only a backslash spells a backslash, and only a word that is
not reserved spells an identifier. -/
theorem after (remembers : context.Remembers before) (spells : Spells word.toList token) :
    (context.after token).Remembers (before ++ [word]) := by
  constructor
  · intro last
    have isBackslash : token = .mark .backslash := of_decide_eq_true last
    rw [isBackslash] at spells
    have same : word = "\\" := String.toList_inj.mp spells.of_mark
    rw [same]
    exact List.suffix_append before ["\\"]
  · intro last
    obtain ⟨lambda, named⟩ := Bool.and_eq_true_iff.mp last
    obtain ⟨earlier, split⟩ := remembers.backslash lambda
    cases token with
    | identifier name =>
      refine ⟨word, spells.of_identifier, earlier, ?_⟩
      rw [← split, List.append_assoc, List.singleton_append]
    | _ => nomatch named

/-- A numeral that begins with a point is not cut where it is not excluded. -/
theorem unsplit {rest : List String} (remembers : context.Remembers before)
    (undotted : LambdasUndotted (before ++ word :: rest)) (spells : Spells word.toList token)
    (parameter : context.afterParameter = true) (value : Float) (number : token = .number value)
    (digits : List Char) : word.toList ≠ '.' :: digits := by
  intro pointed
  obtain ⟨name, free, earlier, split⟩ := remembers.parameter parameter
  rw [number] at spells
  have together : ["\\", name, word] <:+: before ++ word :: rest := by
    refine ⟨earlier, rest, ?_⟩
    rw [← split]
    simp
  refine undotted name word together free spells.of_number.1 ?_
  rw [pointed, List.head?_cons]

end Context.Remembers

/-- One lexeme in front of what is read apart from it. -/
theorem reads_lexeme {context : Context} {before rest : List String} {word : String}
    {later : List Char} {token : Token} {tokens : List Token}
    (remembers : context.Remembers before) (undotted : LambdasUndotted (before ++ word :: rest))
    (spells : Spells word.toList token) (apart : Apart word.toList later)
    (others : Reads (context.after token) later (.ok tokens)) :
    Reads context (word.toList ++ later) (.ok (token :: tokens)) := by
  have unjoined : context.afterOperand = false → ∀ negative, Signs token negative →
      ¬ NumberFirst later := by
    intro _ _ _ number
    exact apart.unnumbered number.starts
  exact .whole (apart.front_of_spells spells) unjoined (remembers.unsplit undotted spells) others

/-- Lexemes behind others, each apart from the next by a blank: induction on the
lexemes, with what the context remembers as the invariant. -/
theorem reads_spaced {context : Context} {before : List String} (words : List String)
    (remembers : context.Remembers before) (undotted : LambdasUndotted (before ++ words))
    (lexemes : ∀ word ∈ words, IsLexeme word.toList) :
    ∃ tokens, Reads context (" ".intercalate words).toList (.ok tokens) ∧
      List.Forall₂ (fun word token => Spells word.toList token) words tokens := by
  induction words generalizing context before with
  | nil => exact ⟨[], .done, .nil⟩
  | cons word rest inductionHypothesis =>
    obtain ⟨token, spells⟩ := (lexemes word List.mem_cons_self).spells
    have next := remembers.after spells
    have still : LambdasUndotted (before ++ [word] ++ rest) := by
      rw [List.append_assoc]
      exact undotted
    obtain ⟨tokens, reads, spelled⟩ := inductionHypothesis next still
      fun other member => lexemes other (List.mem_cons_of_mem word member)
    refine ⟨token :: tokens, ?_, .cons spells spelled⟩
    cases rest with
    | nil =>
      have alone := reads_lexeme remembers undotted spells (.nil _) reads
      simpa using alone
    | cons second others =>
      have blank : Apart word.toList (' ' :: (" ".intercalate (second :: others)).toList) :=
        .of_head rfl (separates_space rfl)
      have behind := reads_lexeme remembers undotted spells blank (.layout (.blank rfl .none) reads)
      rw [String.intercalate_cons_cons]
      simpa using behind

/-- Lexemes joined by single blanks are read back: there is one token for each of
them, in order, and it is the one that the lexeme spells. -/
theorem tokenize_spaced (words : List String) (lexemes : ∀ word ∈ words, IsLexeme word.toList)
    (undotted : LambdasUndotted words) :
    ∃ tokens, tokenize (" ".intercalate words) = .ok tokens ∧
      List.Forall₂ (fun word found => Spells word.toList found.token) words tokens := by
  obtain ⟨kinds, reads, spelled⟩ := reads_spaced words .start undotted lexemes
  obtain ⟨tokens, accepted, same⟩ := transcript_eq_ok.mp reads.transcript_eq
  refine ⟨tokens, accepted, ?_⟩
  rw [← same, List.forall₂_map_right_iff] at spelled
  exact spelled

/-- A numeral that begins with a point after a reserved word and after a dot, a sign
that stays apart from its number, and words that begin with reserved ones. -/
theorem tokenize_spaced_points :
    let words := ["\\", "in", ".5", "-", "3.", "inv", "invert", "\\", "x", ".", ".5e3"]
    (∀ word ∈ words, IsLexeme word.toList) ∧ LambdasUndotted words ∧
      ∃ tokens, tokenize "\\ in .5 - 3. inv invert \\ x . .5e3" = .ok tokens ∧
        List.Forall₂ (fun word found => Spells word.toList found.token) words tokens := by
  intro words
  have five : AllDigits ['5'] := List.forall_mem_singleton.mpr rfl
  have three : AllDigits ['3'] := List.forall_mem_singleton.mpr rfl
  have none : AllDigits [] := List.forall_mem_nil _
  have half : IsMantissa ['.', '5'] := @IsMantissa.pointed [] ['5'] none five (by simp)
  have pointed : IsMantissa ['3', '.'] := @IsMantissa.pointed ['3'] [] three none (by simp)
  have scaled : IsNumeral ['.', '5', 'e', '3'] :=
    @IsNumeral.scaled ['.', '5'] [] ['3'] 'e' half (.inl rfl) (.inl rfl) (by simp) three
  have lexemes : ∀ word ∈ words, IsLexeme word.toList := by
    have word : ∀ {text : List Char}, IsWord text → IsLexeme text :=
      fun letters => .inr (.inl letters)
    have mark : ∀ mark : Mark, IsLexeme mark.text.toList := fun mark => .inr (.inr ⟨mark, rfl⟩)
    simp only [words, List.forall_mem_cons]
    exact ⟨mark .backslash, word (by decide), .inl (.plain half), mark .minus,
      .inl (.plain pointed), word (by decide), word (by decide), mark .backslash,
      word (by decide), mark .dot, .inl scaled, fun _ impossible => nomatch impossible⟩
  have undotted : LambdasUndotted words := by
    intro parameter numeral together named number
    simp only [words, List.infix_cons_iff, List.cons_prefix_cons] at together
    simp at together
    rcases together with ⟨rfl, rfl, -⟩ | ⟨rfl, rfl, -⟩
    · exact absurd rfl (named.free (.keyword .inWord))
    · exact absurd rfl (number.not_mark .dot)
  exact ⟨lexemes, undotted, tokenize_spaced words lexemes undotted⟩

end Timbre
