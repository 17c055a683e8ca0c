import Timbre.Proofs.Layout
import Timbre.Proofs.Reading

/-!
# What is wrong with a text

A text that is not at layout begins with a token or has one of two flaws: a
character that begins no token, or a numeral whose exponent has no digits and does
not run on into a word. The grammar of tokens decides which flaw it is, and the
scanner reports that one.
-/

namespace Timbre

/-- What is wrong with a text, apart from where. -/
inductive Flaw where
  | character (character : Char)
  | exponent (text : String)
  deriving DecidableEq, Repr

/-- An error without its place. -/
def LexicalError.flaw : LexicalError → Flaw
  | unexpectedCharacter character _ => .character character
  | malformedNumber text _ => .exponent text

/-- No digit follows an exponent letter and its sign; without a sign, no word
character follows and no sign either. -/
def Bare (sign rest : List Char) : Prop :=
  ∀ c more, rest = c :: more → c.isDigit = false ∧
    (sign = [] → isWordCharacter c = false ∧ c ≠ '+' ∧ c ≠ '-')

/-- The flaw at the front of a text. -/
inductive Refuses : List Char → Flaw → Prop where
  | character {c : Char} (rest : List Char) (unspelled : ∀ text token, ¬ Spells (c :: text) token) :
      Refuses (c :: rest) (.character c)
  | exponent {mantissa sign rest : List Char} {letter : Char} (leading : IsMantissa mantissa)
      (introduced : IsExponentLetter letter) (signed : IsExponentSign sign)
      (bare : Bare sign rest) :
      Refuses (mantissa ++ letter :: (sign ++ rest))
        (.exponent (String.ofList (mantissa ++ letter :: sign)))

/-! ### Exponents without digits -/

/-- No digits come after a bare exponent. -/
theorem Bare.takeWhile_digits {sign rest : List Char} (bare : Bare sign rest) :
    rest.takeWhile Char.isDigit = [] := by
  cases rest with
  | nil => rfl
  | cons c more => exact List.takeWhile_cons_of_neg (by simp [(bare c more rfl).1])

/-- The sign of a bare exponent is split off. -/
theorem Bare.signText_eq {sign rest : List Char} (signed : IsExponentSign sign)
    (bare : Bare sign rest) : signText (sign ++ rest) = (sign, rest) := by
  rcases signed with rfl | rfl | rfl
  · cases rest with
    | nil => rfl
    | cons c more =>
      obtain ⟨_, plus, minus⟩ := (bare c more rfl).2 rfl
      simp [signText, plus, minus]
  · rfl
  · rfl

/-- A mantissa with a bare exponent is read as a numeral that is cut. -/
theorem Numeral.front_cut {mantissa sign rest : List Char} {letter : Char}
    (leading : IsMantissa mantissa) (introduced : IsExponentLetter letter)
    (signed : IsExponentSign sign) (bare : Bare sign rest) :
    Numeral.front (mantissa ++ letter :: (sign ++ rest)) =
      some (.cut mantissa letter sign rest) := by
  obtain ⟨extra, after, found⟩ := mantissa_longest (letter :: (sign ++ rest)) leading
  -- An exponent letter does not extend a mantissa, so the one that is read is the given one.
  obtain ⟨split, longer⟩ := mantissa_sound found
  rw [List.append_assoc, List.append_cancel_left_eq] at split
  obtain rfl := longer.extra_nil introduced split
  obtain rfl : letter :: (sign ++ rest) = after := split
  rw [List.append_nil] at found
  simp only [front, found, Option.map_some, extend, if_pos introduced, bare.signText_eq signed,
    bare.takeWhile_digits, if_pos]

/-- An exponent that is cut off has no digits, and without a sign no sign follows. -/
theorem Numeral.front_cut_rest {text mantissa sign rest : List Char} {letter : Char}
    (read : Numeral.front text = some (.cut mantissa letter sign rest)) :
    rest.takeWhile Char.isDigit = [] ∧
      (sign = [] → ∀ c more, rest = c :: more → c ≠ '+' ∧ c ≠ '-') := by
  obtain ⟨⟨digits, after⟩, _, extended⟩ := Option.map_eq_some_iff.mp read
  cases after with
  | nil => nomatch extended
  | cons first more =>
    simp only [extend] at extended
    split_ifs at extended with introduced absent
    cases extended
    refine ⟨absent, ?_⟩
    rintro unsigned c others split
    constructor
    · rintro rfl
      unfold signText at unsigned split
      split at unsigned <;> simp_all
    · rintro rfl
      unfold signText at unsigned split
      split at unsigned <;> simp_all

/-- A numeral that is cut, and does not run on into a word, has a bare exponent. -/
theorem bare_of_cut {text mantissa sign rest : List Char} {letter : Char}
    (read : Numeral.front text = some (.cut mantissa letter sign rest))
    (stops : ¬ (sign = [] ∧ rest.takeWhile isWordCharacter ≠ [])) : Bare sign rest := by
  obtain ⟨absent, unsigned⟩ := Numeral.front_cut_rest read
  rintro c more rfl
  constructor
  · rw [Bool.eq_false_iff]
    intro digit
    rw [List.takeWhile_cons_of_pos digit] at absent
    nomatch absent
  · intro empty
    refine ⟨?_, unsigned empty c more rfl⟩
    rw [Bool.eq_false_iff]
    intro word
    refine stops ⟨empty, ?_⟩
    rw [List.takeWhile_cons_of_pos word]
    exact List.cons_ne_nil _ _

/-! ### Characters that begin no token -/

/-- The first character of a mark is a mark. -/
theorem Mark.first_isMark (mark : Mark) :
    ∃ other ∈ Mark.all, other.text.toList = mark.text.toList.take 1 := by
  cases mark <;> decide

/-- A digit is a numeral. -/
theorem IsNumeral.of_digit {c : Char} (digit : c.isDigit = true) : IsNumeral [c] :=
  .plain (.whole (List.cons_ne_nil c []) (List.forall_mem_singleton.mpr digit))

/-- A character that the scanner cannot begin a numeral, a word or a mark with begins
no token, whatever follows it. -/
theorem unspelled_of_front {c : Char} {rest : List Char}
    (noNumeral : Numeral.front (c :: rest) = none) (noWord : ¬ c.isAlpha = true)
    (noMark : Mark.front (c :: rest) = none) (text : List Char) (token : Token) :
    ¬ Spells (c :: text) token := by
  have markless : ∀ mark : Mark, mark.text.toList ≠ [c] := by
    intro mark spelled
    have passed := List.find?_eq_none.mp noMark mark mark.mem_all
    exact passed (List.isPrefixOf_iff_prefix.mpr (spelled ▸ ⟨rest, rfl⟩))
  intro spells
  rcases spells.kinds with ⟨numeral, rfl⟩ | ⟨word, rfl⟩ | ⟨mark, spelled, rfl⟩
  · obtain ⟨_, _, same, digit | rfl⟩ := numeral.starts
    · obtain ⟨rfl, _⟩ := List.cons.inj same
      obtain ⟨_, _, read, _⟩ := Numeral.front_longest (.of_digit digit) rest
      rw [List.singleton_append, noNumeral] at read
      nomatch read
    · obtain ⟨rfl, _⟩ := List.cons.inj same
      exact markless .dot rfl
  · exact noWord word.1
  · obtain ⟨other, _, first⟩ := mark.first_isMark
    rw [← spelled] at first
    exact markless other first

namespace Refuses

/-- A text that begins with no token has a flaw. -/
theorem of_nonempty {text : List Char} (nonempty : text ≠ []) :
    (∃ word rest token, text = word ++ rest ∧ AtFront word rest token) ∨
      ∃ flaw, Refuses text flaw := by
  obtain ⟨c, others, rfl⟩ := List.exists_cons_of_ne_nil nonempty
  cases read : Numeral.front (c :: others) with
  | some numeral =>
    cases Numeral.front_leads read with
    | complete split numeral finished =>
      rw [split] at read
      exact .inl ⟨_, _, _, split, atFront_numeral read⟩
    | @cut mantissa sign rest letter split leading introduced signed =>
      by_cases runs : sign = [] ∧ rest.takeWhile isWordCharacter ≠ []
      · obtain ⟨rfl, runs⟩ := runs
        rw [List.nil_append] at split
        rw [split] at read
        exact .inl ⟨_, _, _, split, atFront_mantissa read runs⟩
      · rw [split]
        exact .inr ⟨_, .exponent leading introduced signed (bare_of_cut read runs)⟩
  | none =>
    by_cases alpha : c.isAlpha = true
    · refine .inl ⟨_, _, _, ?_, atFront_word others alpha⟩
      rw [List.cons_append, List.takeWhile_append_dropWhile]
    · cases marked : Mark.front (c :: others) with
      | some mark =>
        obtain ⟨after, whole⟩ := Mark.front_isPrefix marked
        rw [← whole] at read marked
        exact .inl ⟨_, _, _, whole.symm, atFront_mark marked read⟩
      | none => exact .inr ⟨_, .character others (unspelled_of_front read alpha marked)⟩

/-- The scanner reports the flaw at the front of a text. -/
theorem scanItem_eq {cursor : Cursor} {flaw : Flaw} (refuses : Refuses cursor.rest flaw) :
    ∃ e next, cursor.scanItem = ([.error e], next) ∧ e.flaw = flaw := by
  generalize split : cursor.rest = text at refuses
  cases refuses with
  | @character c rest unspelled =>
    have noNumeral : Numeral.front (c :: rest) = none := by
      rw [Option.eq_none_iff_forall_ne_some]
      intro numeral read
      cases Numeral.front_leads read with
      | complete split numeral finished =>
        obtain ⟨d, others, rfl⟩ := List.exists_cons_of_ne_nil (Spells.numeral numeral).nonempty
        obtain ⟨rfl, _⟩ := List.cons.inj split
        exact unspelled _ _ (.numeral numeral)
      | cut split leading introduced signed =>
        obtain ⟨d, others, rfl⟩ := List.exists_cons_of_ne_nil leading.nonempty
        obtain ⟨rfl, _⟩ := List.cons.inj split
        exact unspelled _ _ (.numeral (.plain leading))
    have noWord : ¬ c.isAlpha = true := by
      intro alpha
      exact unspelled [] _ (.word ⟨alpha, rfl⟩)
    have noMark : Mark.front (c :: rest) = none := by
      rw [Option.eq_none_iff_forall_ne_some]
      intro mark found
      obtain ⟨after, whole⟩ := Mark.front_isPrefix found
      obtain ⟨d, others, spelled⟩ := List.exists_cons_of_ne_nil (Spells.mark mark).nonempty
      rw [spelled] at whole
      obtain ⟨rfl, _⟩ := List.cons.inj whole
      have spells := Spells.mark mark
      rw [spelled] at spells
      exact unspelled _ _ spells
    refine ⟨.unexpectedCharacter c cursor.position, cursor.after [c] rest, ?_, rfl⟩
    simp only [Cursor.scanItem, split, noNumeral, noMark, if_neg noWord]
  | @exponent mantissa sign rest letter leading introduced signed bare =>
    have read := Numeral.front_cut leading introduced signed bare
    have stops : ¬ (sign = [] ∧ rest.takeWhile isWordCharacter ≠ []) := by
      rintro ⟨empty, runs⟩
      cases rest with
      | nil => exact runs rfl
      | cons c more =>
        exact runs (List.takeWhile_cons_of_neg (by simp [((bare c more rfl).2 empty).1]))
    refine ⟨.malformedNumber _ cursor.position,
      cursor.after (mantissa ++ letter :: sign) rest, ?_, rfl⟩
    obtain ⟨c, others, whole⟩ := List.exists_cons_of_ne_nil
      (List.append_ne_nil_of_left_ne_nil leading.nonempty (letter :: (sign ++ rest)))
    rw [whole] at split read
    simp only [Cursor.scanItem, split, read, Cursor.scanNumeral, if_neg stops]

end Refuses

end Timbre
