import Timbre.Proofs.Leading

/-!
# Numbers that run into words

A numeral without an exponent may run into a word, as in `3else` or `1.5exp`. A
blank between the two changes nothing, unless the word could be the exponent of
the numeral: its first letter is an exponent letter and a digit or nothing follows
that letter in the word.
-/

namespace Timbre

/-- A digit is no letter. -/
theorem not_isAlpha_of_isDigit {c : Char} (digit : c.isDigit = true) : ¬ c.isAlpha = true := by
  intro alpha
  exact StartsNumeral.not_word ⟨c, [], rfl, .inl digit⟩ ⟨c, [], rfl, alpha⟩

/-- A mantissa has no letters. -/
theorem IsMantissa.not_isAlpha {text : List Char} (mantissa : IsMantissa text) {c : Char}
    (member : c ∈ text) : ¬ c.isAlpha = true := by
  rcases mantissa.character member with digit | rfl
  · exact not_isAlpha_of_isDigit digit
  · decide

/-- A letter in a numeral is that of its exponent, and a sign or a digit follows
it. -/
theorem IsNumeral.after_letter {front rest : List Char} {c : Char}
    (numeral : IsNumeral (front ++ c :: rest)) (alpha : c.isAlpha = true) :
    IsExponentLetter c ∧
      ∃ d more, rest = d :: more ∧ (d.isDigit = true ∨ d = '+' ∨ d = '-') := by
  generalize split : front ++ c :: rest = text at numeral
  cases numeral with
  | plain mantissa => exact absurd alpha (mantissa.not_isAlpha (by simp [← split]))
  | @scaled mantissa sign digits letter leading introduced signed nonempty all =>
    have outside : c ∉ mantissa ∧ c ∉ sign ++ digits := by
      refine ⟨fun member => leading.not_isAlpha member alpha, fun member => ?_⟩
      rcases List.mem_append.mp member with member | member
      · rcases signed with rfl | rfl | rfl
        · nomatch member
        · exact absurd alpha (List.mem_singleton.mp member ▸ by decide)
        · exact absurd alpha (List.mem_singleton.mp member ▸ by decide)
      · exact not_isAlpha_of_isDigit (all c member) alpha
    -- The letter comes after the mantissa and before the sign.
    obtain ⟨rfl, rfl⟩ : c = letter ∧ rest = sign ++ digits := by
      rcases List.append_eq_append_iff.mp split with ⟨extra, rfl, tail⟩ | ⟨extra, rfl, tail⟩
      · cases extra with
        | nil => exact List.cons.inj tail
        | cons e inner =>
          obtain ⟨rfl, _⟩ := List.cons.inj tail
          exact absurd (by simp) outside.1
      · cases extra with
        | nil => exact (List.cons.inj tail).imp Eq.symm Eq.symm
        | cons e inner => exact absurd (by simp [(List.cons.inj tail).2]) outside.2
    obtain ⟨d, more, rfl⟩ := List.exists_cons_of_ne_nil nonempty
    refine ⟨introduced, ?_⟩
    rcases signed with rfl | rfl | rfl
    · exact ⟨d, more, rfl, .inl (all d (by simp))⟩
    · exact ⟨'+', d :: more, rfl, .inr (.inl rfl)⟩
    · exact ⟨'-', d :: more, rfl, .inr (.inr rfl)⟩

/-- A numeral without an exponent is read apart from a word that could not be its
exponent, if no word and no other numeral runs into the numeral. -/
theorem Apart.numeral_word {before numeral word after : List Char}
    (start : ∀ c, before.getLast? = some c → isWordCharacter c = false)
    (mantissa : IsMantissa numeral) (letters : IsWord word)
    (unscaled : ∀ letter more, word = letter :: more → IsExponentLetter letter →
      ∃ c others, more = c :: others ∧ c.isDigit = false) :
    Apart (before ++ numeral) (word ++ after) := by
  obtain ⟨first, others, rfl, alpha⟩ := letters.starts
  -- Whatever ends the text ends like the numeral.
  have ends : ∀ {earlier inside : List Char}, before ++ numeral = earlier ++ inside →
      inside ≠ [] → ∃ c, inside.getLast? = some c ∧ (c.isDigit = true ∨ c = '.') := by
    intro earlier inside split nonempty
    have same := congrArg List.getLast? split
    rw [List.getLast?_append_of_ne_nil before mantissa.nonempty,
      List.getLast?_append_of_ne_nil earlier nonempty] at same
    refine ⟨numeral.getLast mantissa.nonempty, ?_,
      mantissa.character (List.getLast_mem mantissa.nonempty)⟩
    rw [← same, List.getLast?_eq_some_getLast]
  constructor
  · rintro earlier last front rest token split following nonempty inside spells
    obtain ⟨d, more, rfl⟩ := List.exists_cons_of_ne_nil inside
    obtain ⟨rfl, tail⟩ : first = d ∧ others ++ after = more ++ rest := List.cons.inj following
    rcases spells.kinds with ⟨scaled, rfl⟩ | ⟨longer, rfl⟩ | ⟨mark, spelled, rfl⟩
    · obtain ⟨introduced, d, digits, rfl, continues⟩ := scaled.after_letter alpha
      obtain ⟨c, left, rfl, digit⟩ := unscaled first others rfl introduced
      obtain ⟨rfl, _⟩ : c = d ∧ left ++ after = digits ++ rest := List.cons.inj tail
      have word : isWordCharacter c = true := letters.character (by simp)
      rcases continues with found | rfl | rfl
      · rw [digit] at found
        nomatch found
      · exact absurd word (by decide)
      · exact absurd word (by decide)
    · obtain ⟨initial, left, rfl⟩ := List.exists_cons_of_ne_nil nonempty
      rcases List.append_eq_append_iff.mp split with ⟨extra, rfl, same⟩ | ⟨extra, rfl, same⟩
      · exact mantissa.not_isAlpha (by simp [same]) longer.1
      · cases extra with
        | nil =>
          have inside : initial ∈ numeral := by
            rw [← List.nil_append numeral, ← same]
            exact List.mem_cons_self
          exact mantissa.not_isAlpha inside longer.1
        | cons c inner =>
          -- The word would contain the character in front of the numeral.
          have unworded := start _ (by
            rw [List.getLast?_append_of_ne_nil earlier (List.cons_ne_nil c inner),
              List.getLast?_eq_some_getLast (List.cons_ne_nil c inner)])
          rw [same, List.append_assoc] at longer
          rw [longer.character (List.mem_append_left _ (List.getLast_mem _))] at unworded
          nomatch unworded
    · have none := (mark.character first (by simp [← spelled])).1
      simp [Char.isAlphanum, alpha] at none
  · rintro earlier digits more letter - - following introduced
    obtain ⟨rfl, rfl⟩ := List.cons.inj following
    obtain ⟨c, left, rfl, _⟩ := unscaled first others rfl introduced
    exact ⟨c, left ++ after, rfl, letters.character (by simp)⟩
  · rintro earlier digits sign more letter c split leading introduced signed -
    obtain ⟨d, last, numeric⟩ :=
      ends split (List.append_ne_nil_of_left_ne_nil leading.nonempty _)
    rw [List.getLast?_append_of_ne_nil digits (List.cons_ne_nil letter sign)] at last
    rcases signed with rfl | rfl | rfl
    · obtain rfl : letter = d := Option.some.inj last
      exact absurd numeric introduced.not_mantissa
    · obtain rfl : '+' = d := Option.some.inj last
      exact absurd numeric (by decide)
    · obtain rfl : '-' = d := Option.some.inj last
      exact absurd numeric (by decide)
  · exact fun numeric => numeric.not_word ⟨first, others ++ after, rfl, alpha⟩

/-- A blank between a numeral without an exponent and the word it runs into changes
nothing: the tokens are the same ones, or the same flaw is found. No word runs into
the numeral, and the word is not the exponent of the numeral. -/
theorem transcript_numeral_word (before numeral word after : String)
    (start : ∀ c, before.toList.getLast? = some c → isWordCharacter c = false)
    (mantissa : IsMantissa numeral.toList) (letters : IsWord word.toList)
    (unscaled : ∀ letter more, word.toList = letter :: more → IsExponentLetter letter →
      ∃ c others, more = c :: others ∧ c.isDigit = false) :
    transcript (before ++ numeral ++ word ++ after) =
      transcript (before ++ numeral ++ " " ++ word ++ after) := by
  have apart : Apart (before.toList ++ numeral.toList) (word.toList ++ after.toList) :=
    .numeral_word start mantissa letters unscaled
  have spaced : Apart (before.toList ++ numeral.toList) (' ' :: (word.toList ++ after.toList)) :=
    .of_head rfl (separates_space rfl)
  refine transcript_alike Transcript.steady_id apart spaced
    (fun _ => (@nextLine_append [' '] (by decide) _).symm) ?_ (by simp) (by simp)
  intro context
  obtain ⟨found, reads⟩ := exists_reads context (word.toList ++ after.toList)
  exact ⟨found, found, reads, .layout (.blank rfl .none) reads, rfl⟩

/-- A number with a sign runs into a word that begins with an exponent letter. -/
theorem transcript_numeral_word_signed :
    let tokens : List Token := [.mark .openParen, .number (-numeralValue ['1', '.', '5']),
      .builtin (.unary .exp), .number (numeralValue ['2'])]
    IsMantissa "1.5".toList ∧ IsWord "exp".toList ∧
      transcript ("(-" ++ "1.5" ++ "exp" ++ " 2") = .ok tokens ∧
      transcript ("(-" ++ "1.5" ++ " " ++ "exp" ++ " 2") = .ok tokens := by
  intro tokens
  have mantissa : IsMantissa "1.5".toList :=
    @IsMantissa.pointed ['1'] ['5'] (List.forall_mem_singleton.mpr rfl)
      (List.forall_mem_singleton.mpr rfl) (.inl (List.cons_ne_nil _ _))
  have letters : IsWord "exp".toList := by decide
  have same := transcript_numeral_word "(-" "1.5" "exp" " 2" (by rintro _ ⟨⟩; rfl) mantissa
    letters (by rintro _ _ ⟨⟩ _; exact ⟨'x', _, rfl, rfl⟩)
  have together : transcript ("(-" ++ "1.5" ++ "exp" ++ " 2") = .ok tokens := by
    unfold tokens
    rfl
  exact ⟨mantissa, letters, together, same ▸ together⟩

end Timbre
