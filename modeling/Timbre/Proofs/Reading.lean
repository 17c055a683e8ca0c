import Timbre.Proofs.Spelling

/-!
# Reading the longest spelling

What the scanner reads at a cursor is the token that the grammar puts at the
front of the text. Where it refuses the text, there is none.
-/

namespace Timbre

/-! ### Numerals -/

/-- What is taken while there are digits is digits. -/
theorem allDigits_takeWhile {text : List Char} : AllDigits (text.takeWhile Char.isDigit) :=
  fun _ member => List.mem_takeWhile_imp member

/-- A mantissa that is read is one and stands at the front. -/
theorem mantissa_sound {text digits rest : List Char}
    (found : mantissa text = some (digits, rest)) : text = digits ++ rest ∧ IsMantissa digits := by
  have whole := @List.takeWhile_append_dropWhile _ Char.isDigit text
  simp only [mantissa] at found
  split at found
  · rename_i after pointed
    split_ifs at found with empty
    simp only [Option.some.injEq, Prod.mk.injEq] at found
    obtain ⟨rfl, rfl⟩ := found
    refine ⟨?_, .pointed allDigits_takeWhile allDigits_takeWhile (not_and_or.mp empty)⟩
    simp only [List.append_assoc, List.cons_append, List.takeWhile_append_dropWhile]
    rw [← pointed, whole]
  · split_ifs at found with empty
    simp only [Option.some.injEq, Prod.mk.injEq] at found
    obtain ⟨rfl, rfl⟩ := found
    exact ⟨whole.symm, .whole empty allDigits_takeWhile⟩

/-- The mantissa that is read extends every mantissa at the front of the text. -/
theorem mantissa_longest {text : List Char} (rest : List Char) (front : IsMantissa text) :
    ∃ extra after, mantissa (text ++ rest) = some (text ++ extra, after) := by
  cases front with
  | whole nonempty all =>
    simp only [mantissa, List.takeWhile_append_of_pos all, List.dropWhile_append_of_pos all]
    split
    · simp [nonempty]
    · simp [nonempty]
  | @pointed whole fraction before after nonempty =>
    have first : (whole ++ '.' :: (fraction ++ rest)).takeWhile Char.isDigit = whole := by
      rw [List.takeWhile_append_of_pos before, List.takeWhile_cons_of_neg (by decide),
        List.append_nil]
    have second : (whole ++ '.' :: (fraction ++ rest)).dropWhile Char.isDigit =
        '.' :: (fraction ++ rest) := by
      rw [List.dropWhile_append_of_pos before, List.dropWhile_cons_of_neg (by decide)]
    simp only [mantissa, List.append_assoc, List.cons_append, first, second,
      List.takeWhile_append_of_pos after, List.dropWhile_append_of_pos after]
    have some : ¬ (whole = [] ∧ fraction ++ rest.takeWhile Char.isDigit = []) := by
      rintro ⟨empty, absent⟩
      exact nonempty.elim (· empty) (· (List.append_eq_nil_iff.mp absent).1)
    rw [if_neg some]
    exact ⟨_, _, rfl⟩

/-- The numeral that is read, without an exponent that is cut off. -/
def Numeral.read : Numeral → List Char
  | complete text _ => text
  | cut mantissa _ _ _ => mantissa

/-- A sign in front of digits is split off. -/
theorem signText_eq {sign digits rest : List Char}
    (signed : IsExponentSign sign) (nonempty : digits ≠ [])
    (all : AllDigits digits) :
    signText (sign ++ (digits ++ rest)) = (sign, digits ++ rest) := by
  rcases signed with rfl | rfl | rfl
  · obtain ⟨digit, others, rfl⟩ := List.exists_cons_of_ne_nil nonempty
    have isDigit : digit.isDigit = true := all digit (by simp)
    have plus : digit ≠ '+' := by
      rintro rfl
      exact absurd isDigit (by decide)
    have minus : digit ≠ '-' := by
      rintro rfl
      exact absurd isDigit (by decide)
    simp [signText, plus, minus]
  · rfl
  · rfl

/-- What is split off is a sign, and the rest is what comes after it. -/
theorem signText_sound (text : List Char) :
    text = (signText text).1 ++ (signText text).2 ∧ IsExponentSign (signText text).1 := by
  unfold signText
  split <;> simp [IsExponentSign]

/-- An exponent is read behind the mantissa. -/
theorem Numeral.extend_read (mantissa rest : List Char) :
    ∃ extra, (extend mantissa rest).read = mantissa ++ extra := by
  cases rest with
  | nil => exact ⟨[], (List.append_nil _).symm⟩
  | cons letter rest =>
    simp only [extend]
    split_ifs
    · exact ⟨[], (List.append_nil _).symm⟩
    · exact ⟨_, List.append_assoc _ _ _⟩
    · exact ⟨[], (List.append_nil _).symm⟩

/-- An exponent with digits completes the numeral, up to its last digit. -/
theorem Numeral.extend_scaled {letter : Char} {sign digits : List Char}
    (mantissa rest : List Char) (introduced : IsExponentLetter letter)
    (signed : IsExponentSign sign) (nonempty : digits ≠ [])
    (all : AllDigits digits) :
    extend mantissa (letter :: (sign ++ (digits ++ rest))) =
      complete (mantissa ++ letter :: (sign ++ (digits ++ rest.takeWhile Char.isDigit)))
        (rest.dropWhile Char.isDigit) := by
  have digitsRead : digits ++ rest.takeWhile Char.isDigit ≠ [] :=
    List.append_ne_nil_of_left_ne_nil nonempty _
  simp only [extend, if_pos introduced, signText_eq signed nonempty all,
    List.takeWhile_append_of_pos all, List.dropWhile_append_of_pos all, if_neg digitsRead,
    List.append_assoc, List.cons_append]

/-- The numeral that is read extends every numeral at the front of the text. -/
theorem Numeral.front_longest {text : List Char} (numeral : IsNumeral text) (rest : List Char) :
    ∃ found extra, Numeral.front (text ++ rest) = some found ∧ found.read = text ++ extra := by
  cases numeral with
  | plain mantissa =>
    obtain ⟨extra, after, found⟩ := mantissa_longest rest mantissa
    obtain ⟨more, read⟩ := extend_read (text ++ extra) after
    refine ⟨extend (text ++ extra) after, extra ++ more, ?_, ?_⟩
    · simp only [front, found, Option.map_some]
    · rw [read, List.append_assoc]
  | @scaled mantissa sign digits letter leading introduced signed nonempty all =>
    obtain ⟨extra, after, found⟩ := mantissa_longest (letter :: (sign ++ (digits ++ rest))) leading
    -- The mantissa that is read cannot reach into the exponent, so it is the given one.
    obtain ⟨split, longer⟩ := mantissa_sound found
    rw [List.append_assoc, List.append_cancel_left_eq] at split
    obtain rfl := longer.extra_nil introduced split
    obtain rfl : letter :: (sign ++ (digits ++ rest)) = after := split
    have scaled := extend_scaled mantissa rest introduced signed nonempty all
    refine ⟨_, rest.takeWhile Char.isDigit, ?_, congrArg Numeral.read scaled |>.trans ?_⟩
    · simp only [front, List.append_assoc, List.cons_append, found, Option.map_some,
        List.append_nil]
    · simp only [read, List.append_assoc, List.cons_append]

/-- What a numeral that is read looks like. A mantissa that is complete is not
followed by an exponent letter. -/
inductive Numeral.Leads (text : List Char) : Numeral → Prop where
  | complete {read rest : List Char} (split : text = read ++ rest) (numeral : IsNumeral read)
      (finished : IsMantissa read → ∀ letter more, rest = letter :: more →
        ¬ IsExponentLetter letter) : Leads text (.complete read rest)
  | cut {mantissa sign rest : List Char} {letter : Char}
      (split : text = mantissa ++ letter :: (sign ++ rest)) (leading : IsMantissa mantissa)
      (introduced : IsExponentLetter letter) (signed : IsExponentSign sign) :
      Leads text (.cut mantissa letter sign rest)

/-- A numeral that is read looks as it should. -/
theorem Numeral.front_leads {text : List Char} {found : Numeral}
    (read : Numeral.front text = some found) : found.Leads text := by
  obtain ⟨⟨mantissa, rest⟩, leading, rfl⟩ := Option.map_eq_some_iff.mp read
  obtain ⟨rfl, isMantissa⟩ := mantissa_sound leading
  cases rest with
  | nil => exact .complete rfl (.plain isMantissa) (fun _ _ _ impossible => nomatch impossible)
  | cons letter rest =>
    obtain ⟨split, signed⟩ := signText_sound rest
    simp only [extend]
    split_ifs with introduced absent
    · exact .cut (by rw [← split]) isMantissa introduced signed
    · simp only [List.append_assoc, List.cons_append]
      refine .complete ?_ (.scaled isMantissa introduced signed absent allDigits_takeWhile) ?_
      · simp only [List.append_assoc, List.cons_append, List.takeWhile_append_dropWhile]
        rw [← split]
      · intro whole
        have inside : letter ∈ mantissa ++ letter :: ((signText rest).1 ++
            (signText rest).2.takeWhile Char.isDigit) := by simp
        exact absurd (whole.character inside) (IsExponentLetter.not_mantissa introduced)
    · refine .complete rfl (.plain isMantissa) ?_
      rintro _ _ _ ⟨⟩
      exact introduced

/-- A numeral that is read has no longer spelling, whatever its exponent. -/
theorem IsNumeral.longest {text rest : List Char} {found : Numeral} (numeral : IsNumeral text)
    (read : Numeral.front (text ++ rest) = some found) (same : found.read = text) :
    Longest text rest := by
  rintro extra after rfl token spells
  have starts : StartsNumeral (text ++ extra) := by
    obtain ⟨c, others, rfl, starts⟩ := numeral.starts
    exact ⟨c, others ++ extra, rfl, starts⟩
  rcases spells.kinds with ⟨longer, rfl⟩ | ⟨word, rfl⟩ | ⟨mark, spelled, rfl⟩
  · obtain ⟨again, more, readAgain, extended⟩ := Numeral.front_longest longer after
    rw [List.append_assoc, read] at readAgain
    obtain rfl := Option.some.inj readAgain
    rw [same, List.append_assoc, List.self_eq_append_right] at extended
    exact (List.append_eq_nil_iff.mp extended).1
  · exact absurd word.starts starts.not_word
  · obtain ⟨c, member, digit⟩ := numeral.digit
    exact absurd digit (Mark.not_digit (spelled ▸ List.mem_append_left extra member))

/-- A complete numeral is at the front and is the longest token there. -/
theorem atFront_numeral {read rest : List Char}
    (found : Numeral.front (read ++ rest) = some (.complete read rest)) :
    AtFront read rest (.number (numeralValue read)) := by
  cases Numeral.front_leads found with
  | complete _ numeral finished =>
    refine ⟨.numeral numeral, numeral.longest found rfl, ?_⟩
    intro mantissa letter more split introduced
    exact absurd introduced (finished mantissa letter more split)

/-- The mantissa of a numeral that runs into a word is the token at the front. -/
theorem atFront_mantissa {mantissa rest : List Char} {letter : Char}
    (found : Numeral.front (mantissa ++ letter :: rest) = some (.cut mantissa letter [] rest))
    (runs : rest.takeWhile isWordCharacter ≠ []) :
    AtFront mantissa (letter :: rest) (.number (numeralValue mantissa)) := by
  cases Numeral.front_leads found with
  | cut _ leading _ _ =>
    have numeral : IsNumeral mantissa := .plain leading
    refine ⟨.numeral numeral, numeral.longest found rfl, ?_⟩
    rintro _ _ _ ⟨⟩ _
    cases rest with
    | nil => exact absurd rfl runs
    | cons c others =>
      refine ⟨c, others, rfl, ?_⟩
      by_contra stops
      exact runs (List.takeWhile_cons_of_neg stops)

/-! ### Words and marks -/

/-- A letter and the word characters after it are a word. -/
theorem isWord_takeWhile {first : Char} (rest : List Char) (alpha : first.isAlpha = true) :
    IsWord (first :: rest.takeWhile isWordCharacter) :=
  ⟨alpha, List.all_eq_true.mpr fun _ member => List.mem_takeWhile_imp member⟩

/-- The longest word is the token at the front. -/
theorem atFront_word {first : Char} (rest : List Char) (alpha : first.isAlpha = true) :
    AtFront (first :: rest.takeWhile isWordCharacter) (rest.dropWhile isWordCharacter)
      (.ofWord (String.ofList (first :: rest.takeWhile isWordCharacter))) := by
  have word : IsWord (first :: rest.takeWhile isWordCharacter) :=
    isWord_takeWhile rest alpha
  refine ⟨.word word, ?_, fun mantissa => absurd word.starts mantissa.starts.not_word⟩
  intro extra after split token spells
  have starts : StartsWord (first :: rest.takeWhile isWordCharacter ++ extra) :=
    ⟨first, _, rfl, alpha⟩
  rcases spells.kinds with ⟨numeral, rfl⟩ | ⟨longer, rfl⟩ | ⟨mark, spelled, rfl⟩
  · exact absurd starts numeral.starts.not_word
  · cases extra with
    | nil => rfl
    | cons c others =>
      have inside : isWordCharacter c = true := longer.character (by simp)
      have outside := List.head?_dropWhile_not isWordCharacter rest
      rw [split] at outside
      simp [inside] at outside
  · exact absurd (spelled ▸ starts) (StartsWord.not_mark mark)

/-- No mark is listed before a longer one that begins with it. -/
theorem Mark.all_ordered :
    Mark.all.Pairwise fun earlier later => ¬ earlier.text.toList <+: later.text.toList := by
  decide

/-- A mark that is read stands at the front. -/
theorem Mark.front_isPrefix {mark : Mark} {text : List Char}
    (found : Mark.front text = some mark) : mark.text.toList <+: text :=
  List.isPrefixOf_iff_prefix.mp
    (@List.find?_some _ (fun mark : Mark => mark.text.toList.isPrefixOf text) _ _ found)

/-- No mark at the front is longer than the one that is read. -/
theorem Mark.front_longest {mark other : Mark} {text extra : List Char}
    (found : Mark.front text = some mark) (longer : mark.text.toList ++ extra = other.text.toList)
    (inFront : other.text.toList <+: text) : extra = [] := by
  obtain ⟨_, earlier, later, listed, skipped⟩ := List.find?_eq_some_iff_append.mp found
  have member : other ∈ earlier ++ mark :: later := listed ▸ other.mem_all
  rcases List.mem_append.mp member with before | after
  · have passed := skipped other before
    rw [List.isPrefixOf_iff_prefix.mpr inFront] at passed
    nomatch passed
  · rcases List.mem_cons.mp after with rfl | after
    · simpa using longer
    -- A longer mark cannot be listed later.
    · have ordered := Mark.all_ordered
      rw [listed, List.pairwise_append] at ordered
      exact absurd ⟨extra, longer⟩ (List.rel_of_pairwise_cons ordered.2.1 after)

/-- A mark is the token at the front if no numeral begins there. -/
theorem atFront_mark {rest : List Char} {mark : Mark}
    (found : Mark.front (mark.text.toList ++ rest) = some mark)
    (noNumeral : Numeral.front (mark.text.toList ++ rest) = none) :
    AtFront mark.text.toList rest (.mark mark) := by
  have spells : Spells mark.text.toList (.mark mark) := .mark mark
  refine ⟨spells, ?_, fun mantissa => absurd rfl ((IsNumeral.plain mantissa).not_mark mark)⟩
  rintro extra after rfl token longer
  rcases longer.kinds with ⟨numeral, rfl⟩ | ⟨word, rfl⟩ | ⟨other, spelled, rfl⟩
  · obtain ⟨_, _, read, _⟩ := Numeral.front_longest numeral after
    rw [List.append_assoc, noNumeral] at read
    nomatch read
  · obtain ⟨c, others, text⟩ := List.exists_cons_of_ne_nil spells.nonempty
    rw [text] at word
    exact absurd ⟨c, others, text, word.1⟩ (StartsWord.not_mark mark)
  · exact Mark.front_longest found spelled ⟨after, by rw [← spelled, List.append_assoc]⟩

/-! ### Reading at a cursor -/

namespace Cursor

/-- What reading at a cursor gives: nothing at the end of the text, the token at
the front of it, a number with the word it runs into, or an error if there is no
token at the front. -/
inductive Reads (cursor : Cursor) : List Item × Cursor → Prop where
  | nothing (ended : cursor.rest = []) : Reads cursor ([], cursor)
  | token {token : Token} {text rest : List Char} (split : cursor.rest = text ++ rest)
      (front : AtFront text rest token) : Reads cursor (cursor.single token text rest)
  | numberAndWord {number word : Token} {digits text rest : List Char}
      (split : cursor.rest = digits ++ (text ++ rest)) (numeral : IsNumeral digits)
      (front : AtFront digits (text ++ rest) number) (isWord : IsWord text)
      (next : AtFront text rest word) :
      Reads cursor
        ([.ok (cursor.lexeme number digits),
            .ok ((cursor.after digits (text ++ rest)).lexeme word text)],
          (cursor.after digits (text ++ rest)).after text rest)
  | refused {e : LexicalError} {text rest : List Char} (split : cursor.rest = text ++ rest)
      (nonempty : text ≠ [])
      (none : ∀ text rest token, cursor.rest = text ++ rest → ¬ AtFront text rest token) :
      Reads cursor ([.error e], cursor.after text rest)

/-- An exponent without digits that does not run on into a word leaves no token
at the front: the mantissa would be the only one. -/
theorem cut_not_atFront {source mantissa sign rest : List Char} {letter : Char}
    (found : Numeral.front source = some (.cut mantissa letter sign rest))
    (stops : ¬ (sign = [] ∧ rest.takeWhile isWordCharacter ≠ [])) {text after : List Char}
    {token : Token} (same : source = text ++ after) : ¬ AtFront text after token := by
  intro front
  cases Numeral.front_leads found with
  | cut split leading introduced signed =>
    have numeral : IsNumeral mantissa := .plain leading
    rw [split] at found same
    have longest : Longest mantissa (letter :: (sign ++ rest)) := numeral.longest found rfl
    obtain ⟨rfl, rfl⟩ := longest.unique (.numeral numeral) front.longest front.spells same
    obtain ⟨c, others, more, continues⟩ := front.finished leading letter _ rfl introduced
    rcases signed with rfl | rfl | rfl
    · refine stops ⟨rfl, ?_⟩
      rw [List.nil_append] at more
      rw [more, List.takeWhile_cons_of_pos continues]
      exact List.cons_ne_nil _ _
    · obtain ⟨rfl, _⟩ := List.cons.inj more
      exact absurd continues (by decide)
    · obtain ⟨rfl, _⟩ := List.cons.inj more
      exact absurd continues (by decide)

/-- A character that begins no numeral, no word and no mark begins no token. -/
theorem not_spells {c : Char} {rest text after : List Char} {token : Token}
    (noNumeral : Numeral.front (c :: rest) = none) (noWord : ¬ c.isAlpha = true)
    (noMark : Mark.front (c :: rest) = none) (same : c :: rest = text ++ after) :
    ¬ Spells text token := by
  intro spells
  rcases spells.kinds with ⟨numeral, rfl⟩ | ⟨word, rfl⟩ | ⟨mark, rfl, rfl⟩
  · obtain ⟨_, _, read, _⟩ := Numeral.front_longest numeral after
    rw [← same, noNumeral] at read
    nomatch read
  · obtain ⟨first, others, rfl, alpha⟩ := word.starts
    obtain ⟨rfl, _⟩ := List.cons.inj same
    exact noWord alpha
  · have passed := List.find?_eq_none.mp noMark mark mark.mem_all
    exact passed (List.isPrefixOf_iff_prefix.mpr ⟨after, same.symm⟩)

/-- A numeral is read as what it amounts to: a token, a token and a word, or an error.
-/
theorem scanNumeral_reads (cursor : Cursor) {numeral : Numeral}
    (found : Numeral.front cursor.rest = some numeral) :
    cursor.Reads (cursor.scanNumeral numeral) := by
  cases Numeral.front_leads found with
  | complete split numeral finished =>
    rw [split] at found
    exact .token split (atFront_numeral found)
  | @cut mantissa sign rest letter split leading introduced signed =>
    simp only [scanNumeral]
    split_ifs with runs
    · obtain ⟨rfl, runs⟩ := runs
      have alpha : letter.isAlpha = true := by rcases introduced with rfl | rfl <;> rfl
      have whole : letter :: rest =
          letter :: rest.takeWhile isWordCharacter ++ rest.dropWhile isWordCharacter := by simp
      rw [List.nil_append] at split
      rw [split] at found
      have front := atFront_mantissa found runs
      rw [whole] at split front ⊢
      exact .numberAndWord split (.plain leading) front
        (isWord_takeWhile rest alpha) (atFront_word rest alpha)
    · refine .refused ?_ ?_ fun _ _ _ => cut_not_atFront found runs
      · rw [split, List.append_assoc, List.cons_append]
      · exact List.append_ne_nil_of_left_ne_nil leading.nonempty _

/-- A cursor reads what is at the front of its text. -/
theorem scanItem_reads (cursor : Cursor) : cursor.Reads cursor.scanItem := by
  unfold scanItem
  split
  case h_1 ended => exact .nothing ended
  case h_2 c rest split =>
    cases found : Numeral.front (c :: rest) with
    | some numeral =>
      rw [← split] at found
      exact scanNumeral_reads cursor found
    | none =>
      dsimp only
      split_ifs with alpha
      · refine .token ?_ (atFront_word rest alpha)
        rw [split, List.cons_append, List.takeWhile_append_dropWhile]
      · cases marked : Mark.front (c :: rest) with
        | some mark =>
          obtain ⟨after, whole⟩ := Mark.front_isPrefix marked
          rw [← whole] at split found marked ⊢
          simp only [List.drop_left]
          exact .token split (atFront_mark marked found)
        | none =>
          refine .refused split (List.cons_ne_nil c []) ?_
          intro text after token same front
          exact not_spells found alpha marked (split.symm.trans same) front.spells

end Cursor

end Timbre
