import Mathlib.Data.List.TakeWhile
import Timbre.Token.Scan

/-!
# Spellings

A token is spelled by a numeral, by a word or by a mark; a word that is reserved
spells nothing else. The grammar here says nothing about how a text is read.

At the front of a text there is at most one longest spelling, so the grammar
alone determines which token stands there.
-/

namespace Timbre

/-! ### Numerals -/

/-- Digits only. -/
abbrev AllDigits (text : List Char) : Prop := ∀ c ∈ text, c.isDigit = true

/-- Digits with an optional point among them. -/
inductive IsMantissa : List Char → Prop where
  | whole {digits : List Char} (nonempty : digits ≠ [])
      (all : AllDigits digits) : IsMantissa digits
  | pointed {whole fraction : List Char} (before : AllDigits whole)
      (after : AllDigits fraction) (nonempty : whole ≠ [] ∨ fraction ≠ []) :
      IsMantissa (whole ++ '.' :: fraction)

/-- The letters that introduce an exponent. -/
abbrev IsExponentLetter (letter : Char) : Prop := letter = 'e' ∨ letter = 'E'

/-- The sign that an exponent may have. -/
abbrev IsExponentSign (sign : List Char) : Prop := sign = [] ∨ sign = ['+'] ∨ sign = ['-']

/-- A mantissa with an optional exponent, which has at least one digit. -/
inductive IsNumeral : List Char → Prop where
  | plain {text : List Char} (mantissa : IsMantissa text) : IsNumeral text
  | scaled {mantissa sign digits : List Char} {letter : Char} (front : IsMantissa mantissa)
      (introduced : IsExponentLetter letter) (signed : IsExponentSign sign)
      (nonempty : digits ≠ []) (all : AllDigits digits) :
      IsNumeral (mantissa ++ letter :: (sign ++ digits))

/-- A mantissa is made of digits and points. -/
theorem IsMantissa.character {text : List Char} (mantissa : IsMantissa text) {c : Char}
    (member : c ∈ text) : c.isDigit = true ∨ c = '.' := by
  cases mantissa with
  | whole nonempty all => exact .inl (all c member)
  | pointed before after nonempty =>
    rcases List.mem_append.mp member with inside | inside
    · exact .inl (before c inside)
    · rcases List.mem_cons.mp inside with rfl | inside
      · exact .inr rfl
      · exact .inl (after c inside)

/-- No mantissa is empty. -/
theorem IsMantissa.nonempty {text : List Char} (mantissa : IsMantissa text) : text ≠ [] := by
  cases mantissa with
  | whole nonempty all => exact nonempty
  | pointed before after nonempty => simp

/-- The letter of an exponent is in no mantissa. -/
theorem IsExponentLetter.not_mantissa {letter : Char} (introduced : IsExponentLetter letter) :
    ¬ (letter.isDigit = true ∨ letter = '.') := by
  rcases introduced with rfl | rfl <;> decide

/-- An exponent letter after a mantissa does not extend the mantissa. -/
theorem IsMantissa.extra_nil {text extra rest more : List Char} {letter : Char}
    (mantissa : IsMantissa (text ++ extra)) (introduced : IsExponentLetter letter)
    (split : letter :: more = extra ++ rest) : extra = [] := by
  cases extra with
  | nil => rfl
  | cons c others =>
    simp only [List.cons_append, List.cons.injEq] at split
    obtain ⟨rfl, _⟩ := split
    exact absurd (mantissa.character (by simp)) introduced.not_mantissa

/-- A mantissa has a digit. -/
theorem IsMantissa.digit {text : List Char} (mantissa : IsMantissa text) :
    ∃ c ∈ text, c.isDigit = true := by
  cases mantissa with
  | whole nonempty all =>
    obtain ⟨c, member⟩ := List.exists_mem_of_ne_nil _ nonempty
    exact ⟨c, member, all c member⟩
  | pointed before after nonempty =>
    rcases nonempty with nonempty | nonempty
    · obtain ⟨c, member⟩ := List.exists_mem_of_ne_nil _ nonempty
      exact ⟨c, by simp [member], before c member⟩
    · obtain ⟨c, member⟩ := List.exists_mem_of_ne_nil _ nonempty
      exact ⟨c, by simp [member], after c member⟩

/-- The mantissa of a numeral is at its front. -/
theorem IsNumeral.mantissa {text : List Char} (numeral : IsNumeral text) :
    ∃ mantissa exponent, text = mantissa ++ exponent ∧ IsMantissa mantissa := by
  cases numeral with
  | plain mantissa => exact ⟨text, [], (List.append_nil _).symm, mantissa⟩
  | scaled front _ _ _ _ => exact ⟨_, _, rfl, front⟩

/-- A numeral is made of digits, points, exponent letters and signs. -/
theorem IsNumeral.character {text : List Char} (numeral : IsNumeral text) {c : Char}
    (member : c ∈ text) :
    c.isDigit = true ∨ c = '.' ∨ c = 'e' ∨ c = 'E' ∨ c = '+' ∨ c = '-' := by
  cases numeral with
  | plain mantissa => exact (mantissa.character member).imp_right .inl
  | scaled front introduced signed _ all =>
    simp only [List.mem_append, List.mem_cons] at member
    rcases member with inside | rfl | inside | inside
    · exact (front.character inside).imp_right .inl
    · rcases introduced with rfl | rfl <;> simp
    · rcases signed with rfl | rfl | rfl <;> simp_all
    · exact .inl (all c inside)

/-- A numeral has a digit. -/
theorem IsNumeral.digit {text : List Char} (numeral : IsNumeral text) :
    ∃ c ∈ text, c.isDigit = true := by
  obtain ⟨mantissa, exponent, rfl, front⟩ := numeral.mantissa
  obtain ⟨c, member, digit⟩ := front.digit
  exact ⟨c, List.mem_append_left exponent member, digit⟩

/-- Without the point that it begins with, a mantissa is its fraction. -/
theorem IsMantissa.fraction {digits : List Char} (mantissa : IsMantissa ('.' :: digits)) :
    IsMantissa digits := by
  generalize same : '.' :: digits = text at mantissa
  cases mantissa with
  | whole nonempty all => exact absurd (all '.' (by simp [← same])) (by decide)
  | @pointed whole fraction before after nonempty =>
    cases whole with
    | nil =>
      obtain ⟨_, rfl⟩ := List.cons.inj same
      exact .whole (nonempty.resolve_left (· rfl)) after
    | cons c others =>
      obtain ⟨rfl, _⟩ := List.cons.inj same
      exact absurd (before '.' (by simp)) (by decide)

/-- A numeral that begins with a point is one without it as well. -/
theorem IsNumeral.fraction {digits : List Char} (numeral : IsNumeral ('.' :: digits)) :
    IsNumeral digits := by
  generalize same : '.' :: digits = text at numeral
  cases numeral with
  | plain mantissa =>
    subst same
    exact .plain mantissa.fraction
  | scaled front introduced signed nonempty all =>
    obtain ⟨c, others, rfl⟩ := List.exists_cons_of_ne_nil front.nonempty
    obtain ⟨rfl, rfl⟩ := List.cons.inj same
    exact .scaled front.fraction introduced signed nonempty all

/-! ### Words and marks -/

/-- A letter, and after it letters, digits and underscores. -/
def IsWord : List Char → Prop
  | [] => False
  | first :: others => first.isAlpha = true ∧ others.all isWordCharacter = true

instance : DecidablePred IsWord
  | [] => inferInstanceAs (Decidable False)
  | _ :: _ => inferInstanceAs (Decidable (_ ∧ _))

/-- A reserved word is read as its token. -/
theorem Token.ofWord_reservedWord {token : Token} {name : String}
    (reserved : token.reservedWord = some name) : Token.ofWord name = token := by
  cases token with
  | number value => nomatch reserved
  | identifier other => nomatch reserved
  | mark mark => nomatch reserved
  | keyword word =>
    obtain rfl : word.text = name := Option.some.inj reserved
    cases word <;> rfl
  | builtin operator =>
    obtain rfl : operator.name = name := Option.some.inj reserved
    cases operator with
    | unary operator => cases operator <;> rfl
    | binary operator => cases operator <;> rfl

/-- A reserved word is a word. -/
theorem Token.isWord_reservedWord {token : Token} {name : String}
    (reserved : token.reservedWord = some name) : IsWord name.toList := by
  cases token with
  | number value => nomatch reserved
  | identifier other => nomatch reserved
  | mark mark => nomatch reserved
  | keyword word =>
    obtain rfl : word.text = name := Option.some.inj reserved
    cases word <;> decide
  | builtin operator =>
    obtain rfl : operator.name = name := Option.some.inj reserved
    cases operator with
    | unary operator => cases operator <;> decide
    | binary operator => cases operator <;> decide

/-- A word is reserved, or it is an identifier and the word of no token. -/
theorem Token.ofWord_cases (name : String) :
    (Token.ofWord name).reservedWord = some name ∨
      Token.ofWord name = .identifier name ∧ ∀ token : Token, token.reservedWord ≠ some name := by
  by_cases reserved : ∃ token : Token, token.reservedWord = some name
  · obtain ⟨token, word⟩ := reserved
    rw [Token.ofWord_reservedWord word]
    exact .inl word
  · refine .inr ⟨?_, not_exists.mp reserved⟩
    unfold Token.ofWord
    cases keyword : Keyword.all.find? (·.text = name) with
    | some word =>
      exact absurd ⟨.keyword word, congrArg some (by simpa using List.find?_some keyword)⟩ reserved
    | none =>
      cases builtin : Builtin.all.find? (·.name = name) with
      | some operator =>
        exact absurd ⟨.builtin operator, congrArg some (by simpa using List.find?_some builtin)⟩
          reserved
      | none => rfl

/-- Marks have no letters, digits or layout in them. -/
theorem Mark.character (mark : Mark) :
    ∀ c ∈ mark.text.toList,
      c.isAlphanum = false ∧ c ≠ '\n' ∧ Cursor.isSpace c = false ∧ c ≠ '#' := by
  have checked : mark.text.toList.all
      (fun c => !c.isAlphanum && c ≠ '\n' && !Cursor.isSpace c && c ≠ '#') = true := by
    cases mark <;> rfl
  intro c member
  simpa [and_assoc] using List.all_eq_true.mp checked c member

/-- Marks have no digits in them. -/
theorem Mark.not_digit {mark : Mark} {c : Char} (member : c ∈ mark.text.toList) :
    ¬ c.isDigit = true := by
  have none := (mark.character c member).1
  simp only [Char.isAlphanum, Bool.or_eq_false_iff] at none
  simp [none.2]

/-- All marks are listed. -/
theorem Mark.mem_all (mark : Mark) : mark ∈ Mark.all := by
  cases mark <;> decide

/-- The text of a mark is read as that mark. -/
theorem Mark.front_text (mark : Mark) : Mark.front mark.text.toList = some mark := by
  cases mark <;> rfl

/-- A word is made of word characters. -/
theorem IsWord.character {text : List Char} (word : IsWord text) {c : Char} (member : c ∈ text) :
    isWordCharacter c = true := by
  cases text with
  | nil => exact word.elim
  | cons first others =>
    rcases List.mem_cons.mp member with rfl | inside
    · simp [isWordCharacter, Char.isAlphanum, word.1]
    · exact List.all_eq_true.mp word.2 c inside

/-! ### Spellings -/

/-- The texts of the tokens. A reserved word is not an identifier. -/
inductive Spells : List Char → Token → Prop where
  | numeral {text : List Char} (numeral : IsNumeral text) :
      Spells text (.number (numeralValue text))
  | reserved {token : Token} {name : String} (word : token.reservedWord = some name) :
      Spells name.toList token
  | identifier {name : String} (word : IsWord name.toList)
      (free : ∀ token : Token, token.reservedWord ≠ some name) :
      Spells name.toList (.identifier name)
  | mark (mark : Mark) : Spells mark.text.toList (.mark mark)

/-- A text that begins like a numeral. -/
def StartsNumeral (text : List Char) : Prop :=
  ∃ c rest, text = c :: rest ∧ (c.isDigit = true ∨ c = '.')

/-- A text that begins like a word. -/
def StartsWord (text : List Char) : Prop := ∃ c rest, text = c :: rest ∧ c.isAlpha = true

/-- A mantissa begins like a numeral. -/
theorem IsMantissa.starts {text : List Char} (mantissa : IsMantissa text) : StartsNumeral text := by
  obtain ⟨c, rest, rfl⟩ := List.exists_cons_of_ne_nil mantissa.nonempty
  exact ⟨c, rest, rfl, mantissa.character (by simp)⟩

/-- A numeral begins as numerals do. -/
theorem IsNumeral.starts {text : List Char} (numeral : IsNumeral text) : StartsNumeral text := by
  obtain ⟨mantissa, exponent, rfl, front⟩ := numeral.mantissa
  obtain ⟨c, rest, rfl, starts⟩ := front.starts
  exact ⟨c, rest ++ exponent, rfl, starts⟩

/-- A mark has no digit. -/
theorem IsNumeral.not_mark {text : List Char} (numeral : IsNumeral text) (mark : Mark) :
    mark.text.toList ≠ text := by
  rintro rfl
  obtain ⟨c, member, digit⟩ := numeral.digit
  exact Mark.not_digit member digit

/-- A word begins as words do. -/
theorem IsWord.starts {text : List Char} (word : IsWord text) : StartsWord text := by
  cases text with
  | nil => exact word.elim
  | cons c rest => exact ⟨c, rest, rfl, word.1⟩

/-- Nothing begins both like a numeral and like a word. -/
theorem StartsNumeral.not_word {text : List Char} (numeral : StartsNumeral text) :
    ¬ StartsWord text := by
  rintro ⟨c, rest, rfl, alpha⟩
  obtain ⟨_, _, same, digit⟩ := numeral
  obtain ⟨rfl, rfl⟩ := List.cons.inj same
  rcases digit with digit | rfl
  · have low : c.val ≤ '9'.val := of_decide_eq_true (Bool.and_eq_true_iff.mp digit).2
    have high : 'A'.val ≤ c.val := by
      rcases Bool.or_eq_true_iff.mp alpha with upper | lower
      · exact (of_decide_eq_true upper).1
      · have above : 'a'.val ≤ c.val := of_decide_eq_true (Bool.and_eq_true_iff.mp lower).1
        exact UInt32.le_trans (by decide) above
    exact absurd (UInt32.le_trans high low) (by decide)
  · exact absurd alpha (by decide)

/-- No mark begins like a word. -/
theorem StartsWord.not_mark (mark : Mark) : ¬ StartsWord mark.text.toList := by
  rintro ⟨c, rest, split, alpha⟩
  have none := (mark.character c (by simp [split])).1
  simp [Char.isAlphanum, alpha] at none

namespace Spells

/-- A word spells a reserved token or an identifier. -/
theorem word {text : List Char} (word : IsWord text) :
    Spells text (.ofWord (String.ofList text)) := by
  have same : (String.ofList text).toList = text := String.toList_ofList
  rcases Token.ofWord_cases (String.ofList text) with reserved | ⟨named, free⟩
  · have spells := Spells.reserved reserved
    rwa [same] at spells
  · have spells := Spells.identifier (by rwa [same]) free
    rwa [same, ← named] at spells

/-- What spells a token is a numeral, a word or a mark. -/
theorem kinds {text : List Char} {token : Token} (spells : Spells text token) :
    IsNumeral text ∧ token = .number (numeralValue text) ∨
      IsWord text ∧ token = .ofWord (String.ofList text) ∨
      ∃ mark : Mark, text = mark.text.toList ∧ token = .mark mark := by
  cases spells with
  | numeral numeral => exact .inl ⟨numeral, rfl⟩
  | reserved word =>
    refine .inr (.inl ⟨Token.isWord_reservedWord word, ?_⟩)
    rw [String.ofList_toList, Token.ofWord_reservedWord word]
  | @identifier name word free =>
    refine .inr (.inl ⟨word, ?_⟩)
    rw [String.ofList_toList]
    exact ((Token.ofWord_cases name).resolve_left (free _)).1.symm
  | mark mark => exact .inr (.inr ⟨mark, rfl, rfl⟩)

/-- The spelling of a number is a numeral, and the number is its value. -/
theorem of_number {text : List Char} {value : Float} (spells : Spells text (.number value)) :
    IsNumeral text ∧ value = numeralValue text := by
  cases spells with
  | numeral numeral => exact ⟨numeral, rfl⟩
  | reserved word => nomatch word

/-- The spelling of a mark is its text. -/
theorem of_mark {text : List Char} {mark : Mark} (spells : Spells text (.mark mark)) :
    text = mark.text.toList := by
  cases spells with
  | reserved word => nomatch word
  | mark mark => rfl

/-- The text of a token determines it. -/
theorem unique {text : List Char} {token other : Token} (spells : Spells text token)
    (again : Spells text other) : token = other := by
  rcases spells.kinds with ⟨numeral, rfl⟩ | ⟨word, rfl⟩ | ⟨mark, rfl, rfl⟩
  · rcases again.kinds with ⟨_, rfl⟩ | ⟨word, rfl⟩ | ⟨mark, same, rfl⟩
    · rfl
    · exact absurd word.starts numeral.starts.not_word
    · exact absurd same.symm (numeral.not_mark mark)
  · rcases again.kinds with ⟨numeral, rfl⟩ | ⟨_, rfl⟩ | ⟨mark, rfl, rfl⟩
    · exact absurd word.starts numeral.starts.not_word
    · rfl
    · exact absurd word.starts (StartsWord.not_mark mark)
  · rcases again.kinds with ⟨numeral, rfl⟩ | ⟨word, rfl⟩ | ⟨other, same, rfl⟩
    · exact absurd rfl (numeral.not_mark mark)
    · exact absurd word.starts (StartsWord.not_mark mark)
    · have found := mark.front_text
      rw [same, other.front_text] at found
      rw [Option.some.inj found]

/-- No token has an empty spelling. -/
theorem nonempty {text : List Char} {token : Token} (spells : Spells text token) : text ≠ [] := by
  rcases spells.kinds with ⟨numeral, rfl⟩ | ⟨word, rfl⟩ | ⟨mark, rfl, rfl⟩
  · obtain ⟨c, rest, rfl, _⟩ := numeral.starts
    exact List.cons_ne_nil c rest
  · rintro rfl
    exact word
  · cases mark <;> decide

end Spells

/-! ### The longest spelling at the front of a text -/

/-- Nothing longer than `text` is a spelling at the front of `text ++ rest`. -/
def Longest (text rest : List Char) : Prop :=
  ∀ extra after, rest = extra ++ after → ∀ token, Spells (text ++ extra) token → extra = []

/-- A token is spelled at the front of `text ++ rest` by `text`, and by nothing
longer. After a mantissa, the letter of an exponent without digits has to run on
into a word. -/
structure AtFront (text rest : List Char) (token : Token) : Prop where
  spells : Spells text token
  longest : Longest text rest
  finished : IsMantissa text → ∀ letter more, rest = letter :: more → IsExponentLetter letter →
    ∃ c others, more = c :: others ∧ isWordCharacter c = true

/-- The longest spelling at the front of a text is unique. -/
theorem Longest.unique {text rest text' rest' : List Char} {token token' : Token}
    (longest : Longest text rest) (spells : Spells text token) (longest' : Longest text' rest')
    (spells' : Spells text' token') (same : text ++ rest = text' ++ rest') :
    text = text' ∧ rest = rest' := by
  rcases List.append_eq_append_iff.mp same with ⟨extra, rfl, split⟩ | ⟨extra, rfl, split⟩
  · obtain rfl := longest extra rest' split token' spells'
    simpa using split
  · obtain rfl := longest' extra rest split token spells
    simpa using split.symm

/-- The token at the front of a text is unique, and so is its text. -/
theorem AtFront.unique {text rest text' rest' : List Char} {token token' : Token}
    (front : AtFront text rest token) (front' : AtFront text' rest' token')
    (same : text ++ rest = text' ++ rest') : text = text' ∧ rest = rest' ∧ token = token' := by
  obtain ⟨rfl, rfl⟩ := front.longest.unique front.spells front'.longest front'.spells same
  exact ⟨rfl, rfl, front.spells.unique front'.spells⟩

end Timbre
