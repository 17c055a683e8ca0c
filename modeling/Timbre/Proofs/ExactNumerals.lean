import Mathlib.Data.List.Induction
import Mathlib.Data.Rat.Floor
import Mathlib.Tactic.FieldSimp
import Mathlib.Tactic.Ring
import Timbre.Proofs.NoteNames
import Timbre.Proofs.Reading

/-!
# What numerals are worth

A numeral stands for a rational number: the digits of its mantissa with their places, and
a power of ten. The reading of numerals takes the same steps in every arithmetic. In
exact arithmetic these steps give the number that the numeral stands for.

Three loops share the text. Each of them stops at the first character that is no digit,
so what follows a numeral is left alone if it could not belong to a longer one. This
does not depend on the arithmetic.
-/

namespace Timbre

/-! ### The number that is meant -/

/-- A mantissa and its value: a digit after the point counts for as many tenths as its
place says. -/
inductive MantissaOf : List Char → ℚ → Prop where
  | whole {digits : List Char} (nonempty : digits ≠ []) (all : AllDigits digits) :
      MantissaOf digits (decimalValue digits)
  | pointed {whole fraction : List Char} (before : AllDigits whole) (after : AllDigits fraction)
      (nonempty : whole ≠ [] ∨ fraction ≠ []) :
      MantissaOf (whole ++ '.' :: fraction)
        (decimalValue whole + decimalValue fraction / 10 ^ fraction.length)

/-- A numeral and its value: an exponent, which is a written integer, says by which power
of ten the mantissa is multiplied. -/
inductive NumeralOf : List Char → ℚ → Prop where
  | plain {text : List Char} {value : ℚ} (mantissa : MantissaOf text value) :
      NumeralOf text value
  | scaled {mantissa exponent : List Char} {letter : Char} {value : ℚ} {power : Int}
      (front : MantissaOf mantissa value) (introduced : IsExponentLetter letter)
      (written : Written exponent power) :
      NumeralOf (mantissa ++ letter :: exponent) (value * 10 ^ power)

/-- A text with the value of a mantissa is a mantissa. -/
theorem MantissaOf.isMantissa {text : List Char} {value : ℚ} (mantissa : MantissaOf text value) :
    IsMantissa text := by
  cases mantissa with
  | whole nonempty all => exact .whole nonempty all
  | pointed before after nonempty => exact .pointed before after nonempty

/-- Every mantissa has a value. -/
theorem IsMantissa.of_value {text : List Char} (mantissa : IsMantissa text) :
    ∃ value, MantissaOf text value := by
  cases mantissa with
  | whole nonempty all => exact ⟨_, .whole nonempty all⟩
  | pointed before after nonempty => exact ⟨_, .pointed before after nonempty⟩

/-- A text with the value of a numeral is a numeral. -/
theorem NumeralOf.isNumeral {text : List Char} {value : ℚ} (numeral : NumeralOf text value) :
    IsNumeral text := by
  cases numeral with
  | plain mantissa => exact .plain mantissa.isMantissa
  | @scaled mantissa exponent letter _ _ front introduced written =>
    cases written with
    | unsigned nonempty all =>
      exact .scaled front.isMantissa introduced (.inl rfl) nonempty all
    | positive nonempty all =>
      exact .scaled front.isMantissa introduced (.inr (.inl rfl)) nonempty all
    | negative nonempty all =>
      exact .scaled front.isMantissa introduced (.inr (.inr rfl)) nonempty all

/-- Every numeral has a value. -/
theorem IsNumeral.of_value {text : List Char} (numeral : IsNumeral text) :
    ∃ value, NumeralOf text value := by
  cases numeral with
  | plain mantissa =>
    obtain ⟨value, meant⟩ := mantissa.of_value
    exact ⟨value, .plain meant⟩
  | scaled front introduced signed nonempty all =>
    obtain ⟨value, meant⟩ := front.of_value
    rcases signed with rfl | rfl | rfl
    · exact ⟨_, .scaled meant introduced (.unsigned nonempty all)⟩
    · exact ⟨_, .scaled meant introduced (.positive nonempty all)⟩
    · exact ⟨_, .scaled meant introduced (.negative nonempty all)⟩

/-! ### Where the loops stop -/

/-- A text does not begin with a digit. -/
def NoDigitFirst (text : List Char) : Prop := ∀ c ∈ text.head?, ¬ c.isDigit = true

/-- The empty text does not begin with a digit. -/
theorem noDigitFirst_nil : NoDigitFirst [] := by
  rintro _ ⟨⟩

/-- One more digit leaves digits only. -/
theorem allDigits_concat {digits : List Char} (all : AllDigits digits) {digit : Char}
    (isDigit : digit.isDigit = true) : AllDigits (digits ++ [digit]) :=
  List.forall_mem_append.mpr ⟨all, List.forall_mem_singleton.mpr isDigit⟩

/-- The digits before something else are taken. -/
theorem takeWhile_digits {digits rest : List Char} (all : AllDigits digits)
    (stopped : NoDigitFirst rest) : (digits ++ rest).takeWhile Char.isDigit = digits := by
  rw [List.takeWhile_append_of_pos all]
  cases rest with
  | nil => simp
  | cons c more => simp [stopped c rfl]

/-- What comes after the digits is left. -/
theorem dropWhile_digits {digits rest : List Char} (all : AllDigits digits)
    (stopped : NoDigitFirst rest) : (digits ++ rest).dropWhile Char.isDigit = rest := by
  rw [List.dropWhile_append_of_pos all]
  cases rest with
  | nil => simp
  | cons c more => simp [stopped c rfl]

/-- The sign and the digits of a written integer, whatever comes after them. -/
theorem Written.splitSign {exponent : List Char} {power : Int} (written : Written exponent power) :
    ∃ (negative : Bool) (digits : List Char), AllDigits digits ∧
      power = (if negative then -(decimalValue digits : Int) else decimalValue digits) ∧
      ∀ rest, splitSign (exponent ++ rest) = (negative, digits ++ rest) := by
  cases written with
  | positive nonempty all => exact ⟨false, _, all, rfl, fun rest => rfl⟩
  | negative nonempty all => exact ⟨true, _, all, rfl, fun rest => rfl⟩
  | unsigned nonempty all =>
    refine ⟨false, exponent, all, rfl, fun rest => ?_⟩
    obtain ⟨digit, others, rfl⟩ := List.exists_cons_of_ne_nil nonempty
    have plus : digit ≠ '+' := by
      rintro rfl
      exact absurd (all '+' (.head _)) (by decide)
    have minus : digit ≠ '-' := by
      rintro rfl
      exact absurd (all '-' (.head _)) (by decide)
    simp [Timbre.splitSign, plus, minus]

namespace Literal

section AnyArithmetic

variable {α : Type} (arithmetic : Arithmetic α)

/-- Without an exponent letter the mantissa is not scaled. -/
theorem scaled_plain (mantissa : α) {rest : List Char}
    (other : ∀ c ∈ rest.head?, ¬ IsExponentLetter c) :
    scaled arithmetic mantissa rest = mantissa := by
  cases rest with
  | nil => rfl
  | cons c more => exact if_neg (other c rfl)

/-- Digits without a point are read as a whole number, which what follows may scale. -/
theorem value_whole {digits rest : List Char} (all : AllDigits digits)
    (stopped : NoDigitFirst rest) (unpointed : rest.head? ≠ some '.') :
    value arithmetic (digits ++ rest) = scaled arithmetic (whole arithmetic digits) rest := by
  simp only [value, takeWhile_digits all stopped, dropWhile_digits all stopped]
  split
  · exact absurd rfl unpointed
  · rfl

/-- Digits around a point are read as a whole number with a fraction, which what follows
may scale. -/
theorem value_pointed {before after rest : List Char} (allBefore : AllDigits before)
    (allAfter : AllDigits after) (stopped : NoDigitFirst rest) :
    value arithmetic (before ++ '.' :: (after ++ rest)) =
      scaled arithmetic (withFraction arithmetic (whole arithmetic before) after) rest := by
  have point : NoDigitFirst ('.' :: (after ++ rest)) := by
    rintro _ ⟨⟩
    decide
  simp only [value, takeWhile_digits allBefore point, dropWhile_digits allBefore point,
    takeWhile_digits allAfter stopped, dropWhile_digits allAfter stopped]

/-- A mantissa is read up to its end, and only the exponent is left to what follows. -/
theorem value_mantissa {text rest : List Char} (mantissa : IsMantissa text)
    (apart : ∀ c ∈ rest.head?, ¬ IsMantissa (text ++ [c])) :
    value arithmetic (text ++ rest) = scaled arithmetic (value arithmetic text) rest := by
  cases mantissa with
  | whole nonempty all =>
    have stopped : NoDigitFirst rest := by
      intro c first digit
      exact apart c first (.whole (by simp) (allDigits_concat all digit))
    have unpointed : rest.head? ≠ some '.' := by
      intro first
      exact apart '.' first (.pointed all (List.forall_mem_nil _) (.inl nonempty))
    have alone := value_whole arithmetic all noDigitFirst_nil (by simp)
    rw [List.append_nil] at alone
    rw [value_whole arithmetic all stopped unpointed, alone]
    rfl
  | @pointed before after allBefore allAfter nonempty =>
    have stopped : NoDigitFirst rest := by
      intro c first digit
      refine apart c first ?_
      rw [List.append_assoc, List.cons_append]
      exact .pointed allBefore (allDigits_concat allAfter digit) (.inr (by simp))
    have alone := value_pointed arithmetic allBefore allAfter noDigitFirst_nil
    rw [List.append_nil] at alone
    rw [List.append_assoc, List.cons_append,
      value_pointed arithmetic allBefore allAfter stopped, alone]
    rfl

/-- An exponent letter is not taken for a part of the mantissa. -/
theorem value_introduced {mantissa : List Char} {letter : Char} (front : IsMantissa mantissa)
    (introduced : IsExponentLetter letter) (exponent : List Char) :
    value arithmetic (mantissa ++ letter :: exponent) =
      scaled arithmetic (value arithmetic mantissa) (letter :: exponent) := by
  apply value_mantissa arithmetic front
  rintro _ ⟨⟩ longer
  exact introduced.not_mantissa (longer.character (by simp))

/-- An exponent is read up to its end. -/
theorem scaled_written (mantissa : α) {letter : Char} {exponent rest : List Char} {power : Int}
    (introduced : IsExponentLetter letter) (written : Written exponent power)
    (stopped : NoDigitFirst rest) :
    scaled arithmetic mantissa (letter :: (exponent ++ rest)) =
      scaled arithmetic mantissa (letter :: exponent) := by
  obtain ⟨negative, digits, all, -, split⟩ := written.splitSign
  have alone : splitSign exponent = (negative, digits) := by simpa using split []
  simp only [scaled, if_pos introduced, split, alone, takeWhile_digits all stopped,
    List.takeWhile_eq_self_iff.mpr all]

end AnyArithmetic

end Literal

/-! ### Exact arithmetic -/

/-- Arithmetic without rounding. Numerals have whole exponents only, so ten is never
raised to another power. -/
def Arithmetic.exact : Arithmetic ℚ where
  ofNat := (↑·)
  add := (· + ·)
  mul := (· * ·)
  div := (· / ·)
  neg := (-·)
  tenTo exponent := 10 ^ exponent.floor

/-- One more digit counts for one, and those before it for ten times as much. -/
theorem decimalValue_concat (digits : List Char) (digit : Char) :
    decimalValue (digits ++ [digit]) = decimalValue digits * 10 + digitValue digit := by
  simp only [decimalValue, List.map_append, List.map_cons, List.map_nil, List.reverse_append,
    List.reverse_cons, List.reverse_nil, List.nil_append, List.cons_append, Nat.ofDigits_cons]
  omega

namespace Literal

/-- The loop over the digits in front of the point: after each digit the number so far is
that of the digits so far. -/
theorem whole_exact (digits : List Char) : whole .exact digits = decimalValue digits := by
  induction digits using List.reverseRecOn with
  | nil => rfl
  | append_singleton digits digit inductionHypothesis =>
    have step : whole .exact (digits ++ [digit]) =
        whole .exact digits * 10 + digitValue digit := by
      simp [whole, Arithmetic.exact]
    rw [step, inductionHypothesis, decimalValue_concat]
    push_cast
    ring

/-- The loop over the digits behind the point. Besides the number so far it keeps the place
of the next digit, a power of ten. -/
theorem withFraction_exact (start : ℚ) (digits : List Char) :
    withFraction .exact start digits = start + decimalValue digits / 10 ^ digits.length := by
  have loop : digits.foldl
      (fun ((value, place) : ℚ × ℚ) digit =>
        (Arithmetic.exact.add value
          (Arithmetic.exact.div (Arithmetic.exact.ofNat (digitValue digit)) place),
          Arithmetic.exact.mul place (Arithmetic.exact.ofNat 10)))
      (start, Arithmetic.exact.ofNat 10) =
        (start + decimalValue digits / 10 ^ digits.length, 10 ^ (digits.length + 1)) := by
    induction digits using List.reverseRecOn with
    | nil => simp [Arithmetic.exact, decimalValue]
    | append_singleton digits digit inductionHypothesis =>
      rw [List.foldl_concat, inductionHypothesis, decimalValue_concat, List.length_append]
      simp only [Arithmetic.exact, List.length_singleton, Prod.mk.injEq]
      constructor
      · push_cast
        field_simp
        ring
      · push_cast
        ring
  exact congrArg Prod.fst loop

/-- A mantissa is read exactly, whether or not it has a point. -/
theorem value_exact_mantissa {text : List Char} {value : ℚ} (mantissa : MantissaOf text value) :
    Literal.value .exact text = value := by
  cases mantissa with
  | whole nonempty all =>
    have alone := value_whole .exact all noDigitFirst_nil (by simp)
    rw [List.append_nil] at alone
    rw [alone, scaled, whole_exact]
  | pointed before after nonempty =>
    have alone := value_pointed .exact before after noDigitFirst_nil
    rw [List.append_nil] at alone
    rw [alone, scaled, whole_exact, withFraction_exact]

/-- The loop over the digits of an exponent is that over the digits in front of the point. -/
theorem scaled_exact (mantissa : ℚ) {letter : Char} {exponent : List Char} {power : Int}
    (introduced : IsExponentLetter letter) (written : Written exponent power) :
    scaled .exact mantissa (letter :: exponent) = mantissa * 10 ^ power := by
  obtain ⟨negative, digits, all, same, split⟩ := written.splitSign
  have alone : splitSign exponent = (negative, digits) := by simpa using split []
  have signed : (if negative then Arithmetic.exact.neg (decimalValue digits)
      else (decimalValue digits : ℚ)) = power := by
    rw [same]
    cases negative <;> simp [Arithmetic.exact]
  simp only [scaled, if_pos introduced, alone, List.takeWhile_eq_self_iff.mpr all, whole_exact,
    signed]
  simp only [Arithmetic.exact, Rat.floor_intCast]

end Literal

/-! ### Numerals in front of other text -/

/-- No numeral begins with this text and the character that follows it. -/
def Unextended (text rest : List Char) : Prop :=
  ∀ c ∈ rest.head?, ∀ more, ¬ IsNumeral (text ++ c :: more)

/-- A written integer goes on with any digit. -/
theorem Written.concat {exponent : List Char} {power : Int} (written : Written exponent power)
    {digit : Char} (isDigit : digit.isDigit = true) :
    ∃ longer, Written (exponent ++ [digit]) longer := by
  cases written with
  | unsigned nonempty all => exact ⟨_, .unsigned (by simp) (allDigits_concat all isDigit)⟩
  | positive nonempty all => exact ⟨_, .positive (by simp) (allDigits_concat all isDigit)⟩
  | negative nonempty all => exact ⟨_, .negative (by simp) (allDigits_concat all isDigit)⟩

namespace Literal

variable {text rest : List Char} {meant : ℚ}

/-- The value of a numeral is read from its own characters, in every arithmetic. -/
theorem value_append (numeral : NumeralOf text meant) (unextended : Unextended text rest)
    {α : Type} (arithmetic : Arithmetic α) :
    value arithmetic (text ++ rest) = value arithmetic text := by
  cases numeral with
  | plain front =>
    have apart : ∀ c ∈ rest.head?, ¬ IsMantissa (text ++ [c]) :=
      fun c first longer => unextended c first [] (.plain longer)
    have other : ∀ c ∈ rest.head?, ¬ IsExponentLetter c := by
      intro c first introduced
      refine unextended c first ['0'] ?_
      exact .scaled front.isMantissa introduced (.inl rfl) (by simp)
        (List.forall_mem_singleton.mpr rfl)
    rw [value_mantissa arithmetic front.isMantissa apart, scaled_plain arithmetic _ other]
  | @scaled mantissa exponent letter _ _ front introduced written =>
    have stopped : NoDigitFirst rest := by
      intro c first digit
      obtain ⟨_, longer⟩ := written.concat digit
      have numeral := (NumeralOf.scaled front introduced longer).isNumeral
      exact unextended c first [] (by simpa using numeral)
    rw [List.append_assoc, List.cons_append,
      value_introduced arithmetic front.isMantissa introduced,
      value_introduced arithmetic front.isMantissa introduced,
      scaled_written arithmetic _ introduced written stopped]

/-- Exact arithmetic gives the number that is meant. -/
theorem value_exact (numeral : NumeralOf text meant) : value .exact text = meant := by
  cases numeral with
  | plain front => exact value_exact_mantissa front
  | scaled front introduced written =>
    rw [value_introduced .exact front.isMantissa introduced, value_exact_mantissa front,
      scaled_exact _ introduced written]

/-- Read in exact arithmetic, a numeral in front of a text that cannot extend it gives the
number that it stands for: the decimal value of its mantissa times the power of ten that
its exponent says. In no arithmetic do the characters behind it have an influence. -/
theorem exact_value_of_numeral (numeral : IsNumeral text) :
    ∃ meant, NumeralOf text meant ∧ ∀ rest, Unextended text rest →
      value .exact (text ++ rest) = meant ∧
        ∀ {α : Type} (arithmetic : Arithmetic α),
          value arithmetic (text ++ rest) = value arithmetic text := by
  obtain ⟨meant, stands⟩ := numeral.of_value
  refine ⟨meant, stands, fun rest unextended => ⟨?_, value_append stands unextended⟩⟩
  rw [value_append stands unextended, value_exact stands]

/-- No digit in front of the point, a zero at the end of the fraction, and an exponent with a
sign, in front of a second point. -/
theorem exact_value_of_numeral_point :
    let text := ['.', '2', '5', '0', 'E', '-', '0', '2']
    let rest := ['.', '5']
    IsNumeral text ∧ Unextended text rest ∧ NumeralOf text (1 / 400) ∧
      value .exact (text ++ rest) = 1 / 400 ∧ numeralValue (text ++ rest) = numeralValue text := by
  intro text rest
  have stands : NumeralOf text (1 / 400) := by
    have front : MantissaOf ['.', '2', '5', '0'] ((0 : Nat) + (250 : Nat) / 10 ^ 3) :=
      @MantissaOf.pointed [] ['2', '5', '0'] (List.forall_mem_nil _) (by simp [AllDigits])
        (by simp)
    have scaled : NumeralOf text (((0 : Nat) + (250 : Nat) / 10 ^ 3) * 10 ^ (-(2 : Nat) : Int)) :=
      .scaled front (.inr rfl) (@Written.negative ['0', '2'] (by simp) (by simp [AllDigits]))
    norm_num at scaled
    exact scaled
  have unextended : Unextended text rest := by
    rintro _ ⟨⟩ more longer
    obtain ⟨found, extra, front, read⟩ := Numeral.front_longest longer []
    have stopped : Numeral.front (text ++ '.' :: more ++ []) =
        some (.complete text ('.' :: (more ++ []))) := rfl
    rw [stopped] at front
    cases front
    simp [Numeral.read] at read
  obtain ⟨meant, standsToo, holds⟩ := exact_value_of_numeral stands.isNumeral
  obtain ⟨reads, untouched⟩ := holds _ unextended
  have same : meant = 1 / 400 := (value_exact standsToo).symm.trans (value_exact stands)
  exact ⟨stands.isNumeral, unextended, stands, reads.trans same, untouched .float⟩

end Literal

end Timbre
