import Mathlib.Data.Nat.Digits.Defs
import Timbre.Note
import Timbre.Proofs.Spelling

/-!
# Which texts are note names

A note name is a letter from A to G in either case, any sharps and flats, and an octave
that is written as an integer, with blanks around the whole. The letter may look like a
flat, and the octave has a sign of its own, but no name can be divided in two ways: the
letter comes first, and neither a sign nor a digit is an accidental.

The octave and the semitones from A must be in range, and so must the octave counted from
that of A4. Only these two numbers determine the frequency. In a text of fewer than
`2 ^ 31` characters the count of accidentals is in range by itself, at every moment.
-/

namespace Timbre

/-! ### Written integers -/

/-- The value of digits, the most significant one first. -/
def decimalValue (digits : List Char) : Nat := Nat.ofDigits 10 (digits.map digitValue).reverse

/-- An integer is written as one or more digits, perhaps with a sign in front. -/
inductive Written : List Char → Int → Prop where
  | unsigned {digits : List Char} (nonempty : digits ≠ []) (all : AllDigits digits) :
      Written digits (decimalValue digits)
  | positive {digits : List Char} (nonempty : digits ≠ []) (all : AllDigits digits) :
      Written ('+' :: digits) (decimalValue digits)
  | negative {digits : List Char} (nonempty : digits ≠ []) (all : AllDigits digits) :
      Written ('-' :: digits) (-decimalValue digits)

/-- The integers of 32 signed bits by their bounds. -/
theorem fits32_iff {value : Int} : fits32 value = true ↔ -2 ^ 31 ≤ value ∧ value < 2 ^ 31 := by
  have least : Int32.minValue.toInt = -2 ^ 31 := by decide
  have greatest : Int32.maxValue.toInt = 2 ^ 31 - 1 := by decide
  simp only [fits32, least, greatest, decide_eq_true_eq]
  omega

/-- Digits are read exactly from one or more digits, as their value. -/
theorem readDigits_eq_some {text : List Char} {value : Nat} :
    readDigits text = some value ↔ text ≠ [] ∧ AllDigits text ∧ decimalValue text = value := by
  have folded : text.foldl (fun value digit => value * 10 + digitValue digit) 0 =
      decimalValue text := by
    simp [decimalValue, Nat.ofDigits_eq_foldr, List.foldl_map, Nat.mul_comm, Nat.add_comm]
  have filled : text ≠ [] ∧ text.all Char.isDigit = true ↔ text ≠ [] ∧ AllDigits text := by
    rw [List.all_eq_true]
  simp only [readDigits, folded, filled, Option.ite_none_right_eq_some, Option.some.injEq,
    and_assoc]

/-- A sign is told apart from digits. -/
theorem splitSign_digits {digits : List Char} (all : AllDigits digits) :
    splitSign digits = (false, digits) := by
  unfold splitSign
  split
  · exact absurd (all '-' (.head _)) (by decide)
  · exact absurd (all '+' (.head _)) (by decide)
  · rfl

/-- A written integer is read if it is in range. -/
theorem Written.read {text : List Char} {value : Int} (written : Written text value) :
    readInteger32 text = if fits32 value then some value else none := by
  cases written with
  | unsigned nonempty all =>
    simp [readInteger32, splitSign_digits all, readDigits_eq_some.mpr ⟨nonempty, all, rfl⟩]
  | positive nonempty all =>
    simp [readInteger32, splitSign, readDigits_eq_some.mpr ⟨nonempty, all, rfl⟩]
  | negative nonempty all =>
    simp [readInteger32, splitSign, readDigits_eq_some.mpr ⟨nonempty, all, rfl⟩]

/-- A minus sign and a plus sign are split off; without one, nothing is. -/
theorem splitSign_cases (text : List Char) :
    (∃ digits, text = '-' :: digits ∧ splitSign text = (true, digits)) ∨
      (∃ digits, text = '+' :: digits ∧ splitSign text = (false, digits)) ∨
      splitSign text = (false, text) := by
  unfold splitSign
  split
  · exact .inl ⟨_, rfl, rfl⟩
  · exact .inr (.inl ⟨_, rfl, rfl⟩)
  · exact .inr (.inr rfl)

/-- Nothing but a written integer is read. -/
theorem written_of_read {text : List Char} {value : Int} (read : readInteger32 text = some value) :
    Written text value := by
  have digitsOf {negative : Bool} {digits : List Char}
      (divided : splitSign text = (negative, digits)) :
      digits ≠ [] ∧ AllDigits digits ∧
        value = if negative then -(decimalValue digits : Int) else decimalValue digits := by
    simp only [readInteger32, divided] at read
    obtain ⟨magnitude, spelled, ranged⟩ := Option.bind_eq_some_iff.mp read
    obtain ⟨nonempty, all, rfl⟩ := readDigits_eq_some.mp spelled
    obtain ⟨-, same⟩ := Option.ite_none_right_eq_some.mp ranged
    exact ⟨nonempty, all, (Option.some.inj same).symm⟩
  rcases splitSign_cases text with ⟨digits, rfl, divided⟩ | ⟨digits, rfl, divided⟩ | divided
  · obtain ⟨nonempty, all, rfl⟩ := digitsOf divided
    exact .negative nonempty all
  · obtain ⟨nonempty, all, rfl⟩ := digitsOf divided
    exact .positive nonempty all
  · obtain ⟨nonempty, all, rfl⟩ := digitsOf divided
    exact .unsigned nonempty all

/-- A written integer ends with a digit. -/
theorem Written.last {text : List Char} {value : Int} (written : Written text value) :
    ∃ c, text.getLast? = some c ∧ c.isDigit = true := by
  have digit {digits : List Char} (nonempty : digits ≠ []) (all : AllDigits digits) :
      ∃ c, digits.getLast? = some c ∧ c.isDigit = true :=
    ⟨_, List.getLast?_eq_some_getLast nonempty, all _ (List.getLast_mem nonempty)⟩
  cases written with
  | unsigned nonempty all => exact digit nonempty all
  | positive nonempty all =>
    rw [List.getLast?_cons_of_ne_nil nonempty]
    exact digit nonempty all
  | negative nonempty all =>
    rw [List.getLast?_cons_of_ne_nil nonempty]
    exact digit nonempty all

/-! ### Accidentals -/

/-- A sharp or a flat. -/
def IsAccidental (c : Char) : Prop := c = '#' ∨ c = 'b'

/-- An accidental is no digit. -/
theorem IsAccidental.not_digit {c : Char} (accidental : IsAccidental c) : c.isDigit = false := by
  rcases accidental with rfl | rfl <;> rfl

/-- A written integer does not begin with an accidental. -/
theorem Written.first {text : List Char} {value : Int} (written : Written text value) :
    ∀ c ∈ text.head?, ¬ IsAccidental c := by
  intro c front accidental
  cases written with
  | unsigned nonempty all =>
    have digit := all c (List.mem_of_mem_head? front)
    simp [accidental.not_digit] at digit
  | positive nonempty all =>
    cases front
    exact absurd accidental (by simp [IsAccidental])
  | negative nonempty all =>
    cases front
    exact absurd accidental (by simp [IsAccidental])

/-- Sharps less flats. -/
def netSharps (marks : List Char) : Int := (marks.count '#' : Int) - marks.count 'b'

/-- A sharp counts one up. -/
@[simp] theorem netSharps_sharp (marks : List Char) :
    netSharps ('#' :: marks) = netSharps marks + 1 := by
  simp [netSharps]
  omega

/-- A flat counts one down. -/
@[simp] theorem netSharps_flat (marks : List Char) :
    netSharps ('b' :: marks) = netSharps marks - 1 := by
  simp [netSharps]
  omega

namespace Note

/-- What does not begin with an accidental has none in front. -/
theorem accidentals_none {text : List Char} (other : ∀ c ∈ text.head?, ¬ IsAccidental c) :
    accidentals text = (0, text) := by
  unfold accidentals
  split
  · exact absurd (.inl rfl) (other '#' rfl)
  · exact absurd (.inr rfl) (other 'b' rfl)
  · rfl

/-- Accidentals are counted up to the first other character. -/
theorem accidentals_append {marks rest : List Char} (all : ∀ c ∈ marks, IsAccidental c)
    (other : ∀ c ∈ rest.head?, ¬ IsAccidental c) :
    accidentals (marks ++ rest) = (netSharps marks, rest) := by
  induction marks with
  | nil => exact accidentals_none other
  | cons mark marks inductionHypothesis =>
    have counted := inductionHypothesis fun c member => all c (.tail _ member)
    rcases all mark (.head _) with rfl | rfl
    · simp [accidentals, counted]
    · simp [accidentals, counted]

/-- A text is divided into the accidentals in front and the rest. -/
theorem accidentals_split (text : List Char) :
    ∃ marks, text = marks ++ (accidentals text).2 ∧ (∀ c ∈ marks, IsAccidental c) ∧
      (accidentals text).1 = netSharps marks := by
  fun_induction accidentals text with
  | case1 rest net tail counted inductionHypothesis =>
    obtain ⟨marks, split, all, sum⟩ := inductionHypothesis
    rw [counted] at split sum
    refine ⟨'#' :: marks, by simpa using split, ?_, by simpa using sum⟩
    exact List.forall_mem_cons.mpr ⟨.inl rfl, all⟩
  | case2 rest net tail counted inductionHypothesis =>
    obtain ⟨marks, split, all, sum⟩ := inductionHypothesis
    rw [counted] at split sum
    refine ⟨'b' :: marks, by simpa using split, ?_, by simpa using sum⟩
    exact List.forall_mem_cons.mpr ⟨.inr rfl, all⟩
  | case3 rest sharp flat => exact ⟨[], rfl, by simp, rfl⟩

/-! ### Letters -/

/-- The natural notes: the letter in both cases, and the semitones from A. -/
def naturals : List (Char × Char × Int) :=
  [('C', 'c', -9), ('D', 'd', -7), ('E', 'e', -5), ('F', 'f', -4), ('G', 'g', -2), ('A', 'a', 0),
    ('B', 'b', 2)]

/-- A letter stands for a natural note. -/
def IsNatural (letter : Char) (offset : Int) : Prop :=
  ∃ upper lower, (upper, lower, offset) ∈ naturals ∧ (letter = upper ∨ letter = lower)

/-- A letter whose capital is given is that capital or stands 32 places behind it. -/
theorem toUpper_eq {letter upper : Char} (same : letter.toUpper = upper) :
    letter = upper ∨ letter.val = upper.val + 32 := by
  unfold Char.toUpper at same
  split at same
  · right
    have moved := congrArg Char.val same
    dsimp only at moved
    -- The difference of the cases is taken modulo `2 ^ 32`.
    have back : ('A'.val - 'a'.val) + 32 = 0 := by decide
    rw [← moved, UInt32.add_assoc, back, UInt32.add_zero]
  · exact .inl same

/-- A letter has an offset exactly if it stands for a natural note. -/
theorem letterOffset_eq_some {letter : Char} {offset : Int} :
    letterOffset letter = some offset ↔ IsNatural letter offset := by
  constructor
  · intro known
    have capital : ∃ entry ∈ naturals, letter.toUpper = entry.1 ∧ entry.2.2 = offset := by
      unfold letterOffset at known
      split at known
      · exact ⟨('C', 'c', -9), by decide, ‹_›, Option.some.inj known⟩
      · exact ⟨('D', 'd', -7), by decide, ‹_›, Option.some.inj known⟩
      · exact ⟨('E', 'e', -5), by decide, ‹_›, Option.some.inj known⟩
      · exact ⟨('F', 'f', -4), by decide, ‹_›, Option.some.inj known⟩
      · exact ⟨('G', 'g', -2), by decide, ‹_›, Option.some.inj known⟩
      · exact ⟨('A', 'a', 0), by decide, ‹_›, Option.some.inj known⟩
      · exact ⟨('B', 'b', 2), by decide, ‹_›, Option.some.inj known⟩
      · nomatch known
    have apart : ∀ entry ∈ naturals, entry.2.1.val = entry.1.val + 32 := by decide
    obtain ⟨⟨upper, lower, _⟩, listed, same, rfl⟩ := capital
    exact ⟨upper, lower, listed,
      (toUpper_eq same).imp_right fun behind => Char.ext (behind.trans (apart _ listed).symm)⟩
  · rintro ⟨upper, lower, listed, either⟩
    have table : ∀ entry ∈ naturals, letterOffset entry.1 = some entry.2.2 ∧
        letterOffset entry.2.1 = some entry.2.2 := by decide
    rcases either with rfl | rfl
    · exact (table _ listed).1
    · exact (table _ listed).2

/-- The letter of a note is not blank. -/
theorem IsNatural.not_blank {letter : Char} {offset : Int} (natural : IsNatural letter offset) :
    isBlank letter = false := by
  obtain ⟨upper, lower, listed, either⟩ := natural
  have table : ∀ entry ∈ naturals, isBlank entry.1 = false ∧ isBlank entry.2.1 = false := by
    decide
  rcases either with rfl | rfl
  · exact (table _ listed).1
  · exact (table _ listed).2

end Note

/-! ### Blanks around a text -/

/-- A digit is not blank. -/
theorem not_blank_of_isDigit {c : Char} (digit : c.isDigit = true) : isBlank c = false := by
  have bounds : 48 ≤ c.toNat ∧ c.toNat ≤ 57 := by
    simpa [Char.isDigit, UInt32.le_iff_toNat_le] using digit
  simp only [isBlank, blankRanges, List.any_cons, List.any_nil, Bool.or_false, Bool.or_eq_false_iff,
    decide_eq_false_iff_not]
  omega

/-- Blanks are trimmed on both sides and nothing else is. -/
theorem trimBlanks_split (text : List Char) :
    ∃ before after, text = before ++ trimBlanks text ++ after ∧
      (∀ c ∈ before, isBlank c = true) ∧ ∀ c ∈ after, isBlank c = true := by
  let front := text.takeWhile isBlank
  let rest := text.dropWhile isBlank
  let back := (rest.reverse.takeWhile isBlank).reverse
  have joined : rest = trimBlanks text ++ back := by
    rw [trimBlanks, ← List.reverse_append, List.takeWhile_append_dropWhile, List.reverse_reverse]
  refine ⟨front, back, ?_, fun c member => List.mem_takeWhile_imp member, ?_⟩
  · rw [List.append_assoc, ← joined, List.takeWhile_append_dropWhile]
  · intro c member
    exact List.mem_takeWhile_imp (List.mem_reverse.mp member)

/-- What begins and ends with other characters is left when the blanks around it are
removed. -/
theorem trimBlanks_append {before core after : List Char} {first last : Char}
    (blankBefore : ∀ c ∈ before, isBlank c = true) (blankAfter : ∀ c ∈ after, isBlank c = true)
    (starts : core.head? = some first) (firstOther : isBlank first = false)
    (stops : core.getLast? = some last) (lastOther : isBlank last = false) :
    trimBlanks (before ++ core ++ after) = core := by
  obtain ⟨rest, rfl⟩ := List.head?_eq_some_iff.mp starts
  obtain ⟨initial, same⟩ := List.getLast?_eq_some_iff.mp stops
  have trimmed : ((first :: rest) ++ after).dropWhile isBlank = (first :: rest) ++ after := by
    simp [firstOther]
  rw [trimBlanks, List.append_assoc, List.dropWhile_append_of_pos blankBefore, trimmed,
    List.reverse_append, List.dropWhile_append_of_pos (by simpa using blankAfter), same]
  simp [lastOther]

namespace Note

/-- A text is a note name for an octave and a number of semitones from A, whether or not
they are in range. -/
def Names (text : List Char) (octave semitones : Int) : Prop :=
  ∃ before letter offset marks numeral after,
    text = before ++ (letter :: marks ++ numeral) ++ after ∧
    (∀ c ∈ before, isBlank c = true) ∧ (∀ c ∈ after, isBlank c = true) ∧
    IsNatural letter offset ∧ (∀ c ∈ marks, IsAccidental c) ∧ Written numeral octave ∧
    semitones = offset + netSharps marks

/-- The octave, as it is written and counted from A4, and the semitones are integers of 32
signed bits. -/
def InRange (octave semitones : Int) : Prop :=
  (-2 ^ 31 ≤ octave ∧ octave < 2 ^ 31) ∧ (-2 ^ 31 ≤ octave - 4 ∧ octave - 4 < 2 ^ 31) ∧
    (-2 ^ 31 ≤ semitones ∧ semitones < 2 ^ 31)

instance (octave semitones : Int) : Decidable (InRange octave semitones) :=
  inferInstanceAs (Decidable (_ ∧ _))

/-- A note name in range stands for its note, and one out of range for none. -/
theorem Names.ofText {text : String} {octave semitones : Int}
    (names : Names text.toList octave semitones) :
    ofText text = if InRange octave semitones then some ⟨octave - 4, semitones⟩ else none := by
  obtain ⟨before, letter, offset, marks, numeral, after, split, blankBefore, blankAfter, natural,
    accidental, written, rfl⟩ := names
  obtain ⟨last, stops, digit⟩ := written.last
  have trimmed : trimBlanks text.toList = letter :: (marks ++ numeral) := by
    rw [split]
    refine trimBlanks_append blankBefore blankAfter rfl natural.not_blank ?_
      (not_blank_of_isDigit digit)
    rw [List.getLast?_append, stops]
    rfl
  have counted := accidentals_append accidental written.first
  have known := letterOffset_eq_some.mpr natural
  simp only [Note.ofText, trimmed, counted, written.read, ofParts, known, InRange, ← fits32_iff,
    Option.bind_some]
  by_cases fits : fits32 octave = true
  · simp [fits, and_comm]
  · simp [fits]

/-- Nothing but a note name stands for a note. -/
theorem names_of_ofText {text : String} {note : Note} (found : ofText text = some note) :
    ∃ octave semitones, Names text.toList octave semitones := by
  obtain ⟨before, after, split, blankBefore, blankAfter⟩ := trimBlanks_split text.toList
  cases trimmed : trimBlanks text.toList with
  | nil => simp [Note.ofText, trimmed] at found
  | cons letter rest =>
    simp only [Note.ofText, trimmed] at found
    obtain ⟨octave, read, placed⟩ := Option.bind_eq_some_iff.mp found
    obtain ⟨offset, known, -⟩ := Option.bind_eq_some_iff.mp placed
    obtain ⟨marks, divided, accidental, sum⟩ := accidentals_split rest
    refine ⟨octave, _, before, letter, offset, marks, (accidentals rest).2, after, ?_, blankBefore,
      blankAfter, letterOffset_eq_some.mp known, accidental, written_of_read read, rfl⟩
    rw [List.cons_append, ← divided, ← trimmed]
    exact split

/-- Sharps and flats in a text are no more than its characters. -/
theorem netSharps_bounds {marks text : List Char} (inside : marks <:+: text) :
    -text.length ≤ netSharps marks ∧ netSharps marks ≤ text.length := by
  have shorter := inside.length_le
  have sharps := @List.count_le_length _ _ '#' marks
  have flats := @List.count_le_length _ _ 'b' marks
  unfold netSharps
  omega

/-- A text has a frequency exactly when it is a note name in range, and then that of the note.
While its accidentals are counted, the count fits 32 signed bits if the text is not longer
than such an integer can say. Texts that name the same octave and the same semitones have the
same frequency, or both have none. -/
theorem frequency_of_names (text : String) (short : text.length < 2 ^ 31) :
    (∀ found, (ofText text).map frequency = some found ↔
      ∃ octave semitones, Names text.toList octave semitones ∧ InRange octave semitones ∧
        found = frequency ⟨octave - 4, semitones⟩) ∧
    (∀ marks, marks <:+: text.toList → -2 ^ 31 ≤ netSharps marks ∧ netSharps marks < 2 ^ 31) ∧
    ∀ (other : String) (octave semitones : Int), Names text.toList octave semitones →
      Names other.toList octave semitones →
        (ofText text).map frequency = (ofText other).map frequency := by
  refine ⟨?_, ?_, ?_⟩
  · intro found
    constructor
    · intro accepted
      obtain ⟨note, read, rfl⟩ := Option.map_eq_some_iff.mp accepted
      obtain ⟨octave, semitones, names⟩ := names_of_ofText read
      rw [names.ofText] at read
      obtain ⟨inRange, same⟩ := Option.ite_none_right_eq_some.mp read
      exact ⟨octave, semitones, names, inRange, congrArg frequency (Option.some.inj same).symm⟩
    · rintro ⟨octave, semitones, names, inRange, rfl⟩
      rw [names.ofText, if_pos inRange]
      rfl
  · intro marks inside
    have bounds := netSharps_bounds inside
    rw [String.length_toList] at bounds
    omega
  · intro other octave semitones names namesToo
    rw [names.ofText, namesToo.ofText]

/-- A letter that looks like a flat, accidentals that cancel, and an octave with a sign, among
blanks: the note one semitone above A4. -/
theorem frequency_of_names_cancelling :
    let text := "\tbb#b+04 "
    text.length < 2 ^ 31 ∧ Names text.toList 4 1 ∧ Names "A#4".toList 4 1 ∧ InRange 4 1 ∧
      (ofText text).map frequency = some (frequency ⟨0, 1⟩) ∧
      (ofText text).map frequency = (ofText "A#4").map frequency := by
  intro text
  have short : text.length < 2 ^ 31 := by decide
  have names : Names text.toList 4 1 := by
    refine ⟨['\t'], 'b', 2, ['b', '#', 'b'], ['+', '0', '4'], [' '], by decide, ?_, ?_,
      ⟨'B', 'b', by decide, .inr rfl⟩, by simp [IsAccidental], ?_, rfl⟩
    · exact List.forall_mem_singleton.mpr rfl
    · exact List.forall_mem_singleton.mpr rfl
    · exact .positive (List.cons_ne_nil _ _)
        (List.forall_mem_cons.mpr ⟨rfl, List.forall_mem_singleton.mpr rfl⟩)
  have namesSharp : Names "A#4".toList 4 1 := by
    refine ⟨[], 'A', 0, ['#'], ['4'], [], rfl, List.forall_mem_nil _, List.forall_mem_nil _,
      ⟨'A', 'a', by decide, .inl rfl⟩, by simp [IsAccidental], ?_, rfl⟩
    exact .unsigned (List.cons_ne_nil _ _) (List.forall_mem_singleton.mpr rfl)
  have inRange : InRange 4 1 := by decide
  obtain ⟨accepted, -, same⟩ := frequency_of_names text short
  exact ⟨short, names, namesSharp, inRange, (accepted _).mpr ⟨4, 1, names, inRange, rfl⟩,
    same "A#4" 4 1 names namesSharp⟩

end Note

end Timbre
