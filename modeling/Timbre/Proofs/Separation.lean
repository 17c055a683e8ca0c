import Timbre.Proofs.Flaws

/-!
# Texts that are read apart

Two texts, one after the other, are read apart if no token reaches from the first
into the second and no exponent at the end of the first is decided by the second.
Tokens and flaws at the front of the first text are then the same whatever the
second text is.

A character that no token contains keeps the texts on its two sides apart. Blanks
and the beginning of a comment are such characters.
-/

namespace Timbre

/-! ### Separators -/

/-- No token contains the character. -/
def Separates (c : Char) : Prop := ∀ text token, Spells text token → c ∉ text

/-- Word characters are visible. -/
theorem isWordCharacter_visible {c : Char} (word : isWordCharacter c = true) :
    0x21 ≤ c.toNat ∧ c.toNat ≤ 0x7E := by
  have within : ∀ {low high : UInt32}, low ≤ c.val ∧ c.val ≤ high →
      0x21 ≤ low.toNat → high.toNat ≤ 0x7E → 0x21 ≤ c.toNat ∧ c.toNat ≤ 0x7E := by
    intro low high inside first last
    exact ⟨first.trans (UInt32.le_iff_toNat_le.mp inside.1),
      (UInt32.le_iff_toNat_le.mp inside.2).trans last⟩
  rcases Bool.or_eq_true_iff.mp word with alphanumeric | underscore
  · rcases Bool.or_eq_true_iff.mp alphanumeric with letter | digit
    · rcases Bool.or_eq_true_iff.mp letter with upper | lower
      · exact within (of_decide_eq_true upper) (by decide) (by decide)
      · obtain ⟨first, last⟩ := Bool.and_eq_true_iff.mp lower
        exact within ⟨of_decide_eq_true first, of_decide_eq_true last⟩ (by decide) (by decide)
    · obtain ⟨first, last⟩ := Bool.and_eq_true_iff.mp digit
      exact within ⟨of_decide_eq_true first, of_decide_eq_true last⟩ (by decide) (by decide)
  · obtain rfl := of_decide_eq_true underscore
    decide

/-- Tokens are written with visible ASCII characters other than the one that begins
a comment. -/
theorem Spells.visible {text : List Char} {token : Token} (spells : Spells text token) {c : Char}
    (member : c ∈ text) : (0x21 ≤ c.toNat ∧ c.toNat ≤ 0x7E) ∧ c ≠ '#' := by
  have ofWord : isWordCharacter c = true → (0x21 ≤ c.toNat ∧ c.toNat ≤ 0x7E) ∧ c ≠ '#' :=
    fun word => ⟨isWordCharacter_visible word, (isWordCharacter_not_layout word).2.2⟩
  rcases spells.kinds with ⟨numeral, rfl⟩ | ⟨word, rfl⟩ | ⟨mark, rfl, rfl⟩
  · rcases numeral.character member with digit | rfl | rfl | rfl | rfl | rfl
    · exact ofWord (isWordCharacter_of_isDigit digit)
    all_goals decide
  · exact ofWord (word.character member)
  · have checked : mark.text.toList.all
        (fun c => (0x21 ≤ c.toNat ∧ c.toNat ≤ 0x7E) ∧ c ≠ '#') = true := by
      cases mark <;> decide
    simpa using List.all_eq_true.mp checked c member

/-- No token contains a blank. -/
theorem separates_blank {c : Char} (blank : isBlank c = true) : Separates c := by
  intro text token spells member
  have visible := (spells.visible member).1
  simp [isBlank, blankRanges] at blank
  omega

/-- No token contains the beginning of a comment. -/
theorem separates_sharp : Separates '#' :=
  fun _ _ spells member => (spells.visible member).2 rfl

/-- No token contains a newline. -/
theorem separates_newline : Separates '\n' := separates_blank (by decide)

/-- No token contains a space between tokens. -/
theorem separates_space {c : Char} (space : Cursor.isSpace c = true) : Separates c := by
  apply separates_blank
  simp only [Cursor.isSpace, Bool.or_eq_true, decide_eq_true_eq] at space
  rcases space with ((rfl | rfl) | rfl) | rfl <;> decide

namespace Separates

variable {c : Char}

/-- A separator is no word character. -/
theorem not_wordCharacter (separates : Separates c) : isWordCharacter c = false := by
  rw [Bool.eq_false_iff]
  intro word
  exact separates ['a', c] _ (.word ⟨by decide, by simp [word]⟩) (by simp)

/-- A separator is in no mark. -/
theorem ne_mark (separates : Separates c) (mark : Mark) : c ∉ mark.text.toList :=
  separates _ _ (.mark mark)

/-- No numeral begins with a separator. -/
theorem not_startsNumeral (separates : Separates c) (rest : List Char) :
    ¬ StartsNumeral (c :: rest) := by
  rintro ⟨_, _, same, digit | rfl⟩
  · obtain ⟨rfl, _⟩ := List.cons.inj same
    exact separates [c] _ (.numeral (.of_digit digit)) (by simp)
  · obtain ⟨rfl, _⟩ := List.cons.inj same
    exact separates.ne_mark .dot (by decide)

end Separates

/-! ### Texts apart -/

/-- Nothing at the end of a text is read together with what begins the later one. -/
structure Apart (text later : List Char) : Prop where
  /-- No token reaches from one into the other. -/
  unspelled : ∀ {before last first after : List Char} {token : Token}, text = before ++ last →
    later = first ++ after → last ≠ [] → first ≠ [] → ¬ Spells (last ++ first) token
  /-- An exponent letter after a mantissa begins a word. -/
  continued : ∀ {before mantissa more : List Char} {letter : Char}, text = before ++ mantissa →
    IsMantissa mantissa → later = letter :: more → IsExponentLetter letter →
    ∃ c others, more = c :: others ∧ isWordCharacter c = true
  /-- An exponent without digits is not continued. -/
  stopped : ∀ {before mantissa sign more : List Char} {letter c : Char},
    text = before ++ (mantissa ++ letter :: sign) → IsMantissa mantissa →
    IsExponentLetter letter → IsExponentSign sign → later = c :: more →
    isWordCharacter c = false ∧ c ≠ '+' ∧ c ≠ '-'
  /-- A sign at the end has no number to join. -/
  unnumbered : ¬ StartsNumeral later

/-- A number begins right at the front of a text. -/
def NumberFirst (text : List Char) : Prop :=
  ∃ digits rest value, text = digits ++ rest ∧ AtFront digits rest (.number value)

/-- A number at the front begins like a numeral. -/
theorem NumberFirst.starts {text : List Char} (number : NumberFirst text) : StartsNumeral text := by
  obtain ⟨digits, rest, value, rfl, front⟩ := number
  obtain ⟨c, others, rfl, starts⟩ := front.spells.of_number.1.starts
  exact ⟨c, others ++ rest, rfl, starts⟩

namespace Apart

variable {text later : List Char}

/-- A later part of the first text is still apart from the second. -/
theorem suffix {before : List Char} (apart : Apart (before ++ text) later) :
    Apart text later where
  unspelled split := apart.unspelled (by rw [split, ← List.append_assoc])
  continued split := apart.continued (by rw [split, ← List.append_assoc])
  stopped split := apart.stopped (by rw [split, ← List.append_assoc])
  unnumbered := apart.unnumbered

/-- The token at the front of a text stays there. -/
theorem front {rest : List Char} {token : Token} (apart : Apart (text ++ rest) later)
    (front : AtFront text rest token) : AtFront text (rest ++ later) token := by
  refine ⟨front.spells, ?_, ?_⟩
  · intro extra after split other longer
    rcases List.append_eq_append_iff.mp split with ⟨beyond, rfl, left⟩ | ⟨inner, rfl, _⟩
    · cases beyond with
      | nil =>
        rw [List.append_nil] at longer ⊢
        exact front.longest rest [] (List.append_nil _).symm other longer
      | cons c others =>
        rw [← List.append_assoc] at longer
        have nonempty : text ++ rest ≠ [] :=
          List.append_ne_nil_of_left_ne_nil front.spells.nonempty rest
        exact absurd longer
          (@apart.unspelled [] _ _ _ _ rfl left nonempty (List.cons_ne_nil c others))
    · exact front.longest extra inner rfl other longer
  · intro mantissa letter more split introduced
    cases rest with
    | nil => exact @apart.continued [] _ _ _ (List.append_nil _) mantissa split introduced
    | cons first others =>
      obtain ⟨rfl, rfl⟩ := List.cons.inj split
      obtain ⟨c, inner, rfl, word⟩ := front.finished mantissa first others rfl introduced
      exact ⟨c, _, rfl, word⟩

/-- A token at the front of both texts together is at the front of the first one
alone. -/
theorem front_inside {word rest : List Char} {token : Token} (apart : Apart text later)
    (nonempty : text ≠ []) (split : text ++ later = word ++ rest)
    (front : AtFront word rest token) :
    ∃ left, text = word ++ left ∧ rest = left ++ later ∧ AtFront word left token := by
  obtain ⟨left, rfl, rfl⟩ : ∃ left, text = word ++ left ∧ rest = left ++ later := by
    rcases List.append_eq_append_iff.mp split with ⟨beyond, rfl, rfl⟩ | ⟨left, rfl, rfl⟩
    · cases beyond with
      | nil => exact ⟨[], by simp, rfl⟩
      | cons c others =>
        exact absurd front.spells
          (@apart.unspelled [] _ _ _ _ rfl rfl nonempty (List.cons_ne_nil c others))
    · exact ⟨left, rfl, rfl⟩
  refine ⟨left, rfl, rfl, front.spells, ?_, ?_⟩
  · rintro extra after rfl other longer
    exact front.longest extra (after ++ later) (List.append_assoc ..) other longer
  · rintro mantissa letter more rfl introduced
    obtain ⟨c, others, same, word⟩ := front.finished mantissa letter (more ++ later) rfl introduced
    cases more with
    | nil =>
      -- The word character after the letter would be the first one of the later text.
      have stopped := (@apart.stopped [] _ [] _ _ _ rfl mantissa introduced (.inl rfl) same).1
      rw [word] at stopped
      nomatch stopped
    | cons d inner =>
      obtain ⟨rfl, _⟩ := List.cons.inj same
      exact ⟨d, inner, rfl, word⟩

/-- A number at the front of texts that are apart is at the front of the first. -/
theorem numberFirst (apart : Apart text later) (number : NumberFirst (text ++ later)) :
    NumberFirst text := by
  cases text with
  | nil => exact absurd number.starts apart.unnumbered
  | cons c others =>
    obtain ⟨digits, rest, value, split, front⟩ := number
    obtain ⟨left, split, _, front⟩ := apart.front_inside (List.cons_ne_nil c others) split front
    exact ⟨digits, left, value, split, front⟩

/-- A flaw at the front of a text stays there. -/
theorem refuses {flaw : Flaw} (apart : Apart text later) (refuses : Refuses text flaw) :
    Refuses (text ++ later) flaw := by
  cases refuses with
  | character rest unspelled => exact .character (rest ++ later) unspelled
  | @exponent mantissa sign rest letter leading introduced signed bare =>
    have still : Bare sign (rest ++ later) := by
      intro c more split
      cases rest with
      | nil =>
        rw [List.append_nil] at apart
        obtain ⟨word, plus, minus⟩ :=
          @apart.stopped [] mantissa sign _ _ _ rfl leading introduced signed split
        refine ⟨?_, fun _ => ⟨word, plus, minus⟩⟩
        rw [Bool.eq_false_iff]
        intro digit
        rw [isWordCharacter_of_isDigit digit] at word
        nomatch word
      | cons d others =>
        obtain ⟨rfl, _⟩ := List.cons.inj split
        exact bare d others rfl
    simpa using Refuses.exponent leading introduced signed still

/-! ### What keeps texts apart -/

/-- Nothing follows. -/
theorem nil (text : List Char) : Apart text [] where
  unspelled _ split _ nonempty := absurd (List.append_eq_nil_iff.mp split.symm).1 nonempty
  continued _ _ impossible := nomatch impossible
  stopped _ _ _ _ impossible := nomatch impossible
  unnumbered := fun ⟨_, _, impossible, _⟩ => nomatch impossible

/-- A separator follows. -/
theorem of_head {c : Char} (first : later.head? = some c) (separates : Separates c) :
    Apart text later := by
  obtain ⟨rest, rfl⟩ := List.head?_eq_some_iff.mp first
  constructor
  · rintro before last inside after token - split - nonempty spells
    obtain ⟨d, others, rfl⟩ := List.exists_cons_of_ne_nil nonempty
    obtain ⟨rfl, _⟩ := List.cons.inj split
    exact separates _ _ spells (by simp)
  · rintro before mantissa more letter - - split introduced
    obtain ⟨rfl, _⟩ := List.cons.inj split
    have word : isWordCharacter c = true := by rcases introduced with rfl | rfl <;> decide
    rw [separates.not_wordCharacter] at word
    nomatch word
  · rintro before mantissa sign more letter d - - - - split
    obtain ⟨rfl, _⟩ := List.cons.inj split
    refine ⟨separates.not_wordCharacter, ?_, ?_⟩
    · rintro rfl
      exact separates.ne_mark .plus (by decide)
    · rintro rfl
      exact separates.ne_mark .minus (by decide)
  · exact separates.not_startsNumeral rest

/-- The first text is empty or ends in a separator, and the later one does not begin
like a numeral. -/
theorem of_getLast (last : ∀ c, text.getLast? = some c → Separates c)
    (unnumbered : ¬ StartsNumeral later) : Apart text later := by
  -- The separator is in everything that ends the text.
  have ends : ∀ {before inside : List Char}, text = before ++ inside → inside ≠ [] →
      ∃ c ∈ inside, Separates c := by
    rintro before inside rfl nonempty
    have same := List.getLast?_append_of_ne_nil before nonempty
    rw [List.getLast?_eq_some_getLast nonempty] at same
    exact ⟨_, List.getLast_mem nonempty, last _ same⟩
  constructor
  · rintro before inside first after token split - nonempty - spells
    obtain ⟨c, member, separates⟩ := ends split nonempty
    exact separates _ _ spells (List.mem_append_left first member)
  · rintro before mantissa more letter split leading - -
    obtain ⟨c, member, separates⟩ := ends split leading.nonempty
    exact absurd member (separates _ _ (.numeral (.plain leading)))
  · rintro before mantissa sign more letter d split leading introduced signed -
    obtain ⟨c, member, separates⟩ :=
      ends split (List.append_ne_nil_of_left_ne_nil leading.nonempty _)
    have scaled : IsNumeral (mantissa ++ letter :: (sign ++ ['0'])) :=
      .scaled leading introduced signed (List.cons_ne_nil _ _) (List.forall_mem_singleton.mpr rfl)
    refine absurd ?_ (separates _ _ (.numeral scaled))
    simpa [or_assoc] using Or.inl (List.mem_append.mp member)
  · exact unnumbered

end Apart

end Timbre
