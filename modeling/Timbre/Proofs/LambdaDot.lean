import Timbre.Proofs.Leading

/-!
# The dot of a lambda and a number after it

The scanner takes the dot of a lambda and the digits after it for one numeral, which
the lexer cuts in two behind the dot. If the digits are followed by no second dot,
the body of the lambda is read as if a blank stood in front of it. A second dot does
not belong to the numeral any more, so the body is read as if another blank stood in
front of that dot: `\x.5.5` is `\x. 5 .5` and not `\x. 5.5`.
-/

namespace Timbre

/-! ### Numerals behind a dot -/

/-- A mantissa with no dot after its first digits consists of digits. -/
theorem IsMantissa.allDigits {text rest : List Char} (mantissa : IsMantissa text)
    (undotted : ((text ++ rest).dropWhile Char.isDigit).head? ≠ some '.') : AllDigits text := by
  cases mantissa with
  | whole nonempty all => exact all
  | @pointed whole fraction before after nonempty =>
    rw [List.append_assoc, List.dropWhile_append_of_pos before] at undotted
    exact absurd rfl undotted

/-- A point and digits are a mantissa. -/
theorem IsMantissa.of_fraction {digits : List Char} (nonempty : digits ≠ [])
    (all : AllDigits digits) : IsMantissa ('.' :: digits) :=
  @IsMantissa.pointed [] digits (fun _ member => nomatch member) all (.inr nonempty)

/-- A mantissa that has no point of its own is still one behind a point. -/
theorem IsMantissa.behind_dot {text rest : List Char} (mantissa : IsMantissa text)
    (undotted : ((text ++ rest).dropWhile Char.isDigit).head? ≠ some '.') :
    IsMantissa ('.' :: text) :=
  .of_fraction mantissa.nonempty (mantissa.allDigits undotted)

/-- A numeral whose mantissa has no point is still one behind a point. -/
theorem IsNumeral.behind_dot {text rest : List Char} (numeral : IsNumeral text)
    (undotted : ((text ++ rest).dropWhile Char.isDigit).head? ≠ some '.') :
    IsNumeral ('.' :: text) := by
  cases numeral with
  | plain mantissa => exact .plain (mantissa.behind_dot undotted)
  | scaled leading introduced signed nonempty all =>
    rw [List.append_assoc] at undotted
    exact .scaled (leading.behind_dot undotted) introduced signed nonempty all

/-- A point is no digit. -/
theorem dot_notMem_digits {digits : List Char} (all : AllDigits digits) : '.' ∉ digits :=
  fun member => absurd (all '.' member) (by decide)

/-- A mantissa has one point at most. -/
theorem IsMantissa.dot_notMem {text : List Char} (mantissa : IsMantissa ('.' :: text)) :
    '.' ∉ text := by
  generalize split : '.' :: text = pointed at mantissa
  cases mantissa with
  | whole nonempty all => exact absurd (by simp [← split]) (dot_notMem_digits all)
  | @pointed whole fraction before after nonempty =>
    cases whole with
    | nil =>
      obtain ⟨_, rfl⟩ := List.cons.inj split
      exact dot_notMem_digits after
    | cons c others =>
      obtain ⟨rfl, _⟩ := List.cons.inj split
      exact absurd (by simp) (dot_notMem_digits before)

/-- A numeral that begins with a dot has no second one. -/
theorem IsNumeral.dot_notMem {text : List Char} (numeral : IsNumeral ('.' :: text)) :
    '.' ∉ text := by
  generalize split : '.' :: text = pointed at numeral
  cases numeral with
  | plain mantissa =>
    subst split
    exact mantissa.dot_notMem
  | @scaled mantissa sign digits letter leading introduced signed nonempty all =>
    obtain ⟨c, others, rfl⟩ := List.exists_cons_of_ne_nil leading.nonempty
    obtain ⟨rfl, rfl⟩ := List.cons.inj split
    intro member
    rcases List.mem_append.mp member with member | member
    · exact leading.dot_notMem member
    · rcases List.mem_cons.mp member with rfl | member
      · exact absurd introduced (by decide)
      · rcases List.mem_append.mp member with member | member
        · rcases signed with rfl | rfl | rfl <;> exact absurd member (by decide)
        · exact dot_notMem_digits all member

/-- A token that begins with a dot and has a digit is a number. -/
theorem Spells.numeral_of_dot {text : List Char} {token : Token}
    (spells : Spells ('.' :: text) token) {c : Char} (member : c ∈ text)
    (digit : c.isDigit = true) : IsNumeral ('.' :: text) := by
  rcases spells.kinds with ⟨numeral, rfl⟩ | ⟨word, rfl⟩ | ⟨mark, spelled, rfl⟩
  · exact numeral
  · exact absurd word.1 (by decide)
  · exact absurd digit (Mark.not_digit (spelled ▸ List.mem_cons_of_mem '.' member))

/-- The longest numeral stays the longest one behind a dot. -/
theorem AtFront.behind_dot {text rest : List Char} {value : Float}
    (front : AtFront text rest (.number value))
    (undotted : ((text ++ rest).dropWhile Char.isDigit).head? ≠ some '.') :
    AtFront ('.' :: text) rest (.number (numeralValue ('.' :: text))) := by
  have numeral := front.spells.of_number.1
  refine ⟨.numeral (numeral.behind_dot undotted), ?_, ?_⟩
  · intro extra after split token longer
    obtain ⟨c, member, digit⟩ := numeral.digit
    have pointed := longer.numeral_of_dot (List.mem_append_left extra member) digit
    exact front.longest extra after split _ (.numeral pointed.fraction)
  · intro mantissa
    exact front.finished mantissa.fraction

/-- A number without digits in its exponent is refused behind a dot too. -/
theorem Refuses.behind_dot {text : List Char} {flaw : Flaw} (refuses : Refuses text flaw)
    (numeric : StartsNumeral text)
    (undotted : (text.dropWhile Char.isDigit).head? ≠ some '.') :
    ∃ other, Refuses ('.' :: text) other := by
  cases refuses with
  | character rest unspelled =>
    obtain ⟨c, others, same, digit | rfl⟩ := numeric
    · obtain ⟨rfl, _⟩ := List.cons.inj same
      exact absurd (.numeral (.of_digit digit)) (unspelled [] _)
    · obtain ⟨rfl, _⟩ := List.cons.inj same
      exact absurd (.mark .dot) (unspelled [] _)
  | exponent leading introduced signed bare =>
    exact ⟨_, .exponent (leading.behind_dot undotted) introduced signed bare⟩

/-! ### Lambdas -/

namespace Reads

variable {context : Context} {found : Transcript}

/-- A lambda up to its dot. -/
theorem lambda {name : String} {rest : List Char} (word : IsWord name.toList)
    (free : Token.ofWord name = .identifier name)
    (others : Reads ((context.after (.mark .backslash)).after (.identifier name)) ('.' :: rest)
      found) :
    Reads context ('\\' :: (name.toList ++ '.' :: rest))
      (found.after [.mark .backslash, .identifier name]) := by
  have mark : AtFront ['\\'] (name.toList ++ '.' :: rest) (.mark .backslash) :=
    @atFront_mark _ .backslash rfl rfl
  have parameter : AtFront name.toList ('.' :: rest) (.identifier name) := by
    obtain ⟨first, others, same, alpha⟩ := word.starts
    have letters : ∀ c ∈ others, isWordCharacter c = true :=
      fun c member => word.character (by simp [same, member])
    have front := atFront_word (others ++ '.' :: rest) alpha
    rw [List.takeWhile_append_of_pos letters, List.takeWhile_cons_of_neg (by decide),
      List.dropWhile_append_of_pos letters, List.dropWhile_cons_of_neg (by decide),
      List.append_nil, ← same, String.ofList_toList, free] at front
    exact front
  have reads := Reads.whole mark (fun _ _ signs => nomatch signs) (fun _ _ number => nomatch number)
    (.whole parameter (fun _ _ signs => nomatch signs) (fun _ _ number => nomatch number) others)
  rw [Transcript.after_after] at reads
  exact reads

/-- A dot in front of a blank. -/
theorem dot {rest : List Char} (others : Reads (context.after (.mark .dot)) rest found) :
    Reads context ('.' :: ' ' :: rest) (found.after [.mark .dot]) := by
  have mark : AtFront ['.'] (' ' :: rest) (.mark .dot) := @atFront_mark _ .dot rfl rfl
  refine .whole mark (fun _ _ signs => nomatch signs) (fun _ _ number => nomatch number) ?_
  exact .layout (.blank rfl .none) others

/-- A number that does not come after a parameter. -/
theorem number {text rest : List Char} {value : Float} (front : AtFront text rest (.number value))
    (outside : ¬ context.afterParameter = true)
    (others : Reads (context.after (.number value)) rest found) :
    Reads context (text ++ rest) (found.after [.number value]) :=
  .whole front (fun _ _ signs => nomatch signs) (fun parameter => absurd parameter outside) others

/-- With no second dot, a body behind a dot is read as it is after a blank. -/
theorem behind_dot (parameter : context.afterParameter = true) {body : List Char}
    (digit : ∃ c rest, body = c :: rest ∧ c.isDigit = true)
    (undotted : (body.dropWhile Char.isDigit).head? ≠ some '.') :
    ∃ found other, Reads context ('.' :: body) found ∧ Reads context ('.' :: ' ' :: body) other ∧
      found.toOption = other.toOption := by
  obtain ⟨c, more, rfl, digit⟩ := digit
  have numeric : StartsNumeral (c :: more) := ⟨c, more, rfl, .inl digit⟩
  rcases Refuses.of_nonempty (List.cons_ne_nil c more) with
    ⟨text, rest, token, split, front⟩ | ⟨flaw, refuses⟩
  · obtain ⟨d, others, rfl⟩ := List.exists_cons_of_ne_nil front.spells.nonempty
    obtain ⟨rfl, _⟩ := List.cons.inj split
    rcases front.spells.kinds with ⟨_, rfl⟩ | ⟨word, rfl⟩ | ⟨mark, spelled, rfl⟩
    · rw [split] at undotted ⊢
      obtain ⟨found, following⟩ := exists_reads
        ((context.after (.mark .dot)).after (.number (numeralValue (c :: others)))) rest
      have spaced := dot (number front not_afterParameter_dot following)
      rw [Transcript.after_after] at spaced
      exact ⟨_, _, .split parameter (front.behind_dot undotted) following, spaced, rfl⟩
    · exact absurd ⟨c, more, rfl, word.1⟩ numeric.not_word
    · exact absurd digit (Mark.not_digit (spelled ▸ List.mem_cons_self))
  · obtain ⟨other, pointed⟩ := refuses.behind_dot numeric undotted
    have stops : StartsNoLayout ('.' :: c :: more) :=
      StartsNumeral.startsNoLayout ⟨'.', c :: more, rfl, .inr rfl⟩
    exact ⟨.error other, .error flaw, .refused stops pointed,
      dot (.refused numeric.startsNoLayout refuses), rfl⟩

/-- A second dot ends the number behind the dot of a lambda. -/
theorem between_dots (parameter : context.afterParameter = true) {digits rest : List Char}
    (nonempty : digits ≠ []) (all : AllDigits digits) :
    ∃ found, Reads context ('.' :: (digits ++ '.' :: rest)) found ∧
      Reads context ('.' :: ' ' :: (digits ++ ' ' :: '.' :: rest)) found := by
  have front : AtFront ('.' :: digits) ('.' :: rest)
      (.number (numeralValue ('.' :: digits))) := by
    refine ⟨.numeral (.plain (.of_fraction nonempty all)), ?_, ?_⟩
    · intro extra after split token longer
      cases extra with
      | nil => rfl
      | cons c others =>
        obtain ⟨rfl, _⟩ := List.cons.inj split
        obtain ⟨d, member⟩ := List.exists_mem_of_ne_nil digits nonempty
        have numeral := longer.numeral_of_dot (List.mem_append_left _ member) (all d member)
        exact absurd (by simp) numeral.dot_notMem
    · rintro _ letter more ⟨⟩ introduced
      exact absurd introduced (by decide)
  have alone : AtFront digits [] (.number (numeralValue digits)) := by
    refine ⟨.numeral (.plain (.whole nonempty all)), ?_, fun _ _ _ impossible => nomatch impossible⟩
    intro extra after split _ _
    exact (List.append_eq_nil_iff.mp split.symm).1
  have blank : Apart (digits ++ []) (' ' :: '.' :: rest) := .of_head rfl (separates_space rfl)
  obtain ⟨found, following⟩ := exists_reads
    ((context.after (.mark .dot)).after (.number (numeralValue digits))) ('.' :: rest)
  have afterBlank : Reads ((context.after (.mark .dot)).after (.number (numeralValue digits)))
      ([' '] ++ '.' :: rest) found := .layout (.blank rfl .none) following
  have spaced := dot (number (blank.front alone) not_afterParameter_dot afterBlank)
  rw [Transcript.after_after] at spaced
  exact ⟨_, .split parameter front following, spaced⟩

end Reads

/-- Transcripts look alike if they have the same tokens or both have a flaw. -/
theorem Transcript.steady_toOption : Steady Except.toOption := by
  have after : ∀ (tokens : List Token) (transcript : Transcript),
      (transcript.after tokens).toOption = transcript.toOption.map (tokens ++ ·) := by
    intro tokens transcript
    cases transcript <;> rfl
  intro tokens first second same
  rw [after, after, same]

/-- Two sources that differ behind the dot of a lambda only have transcripts that
look alike if what is behind the dot looks alike. -/
theorem transcript_alike_lambda {α : Type} {view : Transcript → α}
    (steady : Transcript.Steady view) {before name source changed : String} {body other : List Char}
    (start : ∀ c, before.toList.getLast? = some c → isBlank c = true)
    (word : IsWord name.toList) (free : Token.ofWord name = .identifier name)
    (line : nextLine body = nextLine other)
    (alike : ∀ {context : Context}, context.afterParameter = true →
      ∃ found foundOther, Reads context ('.' :: body) found ∧
        Reads context ('.' :: other) foundOther ∧ view found = view foundOther)
    (split : source.toList = (before ++ "\\" ++ name ++ ".").toList ++ body)
    (splitChanged : changed.toList = (before ++ "\\" ++ name ++ ".").toList ++ other) :
    view (transcript source) = view (transcript changed) := by
  have apart : ∀ rest : List Char, Apart before.toList ('\\' :: (name.toList ++ '.' :: rest)) := by
    intro rest
    refine .of_getLast (fun c last => separates_blank (start c last)) ?_
    rintro ⟨_, _, same, starts⟩
    obtain ⟨rfl, _⟩ := List.cons.inj same
    exact absurd starts (by decide)
  have inLine : '\n' ∉ '\\' :: (name.toList ++ ['.']) := by
    intro member
    have inName : '\n' ∈ name.toList := by simpa using member
    exact absurd (word.character inName) (by decide)
  have next : ∀ rest, nextLine ('\\' :: (name.toList ++ '.' :: rest)) = nextLine rest := by
    intro rest
    simpa using nextLine_append inLine rest
  refine transcript_alike steady (apart body) (apart other) ?_ ?_
    (by simp [split]) (by simp [splitChanged])
  · intro _
    rw [next, next, line]
  · intro context
    have parameter : ((context.after (.mark .backslash)).after (.identifier name)).afterParameter =
        true := rfl
    obtain ⟨found, foundOther, first, second, same⟩ := alike parameter
    exact ⟨_, _, .lambda word free first, .lambda word free second, steady _ _ _ same⟩

/-- The body of a lambda that begins with a digit right behind the dot is read as it
is after a blank, unless a dot follows its first digits. Then it is read as if these
digits had blanks on both sides. -/
theorem transcript_lambda_dot (before name body : String)
    (start : ∀ c, before.toList.getLast? = some c → isBlank c = true)
    (word : IsWord name.toList) (free : Token.ofWord name = .identifier name)
    (digit : ∃ c rest, body.toList = c :: rest ∧ c.isDigit = true) :
    let lambda := before ++ "\\" ++ name ++ "."
    let digits := body.toList.takeWhile Char.isDigit
    let after := body.toList.dropWhile Char.isDigit
    (after.head? ≠ some '.' →
      (transcript (lambda ++ body)).toOption = (transcript (lambda ++ " " ++ body)).toOption) ∧
    (after.head? = some '.' →
      transcript (lambda ++ body) =
        transcript (lambda ++ " " ++ String.ofList digits ++ " " ++ String.ofList after)) := by
  intro lambda digits after
  constructor
  · intro undotted
    have line : nextLine body.toList = nextLine (' ' :: body.toList) :=
      (@nextLine_append [' '] (by decide) body.toList).symm
    exact transcript_alike_lambda Transcript.steady_toOption start word free line
      (fun parameter => Reads.behind_dot parameter digit undotted) (by simp [lambda])
      (by simp [lambda])
  · intro dotted
    obtain ⟨rest, pointed⟩ := List.head?_eq_some_iff.mp dotted
    have whole : body.toList = digits ++ '.' :: rest := by
      rw [← pointed]
      exact List.takeWhile_append_dropWhile.symm
    have all : AllDigits digits := fun c member => List.mem_takeWhile_imp member
    have nonempty : digits ≠ [] := by
      obtain ⟨c, others, same, found⟩ := digit
      simp [digits, same, found]
    have inLine : '\n' ∉ digits := fun member => absurd (all '\n' member) (by decide)
    have line : nextLine (digits ++ '.' :: rest) =
        nextLine (' ' :: (digits ++ ' ' :: '.' :: rest)) := by
      have spaced := @nextLine_append (' ' :: (digits ++ [' '])) (by simp [inLine]) ('.' :: rest)
      rw [List.cons_append, List.append_assoc, List.singleton_append] at spaced
      rw [nextLine_append inLine, spaced]
    refine transcript_alike_lambda Transcript.steady_id start word free line ?_
      (by simp [lambda, whole]) (by simp [lambda, pointed])
    intro context parameter
    obtain ⟨found, first, second⟩ := Reads.between_dots parameter nonempty all
    exact ⟨found, found, first, second, rfl⟩

/-- An exponent behind the dot, and a fraction behind it. -/
theorem transcript_lambda_dot_exponent :
    let tokens : List Token := [.mark .backslash, .identifier "x", .mark .dot,
      .number (numeralValue ['5', 'e', '3'])]
    let parts : List Token := [.mark .backslash, .identifier "x", .mark .dot,
      .number (numeralValue ['5']), .number (numeralValue ['.', '5'])]
    ("5e3".toList.dropWhile Char.isDigit).head? ≠ some '.' ∧
      transcript "\\x.5e3" = .ok tokens ∧ (transcript "\\x. 5e3").toOption = some tokens ∧
      ("5.5".toList.dropWhile Char.isDigit).head? = some '.' ∧
      transcript "\\x.5.5" = .ok parts ∧ transcript "\\x. 5 .5" = .ok parts := by
  intro tokens parts
  have undotted : ("5e3".toList.dropWhile Char.isDigit).head? ≠ some '.' := by decide
  have dotted : ("5.5".toList.dropWhile Char.isDigit).head? = some '.' := by decide
  have word : IsWord "x".toList := by decide
  have exponent : transcript "\\x.5e3" = .ok tokens := by
    unfold tokens
    rfl
  have fraction : transcript "\\x.5.5" = .ok parts := by
    unfold parts
    rfl
  have first := (transcript_lambda_dot "" "x" "5e3" (fun _ none => nomatch none) word rfl
    ⟨'5', ['e', '3'], rfl, rfl⟩).1 undotted
  have second := (transcript_lambda_dot "" "x" "5.5" (fun _ none => nomatch none) word rfl
    ⟨'5', ['.', '5'], rfl, rfl⟩).2 dotted
  exact ⟨undotted, exponent, first.symm.trans (congrArg Except.toOption exponent), dotted,
    fraction, second.symm.trans fraction⟩

/-- A fraction behind the dot of a lambda is not read as it is after a blank. -/
theorem transcript_lambda_dot_fraction :
    (transcript "\\x.5.5").toOption ≠ (transcript "\\x. 5.5").toOption := by
  have together : transcript "\\x.5.5" = .ok [.mark .backslash, .identifier "x", .mark .dot,
      .number (numeralValue ['5']), .number (numeralValue ['.', '5'])] := rfl
  have apart : transcript "\\x. 5.5" = .ok [.mark .backslash, .identifier "x", .mark .dot,
      .number (numeralValue ['5', '.', '5'])] := rfl
  rw [together, apart]
  intro same
  nomatch congrArg List.length (Option.some.inj same)

end Timbre
