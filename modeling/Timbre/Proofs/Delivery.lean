import Timbre.Token.Lexer
import Timbre.Proofs.Collecting
import Timbre.Proofs.Tiling

/-!
# The rules that look beyond one lexeme

What has been scanned is delivered by four rules: an error passes, a sign joins
the number right after it, a numeral that begins with the dot of a lambda is cut
in two, and every other lexeme is delivered as it is. The lexer, which scans no
further ahead than it has to, delivers what these rules give for the whole text
scanned at once.
-/

namespace Timbre

/-! ### The rules -/

/-- The marks that are signs of numbers, and whether they negate. -/
inductive Signs : Token → Bool → Prop where
  | plus : Signs (.mark .plus) false
  | minus : Signs (.mark .minus) true

/-- A sign and the numeral after it as one number. -/
def Lexeme.join (sign : Lexeme) (negative : Bool) (value : Float) (text : List Char) : Lexeme :=
  { sign with
    token := .number (if negative then -value else value)
    text := sign.text ++ text }

/-- A sign that is not an operator is followed directly by a number. -/
def Joins (context : Context) (sign : Lexeme) (items : List Item) : Prop :=
  context.afterOperand = false ∧ (∃ negative, Signs sign.token negative) ∧
    ∃ value text position others,
      items = .ok ⟨.number value, text, sign.stop, position⟩ :: others

/-- A numeral after a parameter begins with the dot of the lambda. -/
def Splits (context : Context) (numeral : Lexeme) : Prop :=
  context.afterParameter = true ∧ (∃ value, numeral.token = .number value) ∧
    ∃ digits, numeral.text = '.' :: digits

/-- What is delivered for scanned items. -/
inductive Delivers : Context → List Item → List Item → Prop where
  | nothing {context : Context} : Delivers context [] []
  | error {context : Context} {e : LexicalError} {items delivered : List Item}
      (others : Delivers context items delivered) :
      Delivers context (.error e :: items) (.error e :: delivered)
  | joined {context : Context} {sign : Lexeme} {negative : Bool} {value : Float}
      {text : List Char} {position : Position} {items delivered : List Item}
      (outside : context.afterOperand = false) (signs : Signs sign.token negative)
      (others : Delivers (context.after (sign.join negative value text).token) items delivered) :
      Delivers context (.ok sign :: .ok ⟨.number value, text, sign.stop, position⟩ :: items)
        (.ok (sign.join negative value text) :: delivered)
  | split {context : Context} {value : Float} {digits : List Char} {start : Nat}
      {position : Position} {items delivered : List Item}
      (parameter : context.afterParameter = true)
      (others : Delivers
        ((context.after (.mark .dot)).after (.number (numeralValue digits))) items delivered) :
      Delivers context (.ok ⟨.number value, '.' :: digits, start, position⟩ :: items)
        (.ok ⟨.mark .dot, ['.'], start, position⟩ ::
          .ok ⟨.number (numeralValue digits), digits, start + byteLength ['.'],
            position.step '.'⟩ :: delivered)
  | whole {context : Context} {lexeme : Lexeme} {items delivered : List Item}
      (unjoined : ¬ Joins context lexeme items) (unsplit : ¬ Splits context lexeme)
      (others : Delivers (context.after lexeme.token) items delivered) :
      Delivers context (.ok lexeme :: items) (.ok lexeme :: delivered)

/-- After a dot no parameter is remembered, so what follows is not cut. -/
theorem not_afterParameter_dot {context : Context} :
    ¬ (context.after (.mark .dot)).afterParameter = true := by
  simp [Context.after]

/-- Something is delivered for every list of items: a sign is joined or not, a numeral
is cut or not. -/
theorem exists_delivers (context : Context) (items : List Item) :
    ∃ delivered, Delivers context items delivered := by
  match items with
  | [] => exact ⟨[], .nothing⟩
  | .error e :: items =>
    obtain ⟨delivered, others⟩ := exists_delivers context items
    exact ⟨_, .error others⟩
  | .ok lexeme :: items =>
    by_cases joins : Joins context lexeme items
    · obtain ⟨outside, ⟨negative, signs⟩, value, text, position, left, rfl⟩ := joins
      obtain ⟨delivered, others⟩ :=
        exists_delivers (context.after (lexeme.join negative value text).token) left
      exact ⟨_, .joined outside signs others⟩
    · by_cases splits : Splits context lexeme
      · obtain ⟨token, text, start, position⟩ := lexeme
        obtain ⟨parameter, ⟨value, rfl⟩, digits, rfl⟩ := splits
        obtain ⟨delivered, others⟩ := exists_delivers
          ((context.after (.mark .dot)).after (.number (numeralValue digits))) items
        exact ⟨_, .split parameter others⟩
      · obtain ⟨delivered, others⟩ := exists_delivers (context.after lexeme.token) items
        exact ⟨_, .whole joins splits others⟩
termination_by items.length

/-! ### The lexer follows the rules -/

namespace Lexer

/-- What the lexer remembers, and what is still to be delivered if the text is
scanned to its end. -/
structure At (lexer : Lexer) (context : Context) (items : List Item) : Prop where
  remembered : lexer.context = context
  waiting : lexer.pending ++ lexer.cursor.scanAll = items

/-- With nothing to be delivered, nothing is pulled. -/
theorem pull_nil {lexer : Lexer} {context : Context} (position : lexer.At context []) :
    lexer.pull = none := by
  obtain ⟨empty, ended⟩ := List.append_eq_nil_iff.mp position.waiting
  rcases found : lexer.cursor.scan with ⟨_ | ⟨item, items⟩, cursor⟩
  · simp only [pull, empty, found]
  · rw [Cursor.scanAll_cons found] at ended
    nomatch ended

/-- The first of the items to be delivered is pulled, and the others are left. -/
theorem pull_cons {lexer : Lexer} {context : Context} {item : Item} {items : List Item}
    (position : lexer.At context (item :: items)) :
    ∃ next, lexer.pull = some (item, next) ∧ next.At context items := by
  obtain ⟨cursor, pending, _⟩ := lexer
  obtain ⟨rfl, waiting⟩ := position
  cases pending with
  | cons first others =>
    obtain ⟨rfl, rfl⟩ := List.cons.inj waiting
    exact ⟨_, rfl, rfl, rfl⟩
  | nil =>
    rcases found : cursor.scan with ⟨_ | ⟨first, others⟩, after⟩
    · rw [Cursor.scanAll_nil found] at waiting
      nomatch waiting
    · rw [Cursor.scanAll_cons found] at waiting
      obtain ⟨rfl, rfl⟩ := List.cons.inj waiting
      exact ⟨⟨after, others, _⟩, by simp only [pull, found], rfl, rfl⟩

/-- An item that is given back is the next to be delivered. -/
theorem At.push {lexer : Lexer} {context : Context} {items : List Item}
    (position : lexer.At context items) (item : Item) :
    (lexer.push item).At context (item :: items) :=
  ⟨position.remembered, congrArg (item :: ·) position.waiting⟩

section Settle

variable {lexer : Lexer} {context : Context} {items : List Item}

/-- A sign takes a number that follows it directly. -/
theorem foldSign_joined {sign : Lexeme} {value : Float} {text : List Char} {place : Position}
    (position : lexer.At context (.ok ⟨.number value, text, sign.stop, place⟩ :: items))
    (negative : Bool) :
    ∃ next, lexer.foldSign negative sign = (sign.join negative value text, next) ∧
      next.At context items := by
  obtain ⟨next, pulled, after⟩ := pull_cons position
  refine ⟨next, ?_, after⟩
  simp only [foldSign, pulled, if_pos, Lexeme.join]

/-- A sign that no number follows directly stays as it is, and what was looked at is
given back. -/
theorem foldSign_alone {sign : Lexeme} (position : lexer.At context items)
    (apart : ∀ value text place others,
      items ≠ .ok ⟨.number value, text, sign.stop, place⟩ :: others) (negative : Bool) :
    ∃ next, lexer.foldSign negative sign = (sign, next) ∧ next.At context items := by
  cases items with
  | nil => exact ⟨lexer, by simp only [foldSign, pull_nil position], position⟩
  | cons item items =>
    obtain ⟨next, pulled, after⟩ := pull_cons position
    refine ⟨next.push item, ?_, after.push item⟩
    cases item with
    | error e => simp only [foldSign, pulled]
    | ok lexeme =>
      obtain ⟨token, text, start, place⟩ := lexeme
      cases token with
      | number value =>
        have distant : start ≠ sign.stop := by
          rintro rfl
          exact apart value text place items rfl
        simp only [foldSign, pulled, if_neg distant]
      | identifier name => simp only [foldSign, pulled]
      | builtin operator => simp only [foldSign, pulled]
      | keyword word => simp only [foldSign, pulled]
      | mark mark => simp only [foldSign, pulled]

/-- Where no operand is before it, a sign is settled with the number after it. -/
theorem settle_joined {sign : Lexeme} {negative : Bool} {value : Float} {text : List Char}
    {place : Position}
    (position : lexer.At context (.ok ⟨.number value, text, sign.stop, place⟩ :: items))
    (outside : context.afterOperand = false) (signs : Signs sign.token negative) :
    ∃ next, lexer.settle sign = (sign.join negative value text, next) ∧ next.At context items := by
  obtain ⟨next, folded, after⟩ := foldSign_joined position negative
  refine ⟨next, ?_, after⟩
  generalize token : sign.token = t at signs
  cases signs with
  | plus => simpa [settle, token, position.remembered, outside] using folded
  | minus => simpa [settle, token, position.remembered, outside] using folded

/-- After a parameter, a numeral that begins with a point is settled as a dot, and its
digits are given back. -/
theorem settle_split {value : Float} {digits : List Char} {start : Nat} {place : Position}
    (position : lexer.At context items) (parameter : context.afterParameter = true) :
    ∃ next, lexer.settle ⟨.number value, '.' :: digits, start, place⟩ =
        (⟨.mark .dot, ['.'], start, place⟩, next) ∧
      next.At context (.ok ⟨.number (numeralValue digits), digits, start + byteLength ['.'],
        place.step '.'⟩ :: items) := by
  refine ⟨_, ?_, position.push _⟩
  simp [settle, position.remembered, parameter, splitDot]

/-- A lexeme that is neither joined nor cut is settled as it is. -/
theorem settle_whole {lexeme : Lexeme} (position : lexer.At context items)
    (unjoined : ¬ Joins context lexeme items) (unsplit : ¬ Splits context lexeme) :
    ∃ next, lexer.settle lexeme = (lexeme, next) ∧ next.At context items := by
  obtain ⟨token, text, start, place⟩ := lexeme
  by_cases signed : ∃ negative, Signs token negative
  · obtain ⟨negative, signs⟩ := signed
    by_cases inside : context.afterOperand = true
    · refine ⟨lexer, ?_, position⟩
      cases signs <;> simp [settle, position.remembered, inside]
    · have outside : context.afterOperand = false := by simpa using inside
      obtain ⟨next, folded, after⟩ := foldSign_alone position
        (fun value digits place others same =>
          unjoined ⟨outside, ⟨negative, signs⟩, value, digits, place, others, same⟩) negative
      refine ⟨next, ?_, after⟩
      cases signs <;> simpa [settle, position.remembered, outside] using folded
  · refine ⟨lexer, ?_, position⟩
    cases token with
    | number value =>
      have undotted : ¬ (context.afterParameter = true ∧ text.head? = some '.') := by
        rintro ⟨parameter, dotted⟩
        obtain ⟨digits, rfl⟩ := List.head?_eq_some_iff.mp dotted
        exact unsplit ⟨parameter, ⟨value, rfl⟩, digits, rfl⟩
      simp [settle, position.remembered, undotted]
    | mark mark =>
      cases mark with
      | plus => exact absurd ⟨false, .plus⟩ signed
      | minus => exact absurd ⟨true, .minus⟩ signed
      | _ => rfl
    | _ => rfl

end Settle

/-- A call delivers what the first lexeme is settled as, and remembers it. -/
theorem next_settled {lexer : Lexer} {context : Context} {lexeme settled : Lexeme}
    {items left : List Item} (position : lexer.At context (.ok lexeme :: items))
    (settles : ∀ {after : Lexer}, after.At context items →
      ∃ next, after.settle lexeme = (settled, next) ∧ next.At context left) :
    ∃ next, lexer.next = some (.ok settled, next) ∧
      next.At (context.after settled.token) left := by
  obtain ⟨after, pulled, waiting⟩ := pull_cons position
  obtain ⟨next, rule, last⟩ := settles waiting
  refine ⟨{ next with context := next.context.after settled.token }, ?_, ?_, last.waiting⟩
  · simp only [Lexer.next, pulled, rule]
  · rw [last.remembered]

/-- Calls within a bound deliver the first item and, as long as the bound is enough, the
others. -/
theorem itemsWithin_cons {lexer next : Lexer} {item : Item} {rest : List Item} {bound : Nat}
    (found : lexer.next = some (item, next)) (enough : (item :: rest).length ≤ bound)
    (others : ∀ {bound : Nat}, rest.length ≤ bound → next.itemsWithin bound = rest) :
    lexer.itemsWithin bound = item :: rest := by
  cases bound with
  | zero => nomatch enough
  | succ bound => simp only [itemsWithin, found, others (Nat.le_of_succ_le_succ enough)]

/-- The lexer delivers what the rules give, if it is asked often enough. -/
theorem itemsWithin_eq {lexer : Lexer} {context : Context} {items delivered : List Item}
    (delivers : Delivers context items delivered) (position : lexer.At context items)
    {bound : Nat} (enough : delivered.length ≤ bound) : lexer.itemsWithin bound = delivered := by
  induction delivers generalizing lexer bound with
  | nothing =>
    cases bound with
    | zero => rfl
    | succ bound => simp only [itemsWithin, Lexer.next, pull_nil position]
  | @error context e items delivered _ inductionHypothesis =>
    obtain ⟨next, pulled, after⟩ := pull_cons position
    have found : lexer.next = some (.error e, next) := by simp only [Lexer.next, pulled]
    exact itemsWithin_cons found enough (inductionHypothesis after)
  | joined outside signs _ inductionHypothesis =>
    obtain ⟨next, found, after⟩ := next_settled position (settle_joined · outside signs)
    exact itemsWithin_cons found enough (inductionHypothesis after)
  | split parameter _ inductionHypothesis =>
    obtain ⟨next, found, after⟩ := next_settled position (settle_split · parameter)
    refine itemsWithin_cons found enough fun fewer => ?_
    -- After a dot no numeral is cut, so the digits come next as they are.
    obtain ⟨last, again, left⟩ := next_settled after (settle_whole ·
      (fun ⟨_, ⟨_, signs⟩, _⟩ => nomatch signs) (fun splits => not_afterParameter_dot splits.1))
    exact itemsWithin_cons again fewer (inductionHypothesis left)
  | whole unjoined unsplit _ inductionHypothesis =>
    obtain ⟨next, found, after⟩ := next_settled position (settle_whole · unjoined unsplit)
    exact itemsWithin_cons found enough (inductionHypothesis after)

end Lexer

/-! ### The whole text -/

namespace Delivers

variable {context : Context} {items delivered : List Item}

/-- Each item that is delivered stands for at least one character of its own. -/
theorem length_le (delivers : Delivers context items delivered)
    (spelled : ∀ lexeme : Lexeme, .ok lexeme ∈ items → Spells lexeme.text lexeme.token) :
    delivered.length ≤ Cursor.weight items := by
  have positive {lexeme : Lexeme} (spells : Spells lexeme.text lexeme.token) :
      0 < lexeme.text.length := List.length_pos_iff.mpr spells.nonempty
  induction delivers with
  | nothing => exact Nat.zero_le _
  | error _ inductionHypothesis =>
    have := inductionHypothesis fun lexeme member => spelled lexeme (by simp [member])
    simp only [Cursor.weight, List.length_cons] at *
    omega
  | @joined context sign _ _ _ _ _ _ _ _ _ inductionHypothesis =>
    have := inductionHypothesis fun lexeme member => spelled lexeme (by simp [member])
    have := positive (spelled sign (by simp))
    simp only [Cursor.weight, List.length_cons] at *
    omega
  | @split context value digits start position items delivered _ _ inductionHypothesis =>
    have := inductionHypothesis fun lexeme member => spelled lexeme (by simp [member])
    have numeral := (spelled ⟨.number value, '.' :: digits, start, position⟩ (by simp)).of_number.1
    have := List.length_pos_iff.mpr (Spells.numeral numeral.fraction).nonempty
    simp only [Cursor.weight, List.length_cons] at *
    omega
  | @whole context lexeme _ _ _ _ _ inductionHypothesis =>
    have := inductionHypothesis fun lexeme member => spelled lexeme (by simp [member])
    have := positive (spelled lexeme (by simp))
    simp only [Cursor.weight, List.length_cons] at *
    omega

/-- No error is lost in delivery. -/
theorem error_mem (delivers : Delivers context items delivered) {e : LexicalError}
    (member : .error e ∈ items) : .error e ∈ delivered := by
  induction delivers with
  | nothing => exact member
  | error _ inductionHypothesis =>
    rcases List.mem_cons.mp member with same | member
    · exact List.mem_cons.mpr (.inl same)
    · exact List.mem_cons_of_mem _ (inductionHypothesis member)
  | joined _ _ _ inductionHypothesis =>
    have inside := (List.mem_cons.mp member).resolve_left (nomatch ·)
    have inside := (List.mem_cons.mp inside).resolve_left (nomatch ·)
    exact List.mem_cons_of_mem _ (inductionHypothesis inside)
  | split _ _ inductionHypothesis =>
    have inside := (List.mem_cons.mp member).resolve_left (nomatch ·)
    exact List.mem_cons_of_mem _ (List.mem_cons_of_mem _ (inductionHypothesis inside))
  | whole _ _ _ inductionHypothesis =>
    have inside := (List.mem_cons.mp member).resolve_left (nomatch ·)
    exact List.mem_cons_of_mem _ (inductionHypothesis inside)

end Delivers

/-- The items of a text are what the rules give for everything scanned in it. -/
theorem lexItems_eq {source : String} {delivered : List Item}
    (delivers : Delivers .start (Cursor.start source.toList).scanAll delivered) :
    lexItems source = delivered := by
  have few : delivered.length ≤ source.toList.length :=
    (delivers.length_le (Cursor.spells_of_mem_scanAll _)).trans (Cursor.weight_scanAll _)
  exact Lexer.itemsWithin_eq delivers ⟨rfl, rfl⟩ few

/-- The items of a text are what is delivered for all that is scanned from its start. -/
theorem lexItems_delivers (source : String) :
    Delivers .start (Cursor.start source.toList).scanAll (lexItems source) := by
  obtain ⟨delivered, delivers⟩ := exists_delivers .start (Cursor.start source.toList).scanAll
  rwa [lexItems_eq delivers]

/-- A text is cut into tokens exactly when every item is a lexeme, and these are the
tokens. -/
theorem tokenize_eq_ok {source : String} {tokens : List Located} :
    tokenize source = .ok tokens ↔
      ∃ found : List Lexeme,
        lexItems source = found.map .ok ∧ tokens = found.map Lexeme.located := by
  simp only [tokenize, lexemes, ← collect_eq_ok]
  cases (lexItems source).mapM id with
  | error e => simp [Except.map]
  | ok found => simp [Except.map, eq_comm]

/-- Nothing in a text is refused if no error is delivered. -/
theorem scanAll_accepted {source : String} {found : List Lexeme}
    (listed : lexItems source = found.map .ok) :
    ∀ e, .error e ∉ (Cursor.start source.toList).scanAll := by
  intro e member
  have delivered := (lexItems_delivers source).error_mem member
  simp [listed] at delivered

end Timbre
