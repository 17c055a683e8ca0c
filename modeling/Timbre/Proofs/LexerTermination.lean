import Timbre.Proofs.Rows

/-!
# The lexer ends

The lexer is asked for one item after another, past errors, until there is none. What it
has scanned ahead waits between what it has delivered and what is unread: nothing, one
item, or a number with one more item behind it. An item that waits after a number is the
word that the number runs into; a number waits when a sign before it has been looked past,
or when the dot of a lambda has been taken off it.

What has been delivered and what waits make up a row in the text. So there are never more
items than bytes, and the items that wait come next, in the order of the text.
-/

namespace Timbre

/-! ### Items that wait -/

/-- What may wait: nothing, one item, or a number with one more item behind it. -/
inductive Queue : List Item → Prop where
  | nothing : Queue []
  | one (item : Item) : Queue [item]
  | two {number : Lexeme} {value : Float} (numeric : number.token = .number value) (item : Item) :
      Queue [.ok number, item]

namespace Queue

variable {item : Item} {items : List Item}

/-- At most two items wait. -/
theorem length_le (queue : Queue items) : items.length ≤ 2 := by
  cases queue <;> simp

/-- When the first item is taken, the others still wait as they may. -/
theorem tail (queue : Queue (item :: items)) : Queue items := by
  cases queue with
  | one item => exact .nothing
  | two numeric item => exact .one item

/-- Only a number has an item behind it. -/
theorem numeric (queue : Queue (item :: items)) (more : items ≠ []) :
    ∃ number value, item = .ok number ∧ number.token = .number value := by
  cases queue with
  | one item => exact absurd rfl more
  | two numeric item => exact ⟨_, _, rfl, numeric⟩

/-- Behind a sign nothing waits. -/
theorem alone_of_sign {sign : Lexeme} {negative : Bool} (queue : Queue (.ok sign :: items))
    (signs : Signs sign.token negative) : items = [] := by
  by_contra more
  obtain ⟨number, value, same, numeric⟩ := queue.numeric more
  obtain rfl := Except.ok.inj same
  rw [numeric] at signs
  nomatch signs

/-- A number may stand in place of the first item. -/
theorem replace {number : Lexeme} {value : Float} (queue : Queue (item :: items))
    (numeric : number.token = .number value) : Queue (.ok number :: items) := by
  cases queue with
  | one item => exact .one _
  | two _ item => exact .two numeric item

end Queue

/-- What one scan finds may wait. -/
theorem Cursor.scan_queue {cursor next : Cursor} {items : List Item}
    (found : cursor.scan = (items, next)) : Queue items := by
  have reads := cursor.skipLayout.scanItem_reads
  rw [show cursor.skipLayout.scanItem = _ from found] at reads
  cases reads with
  | nothing ended => exact .nothing
  | token split front => exact .one _
  | numberAndWord split numeral front isWord next =>
    exact .two (front.spells.unique (.numeral numeral)) _
  | refused split nonempty none => exact .one _

/-! ### Rows that the lexer rearranges -/

namespace Cursor.Row

variable {cursor middle last : Cursor}

/-- A sign and the number right after it stand in a row as one number. -/
theorem join {sign : Lexeme} {negative : Bool} {value : Float} {text : List Char}
    {position : Position} (first : Row Spells cursor [.ok sign] middle)
    (second : Row Spells middle [.ok ⟨.number value, text, sign.stop, position⟩] last)
    (signs : Signs sign.token negative) :
    Row Denotes cursor [.ok (sign.join negative value text)] last := by
  cases first with
  | @item _ _ gap mark rest _ _ split layout _ stands others =>
  cases others with
  | done =>
  cases second with
  | @item _ _ between digits left _ _ again _ _ number others =>
  cases others with
  | done =>
  obtain ⟨token, spells, rfl⟩ := stands.of_ok
  obtain ⟨_, spelled, same⟩ := number.of_ok
  simp only [Cursor.lexeme, Lexeme.mk.injEq] at same
  obtain ⟨rfl, rfl, adjacent, _⟩ := same
  -- The number begins where the sign stops, so no layout is between them.
  have empty : between = [] := by
    apply byteLength_eq_zero
    simp only [Lexeme.stop, Cursor.after, byteLength_append] at adjacent
    omega
  subst empty
  obtain rfl : rest = text ++ left := again
  have denotes : Denotes (mark ++ text) (.number (if negative then -value else value)) := by
    cases signs with
    | plus =>
      obtain rfl : mark = ['+'] := spells.of_mark
      exact .positive spelled
    | minus =>
      obtain rfl : mark = ['-'] := spells.of_mark
      exact .negative spelled
  rw [after_after, List.nil_append]
  rw [← List.append_assoc mark] at split layout ⊢
  rw [List.append_assoc gap]
  exact .item split layout denotes.nonempty (.token denotes) .done

/-- A numeral that begins with a point stands in a row as a dot and the rest of it. -/
theorem cut {numeral : Lexeme} {value : Float} {digits : List Char}
    (row : Row Spells cursor [.ok numeral] last) (numeric : numeral.token = .number value)
    (dotted : numeral.text = '.' :: digits) :
    ∃ middle, Row Denotes cursor [.ok { numeral with token := .mark .dot, text := ['.'] }] middle ∧
      Row Spells middle [.ok ⟨.number (numeralValue digits), digits,
        numeral.start + byteLength ['.'], numeral.position.step '.'⟩] last := by
  cases row with
  | @item _ _ gap text rest _ _ split layout _ stands others =>
  cases others with
  | done =>
  obtain ⟨token, spells, rfl⟩ := stands.of_ok
  obtain rfl : token = .number value := numeric
  obtain rfl : text = '.' :: digits := dotted
  have fraction : Spells digits (.number (numeralValue digits)) :=
    .numeral spells.of_number.1.fraction
  have dot : Denotes ['.'] (.mark .dot) := .unsigned (.mark .dot)
  refine ⟨_, @Row.item _ _ _ gap ['.'] (digits ++ rest) _ _ split layout dot.nonempty
    (.token dot) .done, ?_⟩
  have second := @Row.item Spells (cursor.after (gap ++ ['.']) (digits ++ rest)) _ [] digits rest
    _ _ rfl .none fraction.nonempty (.token fraction) .done
  simpa [Cursor.lexeme, Cursor.after, Nat.add_assoc] using second

end Cursor.Row

namespace Lexer

variable {lexer next last : Lexer} {item : Item} {items : List Item} {cursor : Cursor}

/-! ### What a call can do -/

/-- A lexer that remembers one more token. -/
def remember (lexer : Lexer) (token : Token) : Lexer :=
  { lexer with context := lexer.context.after token }

/-- What a lexeme is delivered as, and the lexer after it: the lexeme itself, a sign past
which one more item has been taken and given back, a sign joined with that item, or the
dot of a lambda with the rest of the numeral given back. -/
inductive Settles (lexer : Lexer) (lexeme : Lexeme) : Lexeme → Lexer → Prop where
  | whole : Settles lexer lexeme lexeme lexer
  | ahead {negative : Bool} {another : Item} {further : Lexer}
      (signs : Signs lexeme.token negative) (seen : lexer.pull = some (another, further)) :
      Settles lexer lexeme lexeme (further.push another)
  | joined {negative : Bool} {value : Float} {text : List Char} {position : Position}
      {further : Lexer} (signs : Signs lexeme.token negative)
      (seen : lexer.pull = some (.ok ⟨.number value, text, lexeme.stop, position⟩, further)) :
      Settles lexer lexeme (lexeme.join negative value text) further
  | split {value : Float} {digits : List Char} (parameter : lexer.context.afterParameter = true)
      (numeric : lexeme.token = .number value) (dotted : lexeme.text = '.' :: digits) :
      Settles lexer lexeme { lexeme with token := .mark .dot, text := ['.'] }
        (lexer.push (.ok ⟨.number (numeralValue digits), digits,
          lexeme.start + byteLength ['.'], lexeme.position.step '.'⟩))

/-- A sign is delivered alone or with the number that follows it. -/
theorem foldSign_settles {sign settled : Lexeme} {negative : Bool}
    (signs : Signs sign.token negative) (folded : lexer.foldSign negative sign = (settled, last)) :
    lexer.Settles sign settled last := by
  unfold foldSign at folded
  split at folded
  · cases folded
    exact .whole
  · rename_i value text start position further seen
    by_cases adjacent : start = sign.stop
    · rw [if_pos adjacent] at folded
      cases folded
      subst adjacent
      exact .joined signs seen
    · rw [if_neg adjacent] at folded
      cases folded
      exact .ahead signs seen
  · rename_i seen
    cases folded
    exact .ahead signs seen

/-- A lexeme is delivered in one of the ways that there are. -/
theorem settle_settles {lexeme settled : Lexeme}
    (found : lexer.settle lexeme = (settled, last)) : lexer.Settles lexeme settled last := by
  unfold settle at found
  split at found
  case h_1 token =>
    split_ifs at found
    · cases found
      exact .whole
    · exact foldSign_settles (token ▸ .plus) found
  case h_2 token =>
    split_ifs at found
    · cases found
      exact .whole
    · exact foldSign_settles (token ▸ .minus) found
  case h_3 value token =>
    split_ifs at found with pointed
    · simp only [Bool.and_eq_true, decide_eq_true_eq] at pointed
      obtain ⟨digits, dotted⟩ := List.head?_eq_some_iff.mp pointed.2
      simp only [splitDot, dotted, List.tail_cons] at found
      cases found
      exact .split pointed.1 token dotted
    · cases found
      exact .whole
  case h_4 =>
    cases found
    exact .whole

/-- A call takes an item. It delivers an error as it is, and a lexeme as it is settled. -/
theorem next_cases (found : lexer.next = some (item, next)) :
    (∃ e, item = .error e ∧ lexer.pull = some (.error e, next)) ∨
      ∃ lexeme settled after last, lexer.pull = some (.ok lexeme, after) ∧
        after.Settles lexeme settled last ∧ item = .ok settled ∧
        next = last.remember settled.token := by
  unfold Lexer.next at found
  split at found
  · nomatch found
  · rename_i pulled
    cases found
    exact .inl ⟨_, rfl, pulled⟩
  · rename_i lexeme after pulled
    rcases settled : after.settle lexeme with ⟨delivered, last⟩
    simp only [settled, Option.some.injEq, Prod.mk.injEq] at found
    obtain ⟨rfl, rfl⟩ := found
    exact .inr ⟨lexeme, delivered, after, last, pulled, settle_settles settled, rfl, rfl⟩

/-- When a call ends, nothing waits and only layout is left. -/
theorem next_none (ended : lexer.next = none) :
    lexer.pending = [] ∧ Layout [] lexer.cursor.rest := by
  have nothing : lexer.pull = none := by
    unfold Lexer.next at ended
    split at ended
    · assumption
    · nomatch ended
    · nomatch ended
  obtain ⟨unread, pending, context⟩ := lexer
  cases pending with
  | cons first others => nomatch nothing
  | nil =>
    refine ⟨rfl, ?_⟩
    rcases found : unread.scan with ⟨_ | ⟨first, others⟩, left⟩
    · exact Cursor.scan_done found
    · simp [pull, found] at nothing

/-! ### One call -/

/-- What is pending waits in a row between a cursor and the unread text. -/
structure Waits (lexer : Lexer) (cursor : Cursor) : Prop where
  queue : Queue lexer.pending
  row : cursor.Row Spells lexer.pending lexer.cursor

/-- An item that is taken could be given back. -/
theorem Waits.pull (waits : lexer.Waits cursor) (pulled : lexer.pull = some (item, next)) :
    (next.push item).Waits cursor := by
  obtain ⟨unread, pending, context⟩ := lexer
  cases pending with
  | cons first others =>
    cases pulled
    exact ⟨waits.queue, waits.row⟩
  | nil =>
    obtain rfl : cursor = unread := by
      cases waits.row with
      | done => rfl
    rcases found : cursor.scan with ⟨_ | ⟨first, others⟩, left⟩
    · simp [Lexer.pull, found] at pulled
    · simp only [Lexer.pull, found] at pulled
      cases pulled
      exact ⟨Cursor.scan_queue found, Cursor.scan_row found (List.cons_ne_nil _ _)⟩

/-- The first item that waits, and the others. -/
theorem Waits.uncons (waits : (lexer.push item).Waits cursor) :
    ∃ middle, cursor.Row Spells [item] middle ∧ lexer.Waits middle := by
  obtain ⟨middle, first, others⟩ := waits.row.uncons
  exact ⟨middle, first, waits.queue.tail, others⟩

namespace Settles

variable {lexeme settled : Lexeme}

/-- What is delivered stands where the lexeme stood, in front of what waits then. -/
theorem waits (settles : lexer.Settles lexeme settled last)
    (waits : (lexer.push (.ok lexeme)).Waits cursor) :
    ∃ middle, cursor.Row Denotes [.ok settled] middle ∧ last.Waits middle := by
  obtain ⟨middle, first, others⟩ := waits.uncons
  have denoted := first.imp fun _ _ => Denotes.unsigned
  cases settles with
  | whole => exact ⟨middle, denoted, others⟩
  | ahead signs seen => exact ⟨middle, denoted, others.pull seen⟩
  | joined signs seen =>
    obtain ⟨stop, second, left⟩ := (others.pull seen).uncons
    exact ⟨stop, first.join second signs, left⟩
  | split parameter numeric dotted =>
    obtain ⟨between, dot, digits⟩ := first.cut numeric dotted
    exact ⟨between, dot, waits.queue.replace rfl, digits.append others.row⟩

/-- While something waits, the token before is no parameter. -/
theorem unparametrized (settles : lexer.Settles lexeme settled last)
    (queue : Queue (.ok lexeme :: lexer.pending)) (more : last.pending ≠ []) (context : Context) :
    (context.after settled.token).afterParameter = false := by
  cases settles with
  | whole =>
    obtain ⟨number, value, same, numeric⟩ := queue.numeric more
    obtain rfl := Except.ok.inj same
    simp [Context.after, numeric]
  | ahead signs seen =>
    generalize lexeme.token = token at signs
    cases signs <;> simp [Context.after]
  | joined signs seen => simp [Context.after, Lexeme.join]
  | split parameter numeric dotted => simp [Context.after]

/-- What is delivered begins where the lexeme does. After no parameter, what has waited
behind the lexeme waits in front. -/
theorem follows (settles : lexer.Settles lexeme settled last)
    (queue : Queue (.ok lexeme :: lexer.pending)) (plain : lexer.context.afterParameter = false) :
    settled.position = lexeme.position ∧ lexer.pending <+: last.pending := by
  cases settles with
  | whole => exact ⟨rfl, List.prefix_refl _⟩
  -- Nothing waits behind a sign, so what is seen past it comes from the unread text.
  | ahead signs seen =>
    rw [queue.alone_of_sign signs]
    exact ⟨rfl, List.nil_prefix⟩
  | joined signs seen =>
    rw [queue.alone_of_sign signs]
    exact ⟨rfl, List.nil_prefix⟩
  | split parameter numeric dotted =>
    rw [plain] at parameter
    nomatch parameter

end Settles

/-- A lexer has delivered items from a cursor on. While something waits no numeral can be
cut, since its second part would come between items that wait already. -/
structure Delivered (lexer : Lexer) (start : Cursor) (items : List Item) : Prop where
  plain : lexer.pending ≠ [] → lexer.context.afterParameter = false
  waits : ∃ cursor, start.Row Denotes items cursor ∧ lexer.Waits cursor

namespace Delivered

variable {start : Cursor}

/-- After what was delivered, a queue waits. -/
theorem queue (delivered : lexer.Delivered start items) : Queue lexer.pending := by
  obtain ⟨_, _, waits⟩ := delivered.waits
  exact waits.queue

/-- What has been delivered and what waits make up one row. -/
theorem row (delivered : lexer.Delivered start items) :
    start.Row Denotes (items ++ lexer.pending) lexer.cursor := by
  obtain ⟨_, before, waits⟩ := delivered.waits
  exact before.append (waits.row.imp fun _ _ => .unsigned)

/-- One more call delivers one more item. -/
theorem called (delivered : lexer.Delivered start items) (found : lexer.next = some (item, last)) :
    last.Delivered start (items ++ [item]) := by
  obtain ⟨cursor, before, waits⟩ := delivered.waits
  rcases next_cases found with ⟨e, rfl, pulled⟩ | ⟨lexeme, settled, after, left, pulled, settles,
    rfl, rfl⟩
  · have taken := waits.pull pulled
    obtain ⟨middle, first, others⟩ := taken.uncons
    refine ⟨?_, middle, before.append (first.imp fun _ _ => .unsigned), others⟩
    -- An error does not change the context, but nothing ever waits behind one.
    intro more
    obtain ⟨_, _, same, _⟩ := taken.queue.numeric more
    nomatch same
  · have taken := waits.pull pulled
    obtain ⟨middle, first, others⟩ := settles.waits taken
    refine ⟨?_, middle, before.append first, others.queue, others.row⟩
    intro more
    exact settles.unparametrized taken.queue more left.context

/-- The first item that waits is delivered next, and the others wait in front then. -/
theorem follows {first : Item} {others : List Item} (delivered : lexer.Delivered start items)
    (waiting : lexer.pending = first :: others) (found : lexer.next = some (item, last)) :
    itemPosition item = itemPosition first ∧ others <+: last.pending := by
  have queue := delivered.queue
  have plain := delivered.plain (by simp [waiting])
  obtain ⟨unread, pending, context⟩ := lexer
  subst waiting
  rcases next_cases found with ⟨e, rfl, pulled⟩ | ⟨lexeme, settled, after, left, pulled, settles,
    rfl, rfl⟩
  · cases pulled
    exact ⟨rfl, List.prefix_refl _⟩
  · cases pulled
    exact settles.follows queue plain

end Delivered

/-! ### Calls until nothing is left -/

/-- Calls one after another, past errors, each of which gives an item. -/
inductive Calls : Lexer → List Item → Lexer → Prop where
  | done {lexer : Lexer} : Calls lexer [] lexer
  | more {lexer next last : Lexer} {item : Item} {items : List Item}
      (found : lexer.next = some (item, next)) (others : Calls next items last) :
      Calls lexer (item :: items) last

namespace Calls

/-- After calls, all of their items have been delivered. -/
theorem delivered {start : Cursor} {before : List Item} (calls : Calls lexer items last)
    (delivered : lexer.Delivered start before) : last.Delivered start (before ++ items) := by
  induction calls generalizing before with
  | done => rwa [List.append_nil]
  | more found _ inductionHypothesis =>
    have later := inductionHypothesis (delivered.called found)
    rwa [List.append_assoc] at later

/-- Calls to the end pass through every state that can be reached. -/
theorem resume {all : List Item} {reached : Lexer} (calls : Calls lexer items reached)
    (whole : Calls lexer all last) (ended : last.next = none) :
    ∃ rest, all = items ++ rest ∧ Calls reached rest last := by
  induction calls generalizing all with
  | done => exact ⟨all, rfl, whole⟩
  | more found _ inductionHypothesis =>
    cases whole with
    | done =>
      rw [found] at ended
      nomatch ended
    | more again others =>
      rw [found] at again
      cases again
      obtain ⟨rest, rfl, later⟩ := inductionHypothesis others
      exact ⟨rest, rfl, later⟩

/-- What waits is what calls to the end deliver first, place by place. -/
theorem pending_first {start : Cursor} {before : List Item} (calls : Calls lexer items last)
    (ended : last.next = none) (delivered : lexer.Delivered start before) :
    lexer.pending.map itemPosition <+: items.map itemPosition := by
  induction calls generalizing before with
  | done => simp [(next_none ended).1]
  | @more lexer next last item items found _ inductionHypothesis =>
    cases waiting : lexer.pending with
    | nil => exact List.nil_prefix
    | cons first others =>
      obtain ⟨same, front⟩ := delivered.follows waiting found
      have later := inductionHypothesis ended (delivered.called found)
      rw [List.map_cons, List.map_cons, same]
      exact (List.prefix_cons_inj _).mpr ((front.map itemPosition).trans later)

end Calls

/-- The items within a bound come from calls that end, unless the bound is used up. -/
theorem itemsWithin_calls (bound : Nat) (lexer : Lexer) :
    ∃ last, Calls lexer (lexer.itemsWithin bound) last ∧
      (last.next = none ∨ (lexer.itemsWithin bound).length = bound) := by
  induction bound generalizing lexer with
  | zero => exact ⟨lexer, .done, .inr rfl⟩
  | succ bound inductionHypothesis =>
    cases found : lexer.next with
    | none =>
      simp only [itemsWithin, found]
      exact ⟨lexer, .done, .inl found⟩
    | some answer =>
      obtain ⟨item, next⟩ := answer
      obtain ⟨last, calls, ended | used⟩ := inductionHypothesis next
      · simp only [itemsWithin, found]
        exact ⟨last, .more found calls, .inl ended⟩
      · simp only [itemsWithin, found]
        exact ⟨last, .more found calls, .inr (congrArg Nat.succ used)⟩

/-- At the start of a text nothing has been delivered. -/
theorem start_delivered (text : List Char) : (start text).Delivered (.start text) [] where
  plain := fun more => absurd rfl more
  waits := ⟨.start text, .done, .nothing, .done⟩

/-- Calls from the start deliver their items from the start of the text. -/
theorem Calls.delivered_from_start {text : List Char} (calls : Calls (start text) items last) :
    last.Delivered (.start text) items :=
  calls.delivered (start_delivered text)

/-- What has been delivered, what waits and what is unread take no more than the bytes of
the text. -/
theorem Calls.bytes_le {source : String} (calls : Calls (start source.toList) items last) :
    (items ++ last.pending).length + byteLength last.cursor.rest ≤ source.utf8ByteSize := by
  obtain ⟨text, split, fewer⟩ := calls.delivered_from_start.row.covered_text
  have whole : source.toList = text ++ last.cursor.rest := split
  have bytes := length_le_byteLength text
  rw [← byteLength_toList, whole, byteLength_append]
  omega

/-- The bound on the items of a source text is never what ends them. -/
theorem lexItems_calls (source : String) :
    ∃ last, Calls (start source.toList) (lexItems source) last ∧ last.next = none := by
  obtain ⟨last, calls, ended | used⟩ := itemsWithin_calls source.toList.length (start source.toList)
  · exact ⟨last, calls, ended⟩
  · refine ⟨last, calls, Option.eq_none_iff_forall_ne_some.mpr ?_⟩
    rintro ⟨item, next⟩ found
    -- One more item would be one more than there are characters.
    obtain ⟨text, split, fewer⟩ := (calls.delivered_from_start.called found).row.covered_text
    have whole : source.toList = text ++ next.cursor.rest := split
    have length := congrArg List.length whole
    simp only [List.length_append, List.length_singleton, used] at fewer length
    omega

/-! ### During a call -/

/-- The states of a lexer during a call: before it, with an item taken, and with one more
item taken to look ahead. What a call leaves is the state before the next one. -/
inductive During (lexer : Lexer) : Lexer → Prop where
  | before : During lexer lexer
  | taken {item : Item} {after : Lexer} (pulled : lexer.pull = some (item, after)) :
      During lexer after
  | ahead {item another : Item} {after further : Lexer}
      (pulled : lexer.pull = some (item, after)) (seen : after.pull = some (another, further)) :
      During lexer further

/-- At every moment of a call a queue waits. -/
theorem Waits.during {moment : Lexer} (waits : lexer.Waits cursor) (during : lexer.During moment) :
    Queue moment.pending := by
  cases during with
  | before => exact waits.queue
  | taken pulled => exact (waits.pull pulled).queue.tail
  | ahead pulled seen =>
    obtain ⟨middle, _, others⟩ := (waits.pull pulled).uncons
    exact (others.pull seen).queue.tail

/-- Calls on a source text, past errors, deliver its items, no more of them than it has
bytes; then nothing waits, and only layout is unread.

Whenever some calls have been made, what they delivered is where the items of the text
begin, and at no moment of the next call wait more than two items. What has been delivered,
what waits and the unread text follow one another in the text, with only layout between
them, and the items that wait are delivered next, at their places. -/
theorem calls_end_in_source_order (source : String) :
    (∃ last, Calls (start source.toList) (lexItems source) last ∧ last.next = none ∧
        last.pending = [] ∧ Layout [] last.cursor.rest) ∧
      (lexItems source).length ≤ source.utf8ByteSize ∧
      ∀ items lexer, Calls (start source.toList) items lexer →
        items <+: lexItems source ∧
        (∀ moment, lexer.During moment → moment.pending.length ≤ 2) ∧
        (items ++ lexer.pending).length + byteLength lexer.cursor.rest ≤ source.utf8ByteSize ∧
        (Cursor.start source.toList).Row Denotes (items ++ lexer.pending) lexer.cursor ∧
        ((items ++ lexer.pending).map itemPosition ++ [lexer.cursor.position]).Pairwise
          Position.Before ∧
        (items ++ lexer.pending).map itemPosition <+: (lexItems source).map itemPosition := by
  obtain ⟨last, whole, ended⟩ := lexItems_calls source
  refine ⟨⟨last, whole, ended, next_none ended⟩, ?_, ?_⟩
  · have bytes := whole.bytes_le
    rw [List.length_append] at bytes
    omega
  · intro items lexer calls
    have delivered := calls.delivered_from_start
    obtain ⟨rest, listed, others⟩ := calls.resume whole ended
    refine ⟨⟨rest, listed.symm⟩, ?_, calls.bytes_le, delivered.row, delivered.row.ordered, ?_⟩
    · intro moment during
      obtain ⟨_, _, waits⟩ := delivered.waits
      exact (waits.during during).length_le
    · rw [listed, List.map_append, List.map_append]
      exact (List.prefix_append_right_inj _).mpr (others.pending_first ended delivered)

/-- A sign has been looked past: the number after it waits with the word that the number
runs into. A character of two bytes that begins no token is unread. -/
theorem calls_end_in_source_order_ahead :
    let source := "- 3else é"
    let items : List Item := [.ok ⟨.mark .minus, ['-'], 0, ⟨1, 1⟩⟩]
    let lexer : Lexer :=
      { cursor := ⟨[' ', 'é'], 7, ⟨1, 8⟩⟩
        pending := [.ok ⟨.number (numeralValue ['3']), ['3'], 2, ⟨1, 3⟩⟩,
          .ok ⟨.keyword .elseWord, ['e', 'l', 's', 'e'], 3, ⟨1, 4⟩⟩]
        context := .start }
    Calls (start source.toList) items lexer ∧
      items <+: lexItems source ∧
      (∀ moment, lexer.During moment → moment.pending.length ≤ 2) ∧
      (items ++ lexer.pending).length + byteLength lexer.cursor.rest ≤ source.utf8ByteSize ∧
      (Cursor.start source.toList).Row Denotes (items ++ lexer.pending) lexer.cursor ∧
      ((items ++ lexer.pending).map itemPosition ++ [lexer.cursor.position]).Pairwise
        Position.Before ∧
      (items ++ lexer.pending).map itemPosition <+: (lexItems source).map itemPosition := by
  intro source items lexer
  have found : (start source.toList).next =
      some (.ok ⟨.mark .minus, ['-'], 0, ⟨1, 1⟩⟩, lexer) := by
    unfold source lexer
    rfl
  have calls : Calls (start source.toList) items lexer := .more found .done
  exact ⟨calls, (calls_end_in_source_order source).2.2 items lexer calls⟩

end Lexer

end Timbre
