import Timbre.Proofs.LexicalRefinement

/-!
# Scopes stay live

A scope is live while its frame is there. Frames are well formed when each extends an
older one and holds a value that remembers an older one, and grounded when the first one
is in place as well. Work that starts in grounded frames and is given live scopes adds to
the frames, leaves them grounded, and answers with a value whose own scope is live. It
does so however it ends.

A machine that is given live scopes only has grounded frames throughout, and each of its
live scopes represents an environment. A number that was given out again after a
release counts as live, so no record of past releases is needed.
-/

namespace Timbre

open Lexical (Meaning Environment)

/-- A scope is empty or its frame has a number below a bound. -/
def Scope.Below (scope : Scope) (bound : Nat) : Prop := ∀ number ∈ scope, number < bound

/-- The scope that a value remembers; a number or an operator alone remembers none. -/
def Value.captured : Value → Scope
  | number _ | builtin _ => none
  | closure _ _ scope | awaiting _ _ scope => scope

/-- The scope that a frame extends, and the one that its value remembers, are older than
`number`. -/
structure Frame.Older (frame : Frame) (number : Nat) : Prop where
  parent : Scope.Below frame.parent number
  captured : Scope.Below frame.value.captured number

/-- What is below a bound is below a larger one. -/
theorem Scope.Below.mono {scope : Scope} {bound larger : Nat} (below : Scope.Below scope bound)
    (le : bound ≤ larger) : Scope.Below scope larger := by
  intro number member
  exact Nat.lt_of_lt_of_le (below number member) le

/-- The empty scope is below every bound. -/
theorem Scope.below_none (bound : Nat) : Scope.Below none bound := by
  intro number member
  nomatch member

namespace Frames

/-- The scope is empty or its frame is there. -/
def Live (frames : Frames) (scope : Scope) : Prop := Scope.Below scope frames.size

/-- The scope that a value remembers is live. -/
def Holds (frames : Frames) (value : Value) : Prop := frames.Live value.captured

/-- No frame refers to itself or to a newer one. -/
structure WellFormed (frames : Frames) : Prop where
  older : ∀ {number : Nat} {frame : Frame}, frames.row[number]? = some frame →
    frame.Older number

/-- The frames are well formed, and the first one is there. -/
structure Grounded (frames : Frames) : Prop extends WellFormed frames where
  root : frames.Live rootScope

variable {frames before after : Frames} {scope : Scope} {value : Value}

/-- Frames that are extended do not get fewer. -/
theorem Extends.size_le (extended : before.Extends after) : before.size ≤ after.size := by
  have shorter := List.IsPrefix.length_le extended
  simpa [size] using shorter

/-- A live scope stays live while frames are added. -/
theorem Live.extend (live : before.Live scope) (extended : before.Extends after) :
    after.Live scope :=
  Scope.Below.mono live extended.size_le

/-- The empty scope is live. -/
theorem live_none (frames : Frames) : frames.Live none := Scope.below_none _

/-- A number remembers no scope. -/
theorem holds_number (frames : Frames) (value : Float) : frames.Holds (.number value) :=
  frames.live_none

/-- The first frame alone is grounded. -/
theorem root_grounded : Frames.root.Grounded where
  root := by
    rintro number ⟨⟩
    decide
  older := by
    intro number frame stored
    obtain ⟨inside, rfl⟩ := Array.getElem?_eq_some_iff.mp stored
    obtain rfl : number = 0 := by
      simpa [Frames.root, Frames.bind, Frames.empty] using inside
    exact ⟨Scope.below_none 0, Scope.below_none 0⟩

/-- The scope that `bind` returns is live. -/
theorem bind_live (frames : Frames) (parent : Scope) (name : String) (value : Value) :
    (frames.bind parent name value).2.Live (some frames.size) := by
  rintro number ⟨⟩
  simp [bind, size]

/-- A new frame on a live scope, for a value that remembers a live one, refers to older
frames only. -/
theorem Grounded.bind (grounded : frames.Grounded) (live : frames.Live scope)
    (name : String) (holds : frames.Holds value) :
    (frames.bind scope name value).2.Grounded where
  root := grounded.root.extend (frames.extends_bind scope name value)
  older := by
    intro number frame stored
    simp only [Frames.bind, Array.getElem?_push] at stored
    by_cases newest : number = frames.row.size
    · rw [if_pos newest] at stored
      cases stored
      rw [newest]
      exact ⟨live, holds⟩
    · rw [if_neg newest] at stored
      exact grounded.older stored

/-- What a walk finds is stored in some frame. -/
theorem walk_bound {name : String} {steps : Nat}
    (found : frames.walk name steps scope = .bound value) :
    ∃ (number : Nat) (frame : Frame), frames.row[number]? = some frame ∧ frame.value = value := by
  induction steps generalizing scope with
  | zero => nomatch found
  | succ steps inductionHypothesis =>
    cases scope with
    | none => nomatch found
    | some number =>
      cases stored : frames.row[number]? with
      | none => simp [walk, stored] at found
      | some frame =>
        simp only [walk, stored] at found
        split at found
        · cases found
          exact ⟨number, frame, stored, rfl⟩
        · exact inductionHypothesis found

/-- What is found under a name remembers a live scope, from wherever it is looked for. -/
theorem WellFormed.find (wellFormed : frames.WellFormed) {name : String}
    (found : frames.find scope name = .bound value) : frames.Holds value := by
  obtain ⟨number, frame, stored, rfl⟩ := walk_bound found
  obtain ⟨inside, _⟩ := Array.getElem?_eq_some_iff.mp stored
  exact (wellFormed.older stored).captured.mono (Nat.le_of_lt inside)

/-! ### Live scopes represent environments -/

section Below

variable {bound : Nat}
  (known : ∀ number < bound, ∃ environment, Represents frames (some number) environment)

include known

/-- If the scopes of all smaller numbers represent environments, a scope below the
bound does, the empty one included. -/
theorem represents_below (below : Scope.Below scope bound) :
    ∃ environment, Represents frames scope environment := by
  cases scope with
  | none => exact ⟨[], .empty⟩
  | some number => exact known number (below number rfl)

/-- A value whose scope is below the bound agrees with a meaning. -/
theorem agrees_below (below : Scope.Below value.captured bound) :
    ∃ meaning, Agrees frames value meaning := by
  cases value with
  | number value => exact ⟨_, .number value⟩
  | builtin operator => exact ⟨_, .builtin operator⟩
  | closure parameter body scope =>
    obtain ⟨environment, represented⟩ := represents_below known below
    exact ⟨_, .closure parameter body represented⟩
  | awaiting operator operand scope =>
    obtain ⟨environment, represented⟩ := represents_below known below
    exact ⟨_, .awaiting operator operand represented⟩

end Below

/-- In well-formed frames each live scope represents an environment. The induction is on
the number of the frame, since a frame refers to smaller numbers only. -/
theorem WellFormed.represents (wellFormed : frames.WellFormed) (live : frames.Live scope) :
    ∃ environment, Represents frames scope environment := by
  have known : ∀ number < frames.size,
      ∃ environment, Represents frames (some number) environment := by
    intro number
    induction number using Nat.strongRecOn with
    | ind number inductionHypothesis =>
      intro inside
      have stored : frames.row[number]? = some frames.row[number] :=
        Array.getElem?_eq_getElem inside
      obtain ⟨parent, captured⟩ := wellFormed.older stored
      have smaller : ∀ other < number,
          ∃ environment, Represents frames (some other) environment :=
        fun other less => inductionHypothesis other less (Nat.lt_trans less inside)
      obtain ⟨environment, rest⟩ := represents_below smaller parent
      obtain ⟨meaning, agrees⟩ := agrees_below smaller captured
      exact ⟨_, .bound stored parent agrees rest⟩
  exact represents_below known live

end Frames

namespace Eval

variable {α β : Type}

/-- How work that started in `before` may end: the frames were added to and are grounded, and
`live` holds of the result, if there is one. -/
structure Leaves (live : Frames → α → Prop) (before : Frames)
    (outcome : Except Failure α × Frames) : Prop where
  extended : before.Extends outcome.2
  grounded : outcome.2.Grounded
  result : ∀ {value}, outcome.1 = .ok value → live outcome.2 value

/-- Work that leaves the frames grounded and gives a live result. -/
abbrev Keeps (live : Frames → α → Prop) (frames : Frames) (work : Eval α) : Prop :=
  Leaves live frames (work.run frames)

variable {live : Frames → α → Prop} {frames : Frames}

/-- Returning a live result keeps the frames. -/
theorem keeps_pure (grounded : frames.Grounded) {value : α} (holds : live frames value) :
    Keeps live frames (pure value) where
  extended := frames.extends_refl
  grounded := grounded
  result := by
    rintro _ ⟨⟩
    exact holds

/-- Failing keeps the frames. -/
theorem keeps_throw (grounded : frames.Grounded) (reason : Failure) :
    Keeps live frames (throw reason) where
  extended := frames.extends_refl
  grounded := grounded
  result := fun impossible => nomatch impossible

/-- Raising a fault keeps the frames. -/
theorem keeps_raise (grounded : frames.Grounded) (reason : Fault) :
    Keeps live frames (raise reason) :=
  keeps_throw grounded _

/-- Binding a name in a live scope keeps the frames well formed, and the new scope is
live. -/
theorem keeps_bindName (grounded : frames.Grounded) {scope : Scope} {value : Value}
    (inside : frames.Live scope) (name : String) (holds : frames.Holds value) :
    Keeps Frames.Live frames (bindName scope name value) where
  extended := frames.extends_bind scope name value
  grounded := grounded.bind inside name holds
  result := by
    rintro _ ⟨⟩
    exact frames.bind_live scope name value

/-- The second part starts in grounded frames that extend those of the first, so what
was live before still is. -/
theorem Keeps.bind {later : Frames → β → Prop} {work : Eval α} {next : α → Eval β}
    (first : Keeps live frames work)
    (second : ∀ after value, frames.Extends after → after.Grounded → live after value →
      Keeps later after (next value)) :
    Keeps later frames (work >>= next) := by
  unfold Keeps at first ⊢
  rw [run_bind]
  cases outcome : (work.run frames : Except Failure α × Frames) with
  | mk result after =>
    rw [outcome] at first
    cases result with
    | error reason => exact ⟨first.extended, first.grounded, fun impossible => nomatch impossible⟩
    | ok value =>
      have continued := second after value first.extended first.grounded (first.result rfl)
      exact ⟨first.extended.trans continued.extended, continued.grounded, continued.result⟩

/-! ### The rules for one node -/

section Rules

variable {evaluate : Term → Scope → Eval Value}
  (keeps : ∀ {frames scope}, frames.Grounded → frames.Live scope → ∀ term,
    Keeps Frames.Holds frames (evaluate term scope))
  {scope : Scope} (grounded : frames.Grounded) (inside : frames.Live scope)

include keeps grounded inside

/-- Asking for a number keeps the frames. -/
theorem keeps_number (term : Term) (context : String) (line : Nat) :
    Keeps (fun _ _ => True) frames (number evaluate term scope context line) := by
  apply (keeps grounded inside term).bind
  intro after value extended grounded holds
  cases value with
  | number value => exact keeps_pure grounded trivial
  | closure => exact keeps_raise grounded _
  | builtin => exact keeps_raise grounded _
  | awaiting => exact keeps_raise grounded _

/-- Applying a value that remembers a live scope keeps the frames and gives such a
value. -/
theorem keeps_apply {function : Value} (holds : frames.Holds function) (argument : Term)
    (line : Nat) :
    Keeps Frames.Holds frames (apply evaluate function argument scope line) := by
  cases function with
  | number value => exact keeps_raise grounded _
  | closure parameter body captured =>
    apply (keeps grounded inside argument).bind
    intro after value extended grounded argumentHolds
    -- The parameter is bound in the captured scope, which is older than the argument's frames.
    apply (keeps_bindName grounded (Frames.Live.extend holds extended) parameter
      argumentHolds).bind
    intro last inner further grounded within
    exact keeps grounded within body
  | builtin operator =>
    cases operator with
    | unary operator =>
      apply (keeps_number keeps grounded inside argument operator.name line).bind
      intro after x extended grounded _
      exact keeps_pure grounded (after.holds_number _)
    | binary operator => exact keeps_pure grounded inside
  | awaiting operator operand captured =>
    apply (keeps_number keeps grounded holds operand operator.name line).bind
    intro after a extended grounded _
    apply (keeps_number keeps grounded (inside.extend extended) argument
      operator.name line).bind
    intro last b further grounded _
    exact keeps_pure grounded (last.holds_number _)

omit inside in
/-- The value of a name remembers a live scope, as it was bound or evaluated with one.
-/
theorem keeps_identifier (program : Program) (name : String) (line : Nat) :
    Keeps Frames.Holds frames (identifier evaluate program name line scope) := by
  have read : Keeps (fun after found => after = found) frames (get : Eval Frames) :=
    keeps_pure grounded rfl
  apply read.bind
  rintro after _ extended grounded rfl
  cases found : after.find scope name with
  | bound value => exact keeps_pure grounded (grounded.find found)
  | unbound =>
    cases defined : program.definition name with
    | none => simpa only [defined] using keeps_raise grounded _
    | some definition =>
      simpa only [defined] using keeps grounded grounded.root definition.body
  | endless => exact keeps_throw grounded _

/-- Binding definitions keeps the frames and gives a live scope. -/
theorem keeps_bindAll (definitions : List Definition) :
    Keeps Frames.Live frames (bindAll evaluate definitions scope) := by
  induction definitions generalizing frames scope with
  | nil => exact keeps_pure grounded inside
  | cons definition rest inductionHypothesis =>
    simp only [Eval.bindAll, List.foldlM_cons, bind_assoc]
    apply (keeps grounded inside definition.body).bind
    intro after value extended grounded holds
    apply (keeps_bindName grounded (inside.extend extended) definition.name holds).bind
    intro last inner further grounded within
    exact inductionHypothesis grounded within

/-- The choice of a clause keeps the frames. -/
theorem keeps_choose (value : Int) (clauses : List Clause) :
    Keeps (fun _ _ => True) frames (choose evaluate value scope clauses) := by
  induction clauses generalizing frames with
  | nil => exact keeps_pure grounded trivial
  | cons clause rest inductionHypothesis =>
    cases form : clause.pattern with
    | none =>
      simp only [Eval.choose, form]
      exact keeps_pure grounded trivial
    | some pattern =>
      simp only [Eval.choose, form]
      apply (keeps_number keeps grounded inside pattern "case pattern" clause.line).bind
      intro after candidate extended grounded _
      split
      · exact keeps_pure grounded trivial
      · exact inductionHypothesis grounded (inside.extend extended)

end Rules

end Eval

variable {frames : Frames}

/-- Evaluation in a live scope leaves grounded frames and a value that remembers a live
scope. -/
theorem keeps_evaluate (program : Program) (budget : Nat) {scope : Scope}
    (grounded : frames.Grounded) (inside : frames.Live scope) (term : Term) :
    Eval.Keeps Frames.Holds frames (evaluate program budget term scope) := by
  induction budget generalizing frames scope term with
  | zero => exact Eval.keeps_throw grounded _
  | succ budget keeps =>
    cases term with
    | number value line => exact Eval.keeps_pure grounded (frames.holds_number value)
    | builtin operator line => exact Eval.keeps_pure grounded frames.live_none
    | lambda parameter body line => exact Eval.keeps_pure grounded inside
    | identifier name line => exact Eval.keeps_identifier keeps grounded program name line
    | application function argument line =>
      apply (keeps grounded inside function).bind
      intro after value extended grounded holds
      exact Eval.keeps_apply keeps grounded (inside.extend extended) holds argument line
    | conditional condition consequent alternative line =>
      apply (Eval.keeps_number keeps grounded inside condition "if" line).bind
      intro after decision extended grounded _
      have continued := fun term => keeps grounded (inside.extend extended) term
      split
      · exact continued alternative
      · exact continued consequent
    | selection scrutinee clauses line =>
      apply (Eval.keeps_number keeps grounded inside scrutinee "case" line).bind
      intro after value extended grounded _
      apply (Eval.keeps_choose keeps grounded (inside.extend extended) (nearestWhole value)
        clauses).bind
      intro last chosen further grounded _
      cases chosen with
      | none => exact Eval.keeps_raise grounded _
      | some clause =>
        exact keeps grounded ((inside.extend extended).extend further) clause.result
    | binding definitions body line =>
      apply (Eval.keeps_bindAll keeps grounded inside definitions).bind
      intro after inner extended grounded within
      exact keeps grounded within body

/-- A call adds to the first frame, whatever it found behind it. -/
theorem leaves_evaluateWaveform (rooted : frames.Rooted) (program : Program) (budget : Nat)
    (name : String) (frequency time : Float) :
    Eval.Leaves (fun _ _ => True) Frames.root
      ((evaluateWaveform program budget name frequency time).run frames) := by
  simp only [evaluateWaveform, Eval.waveform]
  rw [Eval.run_bind, Eval.run_modify, rooted.release_one]
  have grounded := Frames.root_grounded
  cases found : program.definition name with
  | none => exact Eval.keeps_raise grounded _
  | some definition =>
    dsimp only
    cases form : definition.body.asWaveform with
    | none => exact Eval.keeps_raise grounded _
    | some waveform =>
      obtain ⟨frequencyName, timeName, body⟩ := waveform
      apply (Eval.keeps_bindName grounded grounded.root frequencyName
        (Frames.root.holds_number frequency)).bind
      intro first outer _ grounded live
      apply (Eval.keeps_bindName grounded live timeName (first.holds_number time)).bind
      intro second inner _ grounded live
      apply (keeps_evaluate program budget grounded live body).bind
      intro last value _ grounded _
      cases value with
      | number value => exact Eval.keeps_pure grounded trivial
      | closure => exact Eval.keeps_raise grounded _
      | builtin => exact Eval.keeps_raise grounded _
      | awaiting => exact Eval.keeps_raise grounded _

namespace Machine

/-- The scopes that an operation is given are live, and so are those that its values
remember. A call is given none. -/
def Operation.Live (frames : Frames) : Operation → Prop
  | .bind scope _ value => frames.Live scope ∧ frames.Holds value
  | .eval _ _ scope => frames.Live scope
  | .number _ _ scope _ _ => frames.Live scope
  | .apply _ function _ scope _ => frames.Holds function ∧ frames.Live scope
  | .call .. => True

/-- The machines that come from a new one by operations on live scopes. -/
inductive Reached (program : Program) : Machine → Prop where
  | start : Reached program (.start program)
  | perform {machine : Machine} (reached : Reached program machine) (operation : Operation)
      (live : operation.Live machine.frames) : Reached program (machine.perform operation)

/-- One operation on live scopes leaves grounded frames. -/
theorem perform_grounded (machine : Machine) (operation : Operation)
    (rooted : machine.frames.Rooted) (grounded : machine.frames.Grounded)
    (live : operation.Live machine.frames) : (machine.perform operation).frames.Grounded := by
  have keeps : ∀ budget {frames : Frames} {scope : Scope}, frames.Grounded →
      frames.Live scope → ∀ term,
        Eval.Keeps Frames.Holds frames (evaluate machine.program budget term scope) :=
    fun budget => keeps_evaluate machine.program budget
  cases operation with
  | bind scope name value => exact grounded.bind live.1 name live.2
  | eval budget term scope => exact (keeps budget grounded live term).grounded
  | number budget term scope context line =>
    exact (Eval.keeps_number (keeps budget) grounded live term context line).grounded
  | apply budget function argument scope line =>
    exact (Eval.keeps_apply (keeps budget) grounded live.2 live.1 argument line).grounded
  | call budget name frequency time =>
    exact (leaves_evaluateWaveform rooted machine.program budget name frequency time).grounded

namespace Reached

variable {program : Program} {machine : Machine}

/-- Operations leave the program. -/
theorem program_eq (reached : Reached program machine) : machine.program = program := by
  induction reached with
  | start => rfl
  | perform reached operation live inductionHypothesis =>
    exact (perform_program _ operation).trans inductionHypothesis

/-- Operations leave the first frame in place. -/
theorem rooted (reached : Reached program machine) : machine.frames.Rooted := by
  induction reached with
  | start => exact Frames.root_rooted
  | perform reached operation live inductionHypothesis =>
    exact perform_rooted _ operation inductionHypothesis

/-- Operations on live scopes leave the frames grounded. -/
theorem grounded (reached : Reached program machine) : machine.frames.Grounded := by
  induction reached with
  | start => exact Frames.root_grounded
  | perform reached operation live inductionHypothesis =>
    exact perform_grounded _ operation reached.rooted inductionHypothesis live

end Reached

end Machine

end Timbre
