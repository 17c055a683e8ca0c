import Timbre.Proofs.LiveScopes

/-!
# Lookups meet only frames that are there

A walk that comes to a number without a frame stops as if nothing were bound. In
well-formed frames no walk from a live scope comes to such a number, because each frame
refers to older ones only. Evaluation keeps the frames grounded and its scopes live, so
none of its lookups does.

This is said by raising an alarm. A watched evaluation does something else, anything at all,
in place of a lookup that would come to a missing frame. It cannot be told from the
evaluation that is not watched.
-/

namespace Timbre

namespace Frames

/-- The walk from a scope comes to a number without a frame before it finds the name. -/
inductive Strays (frames : Frames) (name : String) : Scope → Prop where
  | missing {number : Nat} (absent : frames.row[number]? = none) :
      Strays frames name (some number)
  | onward {number : Nat} {frame : Frame} (stored : frames.row[number]? = some frame)
      (other : frame.name ≠ name) (strays : Strays frames name frame.parent) :
      Strays frames name (some number)

/-- Induction along the walk: the parent of a frame that is there is older, so it is there too. -/
theorem WellFormed.not_strays {frames : Frames} {scope : Scope} (wellFormed : frames.WellFormed)
    (live : frames.Live scope) (name : String) : ¬ frames.Strays name scope := by
  intro strays
  induction strays with
  | @missing number absent =>
    have inside : number < frames.row.size := live number rfl
    rw [Array.getElem?_eq_getElem inside] at absent
    cases absent
  | @onward number frame stored other strays inductionHypothesis =>
    have inside : number < frames.size := live number rfl
    exact inductionHypothesis ((wellFormed.older stored).parent.mono (Nat.le_of_lt inside))

/-- A term is a name whose lookup in a scope comes to a missing frame. -/
def Misses (frames : Frames) (term : Term) (scope : Scope) : Prop :=
  ∃ name line, term = .identifier name line ∧ frames.Strays name scope

/-- No name whose lookup starts in a live scope is missed. -/
theorem WellFormed.not_misses {frames : Frames} {scope : Scope} (wellFormed : frames.WellFormed)
    (live : frames.Live scope) (term : Term) : ¬ frames.Misses term scope := by
  rintro ⟨name, line, -, strays⟩
  exact wellFormed.not_strays live name strays

end Frames

namespace Eval

variable {α β : Type} {frames : Frames}

/-- Work that runs alike, followed by work that runs alike wherever the first may end. -/
theorem run_bind_congr {live : Frames → α → Prop} {work other : Eval α}
    {next continued : α → Eval β} (keeps : Keeps live frames work)
    (start : other.run frames = work.run frames)
    (rest : ∀ after value, frames.Extends after → after.Grounded → live after value →
      (continued value).run after = (next value).run after) :
    (other >>= continued).run frames = (work >>= next).run frames := by
  unfold Keeps at keeps
  rw [run_bind, run_bind, start]
  cases outcome : (work.run frames : Except Failure α × Frames) with
  | mk result after =>
    rw [outcome] at keeps
    cases result with
    | error reason => rfl
    | ok value => exact rest after value keeps.extended keeps.grounded (keeps.result rfl)

/-! ### The rules for one node -/

section Rules

variable {first second : Term → Scope → Eval Value}
  (keeps : ∀ {frames scope}, frames.Grounded → frames.Live scope → ∀ term,
    Keeps Frames.Holds frames (first term scope))
  (same : ∀ {frames scope}, frames.Grounded → frames.Live scope → ∀ term,
    (second term scope).run frames = (first term scope).run frames)
  {scope : Scope} (grounded : frames.Grounded) (inside : frames.Live scope)

include keeps same grounded inside

/-- Evaluators that run alike in live scopes give the same number when they are asked
for one. -/
theorem number_congr (term : Term) (context : String) (line : Nat) :
    (number second term scope context line).run frames =
      (number first term scope context line).run frames :=
  run_bind_congr (keeps grounded inside term) (same grounded inside term)
    fun _ _ _ _ _ => rfl

/-- They apply values that remember live scopes alike. -/
theorem apply_congr {function : Value} (holds : frames.Holds function) (argument : Term)
    (line : Nat) :
    (apply second function argument scope line).run frames =
      (apply first function argument scope line).run frames := by
  cases function with
  | number value => rfl
  | closure parameter body captured =>
    apply run_bind_congr (keeps grounded inside argument) (same grounded inside argument)
    intro after value extended grounded argumentHolds
    apply run_bind_congr (keeps_bindName grounded (Frames.Live.extend holds extended) parameter
      argumentHolds) rfl
    intro last inner further grounded within
    exact same grounded within body
  | builtin operator =>
    cases operator with
    | unary operator =>
      exact run_bind_congr (keeps_number keeps grounded inside argument operator.name line)
        (number_congr keeps same grounded inside argument operator.name line)
        fun _ _ _ _ _ => rfl
    | binary operator => rfl
  | awaiting operator operand captured =>
    apply run_bind_congr (keeps_number keeps grounded holds operand operator.name line)
      (number_congr keeps same grounded holds operand operator.name line)
    intro after a extended grounded _
    exact run_bind_congr
      (keeps_number keeps grounded (inside.extend extended) argument operator.name line)
      (number_congr keeps same grounded (inside.extend extended) argument operator.name line)
      fun _ _ _ _ _ => rfl

omit keeps inside in
/-- They give a name the same value. -/
theorem identifier_congr (program : Program) (name : String) (line : Nat) :
    (identifier second program name line scope).run frames =
      (identifier first program name line scope).run frames := by
  have read : Keeps (fun after found => after = found) frames (get : Eval Frames) :=
    keeps_pure grounded rfl
  apply run_bind_congr read rfl
  rintro after _ extended grounded rfl
  cases after.find scope name with
  | bound value => rfl
  | endless => rfl
  | unbound =>
    cases defined : program.definition name with
    | none => rfl
    | some definition => exact same grounded grounded.root definition.body

/-- They bind definitions alike. -/
theorem bindAll_congr (definitions : List Definition) :
    (bindAll second definitions scope).run frames =
      (bindAll first definitions scope).run frames := by
  induction definitions generalizing frames scope with
  | nil => rfl
  | cons definition rest inductionHypothesis =>
    simp only [Eval.bindAll, List.foldlM_cons, bind_assoc]
    apply run_bind_congr (keeps grounded inside definition.body)
      (same grounded inside definition.body)
    intro after value extended grounded holds
    apply run_bind_congr
      (keeps_bindName grounded (inside.extend extended) definition.name holds) rfl
    intro last inner further grounded within
    exact inductionHypothesis grounded within

/-- They choose the same clause. -/
theorem choose_congr (value : Int) (clauses : List Clause) :
    (choose second value scope clauses).run frames =
      (choose first value scope clauses).run frames := by
  induction clauses generalizing frames with
  | nil => rfl
  | cons clause rest inductionHypothesis =>
    cases form : clause.pattern with
    | none => simp only [Eval.choose, form]
    | some pattern =>
      simp only [Eval.choose, form]
      apply run_bind_congr
        (keeps_number keeps grounded inside pattern "case pattern" clause.line)
        (number_congr keeps same grounded inside pattern "case pattern" clause.line)
      intro after candidate extended grounded _
      split
      · rfl
      · exact inductionHypothesis grounded (inside.extend extended)

/-- Whatever a node evaluates, it evaluates in a live scope of grounded frames. -/
theorem node_congr (program : Program) (term : Term) :
    (node second program term scope).run frames = (node first program term scope).run frames := by
  cases term with
  | number value line => rfl
  | builtin operator line => rfl
  | lambda parameter body line => rfl
  | identifier name line => exact identifier_congr same grounded program name line
  | application function argument line =>
    apply run_bind_congr (keeps grounded inside function) (same grounded inside function)
    intro after value extended grounded holds
    exact apply_congr keeps same grounded (inside.extend extended) holds argument line
  | conditional condition consequent alternative line =>
    apply run_bind_congr (keeps_number keeps grounded inside condition "if" line)
      (number_congr keeps same grounded inside condition "if" line)
    intro after decision extended grounded _
    split
    · exact same grounded (inside.extend extended) alternative
    · exact same grounded (inside.extend extended) consequent
  | selection scrutinee clauses line =>
    apply run_bind_congr (keeps_number keeps grounded inside scrutinee "case" line)
      (number_congr keeps same grounded inside scrutinee "case" line)
    intro after value extended grounded _
    have within := inside.extend extended
    apply run_bind_congr (keeps_choose keeps grounded within (nearestWhole value) clauses)
      (choose_congr keeps same grounded within (nearestWhole value) clauses)
    intro last chosen further grounded _
    cases chosen with
    | none => rfl
    | some clause => exact same grounded (within.extend further) clause.result
  | binding definitions body line =>
    apply run_bind_congr (keeps_bindAll keeps grounded inside definitions)
      (bindAll_congr keeps same grounded inside definitions)
    intro after inner extended grounded within
    exact same grounded within body

end Rules

end Eval

/-! ### Watched evaluation -/

open Classical in
/-- Evaluation that does `alarm` in place of a lookup that would come to a missing frame. -/
noncomputable def evaluateWatched (alarm : Eval Value) (program : Program) :
    Nat → Term → Scope → Eval Value
  | 0 => fun _ _ => throw .unfinished
  | budget + 1 => fun term scope => do
      if (← get).Misses term scope then alarm
      else Eval.node (evaluateWatched alarm program budget) program term scope

open Classical in
/-- The alarm is raised where a frame is missing. -/
theorem run_evaluateWatched_missing {frames : Frames} {term : Term} {scope : Scope}
    (misses : frames.Misses term scope) (alarm : Eval Value) (program : Program) (budget : Nat) :
    (evaluateWatched alarm program (budget + 1) term scope).run frames = alarm.run frames := by
  change (if frames.Misses term scope then alarm else _).run frames = _
  rw [if_pos misses]

open Classical in
/-- The alarm is not raised in a live scope: induction on the budget, since a node evaluates in
live scopes again. -/
theorem run_evaluateWatched {frames : Frames} {scope : Scope} (grounded : frames.Grounded)
    (inside : frames.Live scope) (alarm : Eval Value) (program : Program) (budget : Nat)
    (term : Term) :
    (evaluateWatched alarm program budget term scope).run frames =
      (evaluate program budget term scope).run frames := by
  induction budget generalizing frames scope term with
  | zero => rfl
  | succ budget same =>
    change (if frames.Misses term scope then alarm else _).run frames = _
    rw [if_neg (grounded.not_misses inside term)]
    exact Eval.node_congr (keeps_evaluate program budget) same grounded inside program term

/-- No alarm is raised during a call. It begins with the first frame alone, and binds its two
parameters one in the scope of the other. -/
theorem run_waveform_watched {frames : Frames} (rooted : frames.Rooted) (alarm : Eval Value)
    (program : Program) (budget : Nat) (name : String) (frequency time : Float) :
    (Eval.waveform (evaluateWatched alarm program budget) program name frequency time).run frames =
      (evaluateWaveform program budget name frequency time).run frames := by
  simp only [evaluateWaveform, Eval.waveform]
  rw [Eval.run_bind, Eval.run_bind, Eval.run_modify, rooted.release_one]
  have grounded := Frames.root_grounded
  cases program.definition name with
  | none => rfl
  | some definition =>
    dsimp only
    cases definition.body.asWaveform with
    | none => rfl
    | some waveform =>
      obtain ⟨frequencyName, timeName, body⟩ := waveform
      apply Eval.run_bind_congr (Eval.keeps_bindName grounded grounded.root frequencyName
        (Frames.root.holds_number frequency)) rfl
      intro first outer _ grounded live
      apply Eval.run_bind_congr
        (Eval.keeps_bindName grounded live timeName (first.holds_number time)) rfl
      intro second inner _ grounded live
      exact Eval.run_bind_congr (keeps_evaluate program budget grounded live body)
        (run_evaluateWatched grounded live alarm program budget body) fun _ _ _ _ _ => rfl

namespace Machine

/-- Evaluating a term, applying a value and asking for a number only add frames, in every live
scope of well-formed frames and however they end, provided that the first frame is in place.
They leave it in place and the frames well formed, and what they answer remembers a live scope.
The first frame is in place in every machine, whatever was done with it. Nor does any lookup
during a call come to a missing frame. An alarm is raised in place of such a lookup, and a call
with any alarm is the call itself. -/
theorem lookups_meet_live_frames (program : Program) (budget : Nat) :
    (∀ {frames : Frames} {scope : Scope}, frames.WellFormed → frames.Live rootScope →
      frames.Live scope → ∀ term : Term,
      Eval.Keeps Frames.Holds frames (evaluate program budget term scope) ∧
      (∀ (function : Value) (line : Nat), frames.Holds function →
        Eval.Keeps Frames.Holds frames
          (Eval.apply (evaluate program budget) function term scope line)) ∧
      ∀ (context : String) (line : Nat), Eval.Keeps (fun _ _ => True) frames
        (Eval.number (evaluate program budget) term scope context line)) ∧
    (∀ {frames : Frames} {term : Term} {scope : Scope}, frames.Misses term scope →
      ∀ alarm : Eval Value, (evaluateWatched alarm program (budget + 1) term scope).run frames =
        alarm.run frames) ∧
    ∀ (history : List Operation) (alarm : Eval Value) (name : String) (frequency time : Float),
      let machine := (start program).performAll history
      let watched := evaluateWatched alarm program budget
      machine.frames.Live rootScope ∧
      machine.run (Eval.waveform watched program name frequency time) =
        machine.call budget name frequency time := by
  refine ⟨?_, ?_, ?_⟩
  · intro frames scope wellFormed root live term
    have grounded : frames.Grounded := ⟨wellFormed, root⟩
    have keeps : ∀ {frames scope}, frames.Grounded → frames.Live scope → ∀ term,
        Eval.Keeps Frames.Holds frames (evaluate program budget term scope) :=
      keeps_evaluate program budget
    exact ⟨keeps grounded live term,
      fun function line holds => Eval.keeps_apply keeps grounded live holds term line,
      fun context line => Eval.keeps_number keeps grounded live term context line⟩
  · intro frames term scope misses alarm
    exact run_evaluateWatched_missing misses alarm program budget
  · intro history alarm name frequency time machine
    have rooted : machine.frames.Rooted :=
      performAll_rooted (start program) history Frames.root_rooted
    have same : machine.program = program := performAll_program (start program) history
    constructor
    · exact Frames.root_grounded.root.extend rooted
    · simp only [call, run, same]
      rw [run_waveform_watched rooted]

/-- `(\a. \b. a) 1` answers a function that remembers the frame of `a`, the second one. -/
theorem lookups_meet_live_frames_remembered :
    let term : Term := .application
      (.lambda "a" (.lambda "b" (.identifier "a" 1) 1) 1) (.number 1 1) 1
    let remembered : Value := .closure "b" (.identifier "a" 1) (some 1)
    let outcome := (evaluate (.ofStatements []) 3 term rootScope).run Frames.root
    outcome.1 = .ok remembered ∧ Eval.Leaves Frames.Holds Frames.root outcome ∧
      ¬ Frames.root.Holds remembered := by
  intro term remembered outcome
  refine ⟨rfl, ?_, ?_⟩
  · exact ((lookups_meet_live_frames (.ofStatements []) 3).1 Frames.root_grounded.toWellFormed
      Frames.root_grounded.root Frames.root_grounded.root term).1
  · intro holds
    exact absurd (holds 1 rfl) (by decide)

end Machine

end Timbre
