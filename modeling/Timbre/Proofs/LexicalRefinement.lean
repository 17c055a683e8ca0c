import Timbre.Proofs.Lexical
import Timbre.Proofs.Reuse

/-!
# Frames implement lexical scoping

A scope represents an environment when its frame holds the first binding and the
frame's own scope represents the others. Bound values agree with their meanings
up to this representation, so the two notions are defined together. Frames that
are added later disturb neither.

Each rule of evaluation over frames answers as its lexical counterpart does: with
values that agree, or with the same failure. By induction on the budget so does
the evaluator, and a call therefore gives the number or the failure that lexical
scoping prescribes.
-/

namespace Timbre

open Lexical (Meaning Environment)

mutual

/-- A value is a meaning whose environments are given by scopes. -/
inductive Agrees (frames : Frames) : Value → Meaning → Prop where
  | number (value : Float) : Agrees frames (.number value) (.number value)
  | builtin (operator : Builtin) : Agrees frames (.builtin operator) (.builtin operator)
  | closure {scope : Scope} {environment : Environment} (parameter : String) (body : Term)
      (represented : Represents frames scope environment) :
      Agrees frames (.closure parameter body scope) (.closure parameter body environment)
  | awaiting {scope : Scope} {environment : Environment} (operator : BinaryBuiltin)
      (operand : Term) (represented : Represents frames scope environment) :
      Agrees frames (.awaiting operator operand scope) (.awaiting operator operand environment)

/-- A scope sees exactly the bindings of an environment. Each frame extends an
older one, so that the walk outward ends. -/
inductive Represents (frames : Frames) : Scope → Environment → Prop where
  | empty : Represents frames none []
  | bound {number : Nat} {frame : Frame} {meaning : Meaning} {environment : Environment}
      (stored : frames.row[number]? = some frame)
      (older : ∀ outer ∈ frame.parent, outer < number)
      (agrees : Agrees frames frame.value meaning)
      (rest : Represents frames frame.parent environment) :
      Represents frames (some number) ((frame.name, meaning) :: environment)

end

mutual

/-- Agreement does not depend on frames that are added later. -/
theorem Agrees.extend {before after : Frames} (extended : before.Extends after) :
    ∀ {value : Value} {meaning : Meaning},
      Agrees before value meaning → Agrees after value meaning
  | _, _, .number value => .number value
  | _, _, .builtin operator => .builtin operator
  | _, _, .closure parameter body represented =>
      .closure parameter body (represented.extend extended)
  | _, _, .awaiting operator operand represented =>
      .awaiting operator operand (represented.extend extended)

/-- A scope keeps seeing the same bindings while frames are added. -/
theorem Represents.extend {before after : Frames} (extended : before.Extends after) :
    ∀ {scope : Scope} {environment : Environment},
      Represents before scope environment → Represents after scope environment
  | _, _, .empty => .empty
  | _, _, .bound stored older agrees rest =>
      .bound (extended.stored stored) older (agrees.extend extended) (rest.extend extended)

end

variable {frames : Frames} {scope : Scope} {environment : Environment}
  {value : Value} {meaning : Meaning}

/-- A scope that represents an environment is the empty one or a frame that is
there. -/
theorem Represents.inside (represented : Represents frames scope environment) :
    ∀ number ∈ scope, number < frames.size := by
  cases represented with
  | empty => simp
  | bound stored older agrees rest =>
    obtain ⟨inside, _⟩ := Array.getElem?_eq_some_iff.mp stored
    simpa [Frames.size] using inside

/-- A new frame on a scope represents the environment with one more binding. -/
theorem Represents.bind (represented : Represents frames scope environment) (name : String)
    (agrees : Agrees frames value meaning) :
    Represents (frames.bind scope name value).2 (some frames.size)
      ((name, meaning) :: environment) := by
  have extended := frames.extends_bind scope name value
  exact .bound (frames.bind_stored scope name value) represented.inside
    (agrees.extend extended) (represented.extend extended)

/-- The walk outward finds what the environment binds, provided that it may take
more steps than the number of its first frame. The environment grows shorter with
each frame, and the bound on the steps follows the frame numbers. -/
theorem Represents.walk (represented : Represents frames scope environment) (name : String)
    (steps : Nat) (enough : ∀ number ∈ scope, number < steps) :
    (frames.walk name (steps + 1) scope = .unbound ∧ Lexical.lookup name environment = none) ∨
      ∃ value meaning, frames.walk name (steps + 1) scope = .bound value ∧
        Lexical.lookup name environment = some meaning ∧ Agrees frames value meaning := by
  induction environment generalizing scope steps with
  | nil =>
    cases represented
    exact .inl ⟨rfl, rfl⟩
  | cons binding outer inductionHypothesis =>
    cases represented with
    | @bound number frame meaning environment stored older agrees rest =>
      by_cases same : frame.name = name
      · refine .inr ⟨frame.value, meaning, ?_, ?_, agrees⟩
        · simp [Frames.walk, stored, same]
        · simp [Lexical.lookup, same]
      · have bound : number < steps := enough number rfl
        obtain ⟨fewer, rfl⟩ : ∃ fewer, steps = fewer + 1 := ⟨steps - 1, by omega⟩
        have enoughOuter : ∀ outer ∈ frame.parent, outer < fewer := by
          intro outer member
          have below := older outer member
          omega
        simpa [Frames.walk, stored, same, Lexical.lookup] using
          inductionHypothesis rest fewer enoughOuter

/-- Looking for a name over frames and in the environment gives the same. -/
theorem Represents.find (represented : Represents frames scope environment) (name : String) :
    (frames.find scope name = .unbound ∧ Lexical.lookup name environment = none) ∨
      ∃ value meaning, frames.find scope name = .bound value ∧
        Lexical.lookup name environment = some meaning ∧ Agrees frames value meaning :=
  represented.walk name frames.size represented.inside

/-- The root scope represents the root environment for as long as the first
frame is in place. -/
theorem Frames.Rooted.represents (rooted : frames.Rooted) :
    Represents frames rootScope Lexical.root := by
  have stored : Frames.root.row[0]? =
      some ⟨circleConstantName, .number circleConstant, none⟩ := rfl
  exact .bound (Extends.stored rooted stored) (by simp) (.number circleConstant) .empty

namespace Eval

variable {α β γ δ : Type}

/-- Work over frames answers as a computation without frames does: both succeed
with results that `relation` holds of, in the frames afterwards, or both fail for
the same reason. -/
def Simulates (relation : Frames → α → β → Prop) (frames : Frames) (work : Eval α)
    (answer : Except Failure β) : Prop :=
  match (work.run frames : Except Failure α × Frames), answer with
  | (.ok value, after), .ok meaning => relation after value meaning
  | (.error reason, _), .error expected => reason = expected
  | _, _ => False

variable {relation : Frames → α → β → Prop}

/-- Related results simulate one another. -/
theorem simulates_pure {value : α} {meaning : β} (holds : relation frames value meaning) :
    Simulates relation frames (pure value) (pure meaning) := holds

/-- The same fault is raised on both sides. -/
theorem simulates_raise (reason : Fault) :
    Simulates relation frames (raise reason) (Lexical.raise reason) := rfl

/-- A budget that is spent is spent on both sides. -/
theorem simulates_unfinished :
    Simulates relation frames (throw .unfinished) (.error .unfinished) := rfl

/-- Simulation is put together from parts. The second part starts in frames that
extend those of the first, so what was represented there still is. -/
theorem Simulates.bind {next : α → Eval γ} {answer : Except Failure β}
    {resume : β → Except Failure δ} {later : Frames → γ → δ → Prop} {work : Eval α}
    (first : Simulates relation frames work answer) (grows : work.Grows)
    (second : ∀ after value meaning, frames.Extends after → relation after value meaning →
      Simulates later after (next value) (resume meaning)) :
    Simulates later frames (work >>= next) (answer >>= resume) := by
  have extended := grows frames
  unfold Simulates at first ⊢
  rw [run_bind]
  cases outcome : (work.run frames : Except Failure α × Frames) with
  | mk result after =>
    rw [outcome] at first extended
    cases result with
    | error reason =>
      cases answer with
      | error expected => exact first
      | ok meaning => exact first.elim
    | ok value =>
      cases answer with
      | error expected => exact first.elim
      | ok meaning => exact second after value meaning extended first

/-- Reading the frames leaves them as they are. -/
theorem simulates_get {next : Frames → Eval α} {answer : Except Failure β}
    (simulates : Simulates relation frames (next frames) answer) :
    Simulates relation frames (get >>= next) answer := simulates

/-- What follows a change of the frames starts in the changed ones. -/
theorem simulates_modify {change : Frames → Frames} {next : PUnit → Eval α}
    {answer : Except Failure β}
    (simulates : Simulates relation (change frames) (next ⟨⟩) answer) :
    Simulates relation frames (modify change >>= next) answer := simulates

/-- After a name is bound, the work goes on in a scope that represents the
environment with that binding in front. -/
theorem simulates_bindName {next : Scope → Eval α} {answer : Except Failure β}
    (represented : Represents frames scope environment) (name : String)
    (agrees : Agrees frames value meaning)
    (continued : ∀ after inner, frames.Extends after →
      Represents after inner ((name, meaning) :: environment) →
        Simulates relation after (next inner) answer) :
    Simulates relation frames (bindName scope name value >>= next) answer :=
  continued (frames.bind scope name value).2 (some frames.size)
    (frames.extends_bind scope name value) (represented.bind name agrees)

end Eval

/-- An evaluator over frames answers as one over environments does, wherever the
scope represents the environment and the first frame is in place. -/
structure Refines (evaluate : Term → Scope → Eval Value)
    (reference : Term → Environment → Except Failure Meaning) : Prop where
  grows : ∀ term scope, (evaluate term scope).Grows
  simulates : ∀ {frames scope environment}, frames.Rooted →
    Represents frames scope environment → ∀ term,
      Eval.Simulates Agrees frames (evaluate term scope) (reference term environment)

namespace Refines

variable {evaluate : Term → Scope → Eval Value}
  {reference : Term → Environment → Except Failure Meaning}

/-! ### The rules for one node

The rules are compared one by one, over evaluators that are known to agree. -/

/-- Asking for a number simulates: the two numbers are equal, or the same fault is
raised. -/
theorem number (refines : Refines evaluate reference) (rooted : frames.Rooted)
    (represented : Represents frames scope environment) (term : Term) (context : String)
    (line : Nat) :
    Eval.Simulates (fun _ found expected => found = expected) frames
      (Eval.number evaluate term scope context line)
      (Lexical.number reference term environment context line) := by
  apply (refines.simulates rooted represented term).bind (refines.grows term scope)
  intro after value meaning extended agrees
  cases agrees with
  | number value => exact Eval.simulates_pure rfl
  | builtin operator => exact Eval.simulates_raise _
  | closure parameter body captured => exact Eval.simulates_raise _
  | awaiting operator operand captured => exact Eval.simulates_raise _

/-- An application simulates. A closure is applied in the scope that it remembers, and
an operand that was kept is evaluated in its own. -/
theorem apply (refines : Refines evaluate reference) (rooted : frames.Rooted)
    (represented : Represents frames scope environment) (function : Agrees frames value meaning)
    (argument : Term) (line : Nat) :
    Eval.Simulates Agrees frames (Eval.apply evaluate value argument scope line)
      (Lexical.apply reference meaning argument environment line) := by
  cases function with
  | number value => exact Eval.simulates_raise _
  | @closure captured outer parameter body capturing =>
    apply (refines.simulates rooted represented argument).bind (refines.grows argument scope)
    intro after value meaning extended agrees
    apply Eval.simulates_bindName (capturing.extend extended) parameter agrees
    intro last inner further within
    exact refines.simulates ((rooted.extend extended).extend further) within body
  | builtin operator =>
    cases operator with
    | unary operator =>
      apply (refines.number rooted represented argument operator.name line).bind
        (Eval.grows_number refines.grows argument scope operator.name line)
      rintro after x _ extended rfl
      exact Eval.simulates_pure (.number _)
    | binary operator => exact Eval.simulates_pure (.awaiting operator argument represented)
  | @awaiting captured outer operator operand capturing =>
    -- The stored operand is evaluated first, in the scope it was met in.
    apply (refines.number rooted capturing operand operator.name line).bind
      (Eval.grows_number refines.grows operand captured operator.name line)
    rintro after a _ extended rfl
    apply (refines.number (rooted.extend extended) (represented.extend extended) argument
      operator.name line).bind
      (Eval.grows_number refines.grows argument scope operator.name line)
    rintro last b _ further rfl
    exact Eval.simulates_pure (.number _)

/-- The value of a name simulates its meaning: both are found in the same binding, in
the definition, or not at all. -/
theorem identifier (refines : Refines evaluate reference) (rooted : frames.Rooted)
    (represented : Represents frames scope environment) (program : Program) (name : String)
    (line : Nat) :
    Eval.Simulates Agrees frames (Eval.identifier evaluate program name line scope)
      (Lexical.identifier reference program name line environment) := by
  apply Eval.simulates_get
  unfold Lexical.identifier
  obtain ⟨unbound, missing⟩ | ⟨value, meaning, bound, known, agrees⟩ := represented.find name
  · simp only [unbound, missing]
    cases found : program.definition name with
    | none => exact Eval.simulates_raise _
    | some definition => exact refines.simulates rooted rooted.represents definition.body
  · simp only [bound, known]
    exact Eval.simulates_pure agrees

/-- Binding definitions simulates; the scope after it represents the environment after
it. -/
theorem bindAll (refines : Refines evaluate reference) (rooted : frames.Rooted)
    (represented : Represents frames scope environment) (definitions : List Definition) :
    Eval.Simulates Represents frames (Eval.bindAll evaluate definitions scope)
      (Lexical.bindAll reference definitions environment) := by
  induction definitions generalizing frames scope environment with
  | nil => exact Eval.simulates_pure represented
  | cons definition rest inductionHypothesis =>
    simp only [Eval.bindAll, List.foldlM_cons, bind_assoc]
    apply (refines.simulates rooted represented definition.body).bind
      (refines.grows definition.body scope)
    intro after value meaning extended agrees
    apply Eval.simulates_bindName (represented.extend extended) definition.name agrees
    intro last inner further within
    exact inductionHypothesis ((rooted.extend extended).extend further) within

/-- The choice of a clause simulates: the same clause is chosen. -/
theorem choose (refines : Refines evaluate reference) (rooted : frames.Rooted)
    (represented : Represents frames scope environment) (target : Int) (clauses : List Clause) :
    Eval.Simulates (fun _ found expected => found = expected) frames
      (Eval.choose evaluate target scope clauses)
      (Lexical.choose reference target environment clauses) := by
  induction clauses generalizing frames with
  | nil => exact Eval.simulates_pure rfl
  | cons clause rest inductionHypothesis =>
    unfold Eval.choose Lexical.choose
    cases form : clause.pattern with
    | none => exact Eval.simulates_pure rfl
    | some pattern =>
      apply (refines.number rooted represented pattern "case pattern" clause.line).bind
        (Eval.grows_number refines.grows pattern scope "case pattern" clause.line)
      rintro after candidate _ extended rfl
      split
      · exact Eval.simulates_pure rfl
      · exact inductionHypothesis (rooted.extend extended) (represented.extend extended)

end Refines

/-- The two evaluators agree for every budget. The budget is spent alike on both
sides, because the rule for a node uses the smaller evaluator in the same
places. -/
theorem refines_evaluate (program : Program) (budget : Nat) :
    Refines (evaluate program budget) (Lexical.evaluate program budget) := by
  induction budget with
  | zero => exact ⟨grows_evaluate program 0, fun _ _ _ => Eval.simulates_unfinished⟩
  | succ budget refines =>
    refine ⟨grows_evaluate program (budget + 1), ?_⟩
    intro frames scope environment rooted represented term
    cases term with
    | number value line => exact Eval.simulates_pure (.number value)
    | builtin operator line => exact Eval.simulates_pure (.builtin operator)
    | lambda parameter body line =>
      exact Eval.simulates_pure (.closure parameter body represented)
    | identifier name line => exact refines.identifier rooted represented program name line
    | application function argument line =>
      apply (refines.simulates rooted represented function).bind (refines.grows function scope)
      intro after value meaning extended agrees
      exact refines.apply (rooted.extend extended) (represented.extend extended) agrees
        argument line
    | conditional condition consequent alternative line =>
      apply (refines.number rooted represented condition "if" line).bind
        (Eval.grows_number refines.grows condition scope "if" line)
      rintro after decision _ extended rfl
      have continued := refines.simulates (rooted.extend extended) (represented.extend extended)
      split
      · exact continued alternative
      · exact continued consequent
    | selection scrutinee clauses line =>
      apply (refines.number rooted represented scrutinee "case" line).bind
        (Eval.grows_number refines.grows scrutinee scope "case" line)
      rintro after value _ extended rfl
      apply (refines.choose (rooted.extend extended) (represented.extend extended)
        (nearestWhole value) clauses).bind
        (Eval.grows_choose refines.grows (nearestWhole value) scope clauses)
      rintro last chosen _ further rfl
      cases chosen with
      | none => exact Eval.simulates_raise _
      | some clause =>
        exact refines.simulates ((rooted.extend extended).extend further)
          ((represented.extend extended).extend further) clause.result
    | binding definitions body line =>
      apply (refines.bindAll rooted represented definitions).bind
        (Eval.grows_bindAll refines.grows definitions scope)
      intro after inner environment extended within
      exact refines.simulates (rooted.extend extended) within body

/-- Driving a definition over rooted frames simulates the lexical call. Releasing
the other frames leaves the root alone, and the two parameters are bound on top of
it. -/
theorem simulates_evaluateWaveform (rooted : frames.Rooted) (program : Program)
    (budget : Nat) (name : String) (frequency time : Float) :
    Eval.Simulates (fun _ found expected => found = expected) frames
      (evaluateWaveform program budget name frequency time)
      (Lexical.call program budget name frequency time) := by
  apply Eval.simulates_modify
  rw [rooted.release_one]
  rw [Lexical.call_eq_asWaveform]
  cases found : program.definition name with
  | none => exact Eval.simulates_raise _
  | some definition =>
    dsimp only
    cases form : definition.body.asWaveform with
    | none => exact Eval.simulates_raise _
    | some waveform =>
      obtain ⟨frequencyName, timeName, body⟩ := waveform
      apply Eval.simulates_bindName Frames.root_rooted.represents frequencyName
        (.number frequency)
      intro first outer extended represented
      apply Eval.simulates_bindName represented timeName (.number time)
      intro second inner further within
      have rooted := (Frames.root_rooted.extend extended).extend further
      apply ((refines_evaluate program budget).simulates rooted within body).bind
        (grows_evaluate program budget body inner)
      intro last value meaning _ agrees
      cases agrees with
      | number value => exact Eval.simulates_pure rfl
      | builtin operator => exact Eval.simulates_raise _
      | closure parameter body captured => exact Eval.simulates_raise _
      | awaiting operator operand captured => exact Eval.simulates_raise _

/-- Where results are compared by equality, simulation makes the answers equal. -/
theorem Eval.Simulates.eq {α : Type} {work : Eval α} {answer : Except Failure α}
    (simulates : Simulates (fun _ found expected => found = expected) frames work answer) :
    (work.run frames : Except Failure α × Frames).1 = answer := by
  unfold Simulates at simulates
  cases outcome : (work.run frames : Except Failure α × Frames) with
  | mk result after =>
    rw [outcome] at simulates
    cases result <;> cases answer <;> simp_all

namespace Machine

/-- A call on a machine whose first frame is in place gives what lexical scoping
prescribes. -/
theorem call_rooted_lexical (machine : Machine) (rooted : machine.frames.Rooted)
    (budget : Nat) (name : String) (frequency time : Float) :
    (machine.call budget name frequency time).1 =
      Lexical.call machine.program budget name frequency time :=
  (simulates_evaluateWaveform rooted machine.program budget name frequency time).eq

/-- A call gives the number or the failure that lexical scoping prescribes, with
the same name, context, value and line in the failure, for every program, every
budget and every input, on a new machine and after any operations on it. -/
theorem call_lexical (program : Program) (history : List Operation) (budget : Nat)
    (name : String) (frequency time : Float) :
    (((start program).performAll history).call budget name frequency time).1 =
      Lexical.call program budget name frequency time := by
  have rooted : ((start program).performAll history).frames.Rooted :=
    performAll_rooted (start program) history Frames.root_rooted
  rw [call_rooted_lexical _ rooted, performAll_program]
  rfl

end Machine

end Timbre
