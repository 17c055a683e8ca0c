import Timbre.Machine
import Timbre.Proofs.Growth

/-!
# Machines can be used again

A machine may have bound names, evaluated terms, applied values and driven
definitions, with scopes of any age, and each of these may have failed midway.
The next call on it still gives what it would give on a new machine, and leaves
the frames that it would leave there.

The invariant behind this is that the first frame is never removed or changed.
Evaluation only adds frames, and a call releases all frames but the first.
-/

namespace Timbre

/-- The first frame binds the circle constant in the empty scope. -/
def Frames.Rooted (frames : Frames) : Prop := Frames.root.Extends frames

namespace Frames

/-- The root frame is in place at the beginning. -/
theorem root_rooted : Frames.root.Rooted := extends_refl _

/-- The first frame stays where frames are only added. -/
theorem Rooted.extend {before after : Frames} (rooted : before.Rooted)
    (extended : before.Extends after) : after.Rooted :=
  Extends.trans rooted extended

/-- Releasing all frames but the first leaves the frames of a new machine. -/
theorem Rooted.release_one {frames : Frames} (rooted : frames.Rooted) :
    frames.release 1 = Frames.root :=
  Extends.release_size rooted

end Frames

/-- A call releases the frames of earlier work before it reads any of them, so
what they were makes no difference to its result or to the frames after it. -/
theorem run_evaluateWaveform_rooted {frames : Frames} (rooted : frames.Rooted)
    (program : Program) (budget : Nat) (name : String) (frequency time : Float) :
    (evaluateWaveform program budget name frequency time).run frames =
      (evaluateWaveform program budget name frequency time).run Frames.root := by
  simp only [evaluateWaveform, Eval.waveform]
  rw [Eval.run_bind, Eval.run_bind, Eval.run_modify, Eval.run_modify]
  rw [rooted.release_one, Frames.root_rooted.release_one]

/-- A call keeps the first frame. It is the one operation that removes frames;
what follows the release only adds to the frames of a new machine. -/
theorem rooted_evaluateWaveform {frames : Frames} (rooted : frames.Rooted)
    (program : Program) (budget : Nat) (name : String) (frequency time : Float) :
    Frames.Rooted ((evaluateWaveform program budget name frequency time).run frames).2 := by
  simp only [evaluateWaveform, Eval.waveform]
  rw [Eval.run_bind, Eval.run_modify, rooted.release_one]
  refine Frames.root_rooted.extend ?_
  cases found : program.definition name with
  | none => exact Eval.grows_raise _ Frames.root
  | some definition =>
    cases form : definition.body.asWaveform with
    | none => simpa only [form] using Eval.grows_raise _ Frames.root
    | some waveform =>
      obtain ⟨frequencyName, timeName, body⟩ := waveform
      simp only [form]
      exact Eval.grows_inherited.drive (fun kind => Eval.grows_raise _) program budget
        frequencyName timeName body frequency time Frames.root

namespace Machine

/-- Something that can be done with a machine. Scopes, terms and values are
arbitrary: they may come from this machine, at any time, or from elsewhere. -/
inductive Operation where
  | bind (scope : Scope) (name : String) (value : Value)
  | eval (budget : Nat) (term : Term) (scope : Scope)
  | number (budget : Nat) (term : Term) (scope : Scope) (context : String) (line : Nat)
  | apply (budget : Nat) (function : Value) (argument : Term) (scope : Scope) (line : Nat)
  | call (budget : Nat) (name : String) (frequency time : Float)

/-- The machine after an operation, whatever its result was. -/
def perform (machine : Machine) : Operation → Machine
  | .bind scope name value => (machine.bind scope name value).2
  | .eval budget term scope => (machine.eval budget term scope).2
  | .number budget term scope context line =>
      (machine.number budget term scope context line).2
  | .apply budget function argument scope line =>
      (machine.apply budget function argument scope line).2
  | .call budget name frequency time => (machine.call budget name frequency time).2

/-- An operation leaves the program. -/
theorem perform_program (machine : Machine) (operation : Operation) :
    (machine.perform operation).program = machine.program := by
  cases operation <;> rfl

/-- No operation removes or changes the first frame. -/
theorem perform_rooted (machine : Machine) (operation : Operation)
    (rooted : machine.frames.Rooted) : (machine.perform operation).frames.Rooted := by
  cases operation with
  | bind scope name value =>
    exact rooted.extend (machine.frames.extends_bind scope name value)
  | eval budget term scope =>
    exact rooted.extend (grows_evaluate machine.program budget term scope machine.frames)
  | number budget term scope context line =>
    have grows := Eval.grows_number (grows_evaluate machine.program budget)
      term scope context line
    exact rooted.extend (grows machine.frames)
  | apply budget function argument scope line =>
    have grows := Eval.grows_apply (grows_evaluate machine.program budget)
      function argument scope line
    exact rooted.extend (grows machine.frames)
  | call budget name frequency time =>
    exact rooted_evaluateWaveform rooted machine.program budget name frequency time

/-- The machine after operations in order. -/
def performAll (machine : Machine) (history : List Operation) : Machine :=
  history.foldl perform machine

/-- Operations leave the program. -/
theorem performAll_program (machine : Machine) (history : List Operation) :
    (machine.performAll history).program = machine.program := by
  induction history generalizing machine with
  | nil => rfl
  | cons operation rest inductionHypothesis =>
    exact (inductionHypothesis (machine.perform operation)).trans
      (machine.perform_program operation)

/-- Operations leave the first frame in place. -/
theorem performAll_rooted (machine : Machine) (history : List Operation)
    (rooted : machine.frames.Rooted) : (machine.performAll history).frames.Rooted := by
  induction history generalizing machine with
  | nil => exact rooted
  | cons operation rest inductionHypothesis =>
    exact inductionHypothesis (machine.perform operation)
      (machine.perform_rooted operation rooted)

/-- A call on a machine whose first frame is in place has the result and the
machine afterwards that it would have on a new one. -/
theorem call_rooted (machine : Machine) (rooted : machine.frames.Rooted)
    (budget : Nat) (name : String) (frequency time : Float) :
    machine.call budget name frequency time =
      (start machine.program).call budget name frequency time := by
  simp only [call, run, start]
  rw [run_evaluateWaveform_rooted rooted]

/-- After any operations on it, successful or not, a machine answers a call as a
new one does, and its frames afterwards are those of the new one. -/
theorem call_after_operations (program : Program) (history : List Operation)
    (budget : Nat) (name : String) (frequency time : Float) :
    ((start program).performAll history).call budget name frequency time =
      (start program).call budget name frequency time := by
  have rooted : ((start program).performAll history).frames.Rooted :=
    performAll_rooted (start program) history Frames.root_rooted
  rw [call_rooted _ rooted, performAll_program]
  rfl

end Machine

end Timbre
