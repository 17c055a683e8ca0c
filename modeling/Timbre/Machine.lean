import Timbre.Evaluation

/-!
# Machines

A machine is a program with the frames that its evaluations have made so far.
Every operation gives its result and the machine after it. Scopes obtained from
a machine stay usable with it; whether they still mean the same depends on the
frames that were released in between.

A definition is driven as a waveform by `call`, which starts from the first frame
again.
-/

namespace Timbre

/-- A program and the frames of its evaluations. -/
structure Machine where
  program : Program
  frames : Frames

/-- The evaluations inside one another that are allowed unless another budget is
given. -/
def defaultBudget : Nat := 1000000

/-- What stands for a sample that cannot be computed. -/
def silence : Float := 0

namespace Machine

variable {α : Type}

/-- A machine that has evaluated nothing. -/
def start (program : Program) : Machine := ⟨program, Frames.root⟩

/-- Run an evaluation on the machine's frames. -/
def run (machine : Machine) (work : Eval α) : Except Failure α × Machine :=
  let (result, frames) := work.run machine.frames
  (result, { machine with frames })

/-- Extend a scope by a binding. -/
def bind (machine : Machine) (scope : Scope) (name : String) (value : Value) :
    Scope × Machine :=
  let (inner, frames) := machine.frames.bind scope name value
  (inner, { machine with frames })

/-- Evaluate a term in a scope. -/
def eval (machine : Machine) (budget : Nat) (term : Term) (scope : Scope) :
    Except Failure Value × Machine :=
  machine.run (evaluate machine.program budget term scope)

/-- Evaluate a term in a scope to a number; `context` says who asks. -/
def number (machine : Machine) (budget : Nat) (term : Term) (scope : Scope)
    (context : String) (line : Nat) : Except Failure Float × Machine :=
  machine.run (Eval.number (evaluate machine.program budget) term scope context line)

/-- Apply a value to an argument. -/
def apply (machine : Machine) (budget : Nat) (function : Value) (argument : Term)
    (scope : Scope) (line : Nat) : Except Failure Value × Machine :=
  machine.run (Eval.apply (evaluate machine.program budget) function argument scope line)

/-- Drive a definition as a waveform. -/
def call (machine : Machine) (budget : Nat) (name : String) (frequency time : Float) :
    Except Failure Float × Machine :=
  machine.run (evaluateWaveform machine.program budget name frequency time)

end Machine

namespace Program

/-- The value of a term in the root scope of a new machine. -/
def evaluateTerm (program : Program) (budget : Nat) (term : Term) : Except Failure Value :=
  ((Machine.start program).eval budget term rootScope).1

/-- Drive a definition as a waveform, on a new machine. -/
def call (program : Program) (budget : Nat) (name : String) (frequency time : Float) :
    Except Failure Float :=
  ((Machine.start program).call budget name frequency time).1

/-- The sample of a definition, silent where the definition fails. -/
def sample (program : Program) (budget : Nat) (name : String) (frequency time : Float) :
    Float :=
  match program.call budget name frequency time with
  | .ok value => value
  | .error _ => silence

end Program

end Timbre
