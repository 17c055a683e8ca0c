import Timbre.Fault
import Timbre.Frames
import Timbre.Program

/-!
# Evaluation

Arguments are evaluated before they are bound. A name is looked up in its scope
first and among the program's definitions second; a definition is evaluated anew
at each use, in the root scope, which knows only the circle constant.

Conditions, scrutinees and patterns are compared by their nearest whole numbers.
Patterns are evaluated one after another, and the first clause whose pattern
agrees is taken.

Evaluation works on the frames and leaves them extended, whether it succeeds or
fails. The rules below are given for one node, over the evaluator of smaller or
later terms; the evaluator with a budget ties them together and allows as many
evaluations inside one another as the budget says.
-/

namespace Timbre

/-- Work that may extend the frames and may fail; the frames outlive a
failure. -/
abbrev Eval (α : Type) := ExceptT Failure (StateM Frames) α

/-- The name of the circle constant. -/
def circleConstantName : String := "pi"

/-- The ratio of a circle's circumference to its diameter. -/
def circleConstant : Float := 3.141592653589793

/-- The scope of definitions: the first frame. -/
def rootScope : Scope := some 0

/-- The first frame alone. -/
def Frames.root : Frames :=
  (Frames.empty.bind none circleConstantName (.number circleConstant)).2

namespace Eval

variable {α : Type}

/-- Fail because of a mistake of the program. -/
def raise (reason : Fault) : Eval α := throw (.fault reason)

/-- Extend a scope by a binding. -/
def bindName (scope : Scope) (name : String) (value : Value) : Eval Scope :=
  modifyGet fun frames => frames.bind scope name value

/-! ### Rules for one node -/

variable (evaluate : Term → Scope → Eval Value)

/-- The number that a term stands for; `context` says who asks. -/
def number (term : Term) (scope : Scope) (context : String) (line : Nat) : Eval Float := do
  match ← evaluate term scope with
  | .number value => return value
  | value => raise (.expectedNumber context value.kind line)

/-- Apply a value to an argument. -/
def apply (function : Value) (argument : Term) (scope : Scope) (line : Nat) : Eval Value :=
  match function with
  | .closure parameter body captured => do
      let value ← evaluate argument scope
      let inner ← bindName captured parameter value
      evaluate body inner
  | .builtin (.unary operator) => do
      let x ← number evaluate argument scope operator.name line
      return .number (operator.apply x)
  | .builtin (.binary operator) => return .awaiting operator argument scope
  | .awaiting operator operand captured => do
      let a ← number evaluate operand captured operator.name line
      let b ← number evaluate argument scope operator.name line
      return .number (operator.apply a b)
  | .number _ => raise (.notApplicable function.kind line)

/-- The value of a name. -/
def identifier (program : Program) (name : String) (line : Nat) (scope : Scope) :
    Eval Value := do
  match (← get).find scope name with
  | .bound value => return value
  | .unbound =>
      match program.definition name with
      | some definition => evaluate definition.body rootScope
      | none => raise (.unknownIdentifier name line)
  | .endless => throw .unfinished

/-- Bind definitions one after another, each in the scope of those before it. -/
def bindAll (definitions : List Definition) (scope : Scope) : Eval Scope :=
  definitions.foldlM
    (fun scope definition => do
      bindName scope definition.name (← evaluate definition.body scope))
    scope

/-- The first clause that is taken for a whole number, if any. -/
def choose (value : Int) (scope : Scope) : List Clause → Eval (Option Clause)
  | [] => return none
  | clause :: rest =>
      match clause.pattern with
      | none => return some clause
      | some pattern => do
          let candidate ← number evaluate pattern scope "case pattern" clause.line
          if nearestWhole candidate = value then return some clause
          else choose value scope rest

/-- The value of a term. -/
def node (program : Program) (term : Term) (scope : Scope) : Eval Value :=
  match term with
  | .number value _ => return .number value
  | .builtin operator _ => return .builtin operator
  | .lambda parameter body _ => return .closure parameter body scope
  | .identifier name line => identifier evaluate program name line scope
  | .application function argument line => do
      let function ← evaluate function scope
      apply evaluate function argument scope line
  | .conditional condition consequent alternative line => do
      let decision ← number evaluate condition scope "if" line
      if nearestWhole decision = 0 then evaluate alternative scope
      else evaluate consequent scope
  | .selection scrutinee clauses line => do
      let value := nearestWhole (← number evaluate scrutinee scope "case" line)
      match ← choose evaluate value scope clauses with
      | some clause => evaluate clause.result scope
      | none => raise (.noMatchingClause value line)
  | .binding definitions body _ => do
      let inner ← bindAll evaluate definitions scope
      evaluate body inner

/-- The number that the first definition of a name gives for a frequency and a
time. All frames but the first are released before. -/
def waveform (program : Program) (name : String) (frequency time : Float) : Eval Float := do
  modify (·.release 1)
  match program.definition name with
  | none => raise (.unknownDefinition name)
  | some definition =>
      match definition.body.asWaveform with
      | none => raise (.notEvaluable name)
      | some (frequencyName, timeName, body) => do
          let scope ← bindName rootScope frequencyName (.number frequency)
          let scope ← bindName scope timeName (.number time)
          match ← evaluate body scope with
          | .number value => return value
          | value => raise (.nonNumericResult value.kind)

end Eval

/-- The value of a term in a scope, with at most `budget` evaluations inside one
another. -/
def evaluate (program : Program) : Nat → Term → Scope → Eval Value
  | 0 => fun _ _ => throw .unfinished
  | budget + 1 => Eval.node (evaluate program budget) program

/-- The number that a name gives for a frequency and a time. -/
def evaluateWaveform (program : Program) (budget : Nat) (name : String)
    (frequency time : Float) : Eval Float :=
  Eval.waveform (evaluate program budget) program name frequency time

end Timbre
