import Timbre.Fault
import Timbre.Evaluation

/-!
# Lexically scoped meaning

The meaning of terms without frames. An environment is a list of names with what
they stand for, the innermost first, and is never changed. A closure carries the
environment it was made in, and so does an operator that awaits its second
operand.

Arguments are evaluated before they are bound. The first operand of a binary
operator is kept as a term and evaluated whenever the second one arrives. A name
that the environment does not bind stands for the first definition of that name,
evaluated anew in the environment of the circle constant alone. The definitions
of a binding see only those before them, and of a conditional or a selection only
the branch that is taken is evaluated.
-/

namespace Timbre.Lexical

/-- What a term evaluates to. -/
inductive Meaning where
  | number (value : Float)
  | closure (parameter : String) (body : Term) (captured : List (String × Meaning))
  | builtin (operator : Builtin)
  /-- A binary operator that has its first operand. -/
  | awaiting (operator : BinaryBuiltin) (operand : Term) (captured : List (String × Meaning))

/-- Names with what they stand for, the innermost first. -/
abbrev Environment := List (String × Meaning)

/-- The type of a meaning. -/
def Meaning.kind : Meaning → Kind
  | number _ => .number
  | closure .. => .closure
  | builtin _ | awaiting .. => .builtin

/-- The innermost binding of a name. -/
def lookup (name : String) : Environment → Option Meaning
  | [] => none
  | (bound, meaning) :: outer => if bound = name then some meaning else lookup name outer

/-- The environment of definitions, which knows only the circle constant. -/
def root : Environment := [(circleConstantName, .number circleConstant)]

/-- Fail because of a mistake of the program. -/
def raise {α : Type} (reason : Fault) : Except Failure α := .error (.fault reason)

section Rules

variable (evaluate : Term → Environment → Except Failure Meaning)

/-- The number that a term stands for; `context` says who asks. -/
def number (term : Term) (environment : Environment) (context : String) (line : Nat) :
    Except Failure Float := do
  match ← evaluate term environment with
  | .number value => return value
  | meaning => raise (.expectedNumber context meaning.kind line)

/-- Apply a meaning to an argument. -/
def apply (function : Meaning) (argument : Term) (environment : Environment) (line : Nat) :
    Except Failure Meaning :=
  match function with
  | .closure parameter body captured => do
      let meaning ← evaluate argument environment
      evaluate body ((parameter, meaning) :: captured)
  | .builtin (.unary operator) => do
      let x ← number evaluate argument environment operator.name line
      return .number (operator.apply x)
  | .builtin (.binary operator) => return .awaiting operator argument environment
  | .awaiting operator operand captured => do
      let a ← number evaluate operand captured operator.name line
      let b ← number evaluate argument environment operator.name line
      return .number (operator.apply a b)
  | .number _ => raise (.notApplicable function.kind line)

/-- The meaning of a name. -/
def identifier (program : Program) (name : String) (line : Nat) (environment : Environment) :
    Except Failure Meaning :=
  match lookup name environment with
  | some meaning => return meaning
  | none =>
      match program.definition name with
      | some definition => evaluate definition.body root
      | none => raise (.unknownIdentifier name line)

/-- The environment with definitions added one after another. -/
def bindAll : List Definition → Environment → Except Failure Environment
  | [], environment => return environment
  | definition :: rest, environment => do
      let meaning ← evaluate definition.body environment
      bindAll rest ((definition.name, meaning) :: environment)

/-- The first clause that is taken for a whole number, if any. -/
def choose (value : Int) (environment : Environment) :
    List Clause → Except Failure (Option Clause)
  | [] => return none
  | clause :: rest =>
      match clause.pattern with
      | none => return some clause
      | some pattern => do
          let candidate ← number evaluate pattern environment "case pattern" clause.line
          if nearestWhole candidate = value then return some clause
          else choose value environment rest

end Rules

/-- The meaning of a term in an environment, with at most `budget` evaluations
inside one another. -/
def evaluate (program : Program) : Nat → Term → Environment → Except Failure Meaning
  | 0, _, _ => .error .unfinished
  | budget + 1, term, environment =>
      let inner := evaluate program budget
      match term with
      | .number value _ => return .number value
      | .builtin operator _ => return .builtin operator
      | .lambda parameter body _ => return .closure parameter body environment
      | .identifier name line => identifier inner program name line environment
      | .application function argument line => do
          let function ← inner function environment
          apply inner function argument environment line
      | .conditional condition consequent alternative line => do
          let decision ← number inner condition environment "if" line
          if nearestWhole decision = 0 then inner alternative environment
          else inner consequent environment
      | .selection scrutinee clauses line => do
          let value := nearestWhole (← number inner scrutinee environment "case" line)
          match ← choose inner value environment clauses with
          | some clause => inner clause.result environment
          | none => raise (.noMatchingClause value line)
      | .binding definitions body _ => do
          inner body (← bindAll inner definitions environment)

/-- The number that the first definition of a name gives for a frequency and a
time. -/
def call (program : Program) (budget : Nat) (name : String) (frequency time : Float) :
    Except Failure Float :=
  match program.definition name with
  | none => raise (.unknownDefinition name)
  | some definition =>
      match definition.body with
      | .lambda frequencyName (.lambda timeName body _) _ => do
          let environment := (timeName, .number time) :: (frequencyName, .number frequency) :: root
          match ← evaluate program budget body environment with
          | .number value => return value
          | meaning => raise (.nonNumericResult meaning.kind)
      | _ => raise (.notEvaluable name)

/-- A call by the shape that the program reads off the body: the two nested lambdas
that `call` asks for are the ones that `Term.asWaveform` finds. -/
theorem call_eq_asWaveform (program : Program) (budget : Nat) (name : String)
    (frequency time : Float) :
    call program budget name frequency time =
      (match program.definition name with
      | none => raise (.unknownDefinition name)
      | some definition =>
          match definition.body.asWaveform with
          | none => raise (.notEvaluable name)
          | some (frequencyName, timeName, body) => do
              let environment :=
                (timeName, .number time) :: (frequencyName, .number frequency) :: root
              match ← evaluate program budget body environment with
              | .number value => return value
              | meaning => raise (.nonNumericResult meaning.kind)) := by
  unfold call
  cases program.definition name with
  | none => rfl
  | some definition =>
    obtain ⟨_, body, _⟩ := definition
    dsimp only
    split
    · rfl
    · rename_i unlike
      have none : body.asWaveform = none := by
        unfold Term.asWaveform
        split
        · exact (unlike _ _ _ _ _ rfl).elim
        · rfl
      rw [none]

end Timbre.Lexical
