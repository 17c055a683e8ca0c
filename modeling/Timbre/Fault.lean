import Timbre.Value

/-!
# Faults and the log

A fault is a mistake of the program that evaluation ran into. Evaluation can
also end without a result because its budget is spent; that is kept apart,
since a larger budget may still lead to a value or a fault.

What the library has to say while it works is data as well: each operation that
logs returns its records in order, and whoever called it decides what becomes of
them.
-/

namespace Timbre

/-! ### Faults -/

/-- A mistake that evaluation ran into. -/
inductive Fault where
  | unknownIdentifier (name : String) (line : Nat)
  | expectedNumber (context : String) (found : Kind) (line : Nat)
  | notApplicable (found : Kind) (line : Nat)
  | noMatchingClause (value : Int) (line : Nat)
  | unknownDefinition (name : String)
  | notEvaluable (name : String)
  | nonNumericResult (found : Kind)
  deriving DecidableEq, Repr

namespace Fault

/-- The opening of a message about a line. -/
def onLine (line : Nat) : String := "Error on line " ++ toString line ++ ": "

/-- The text of a message. -/
def message : Fault → String
  | unknownIdentifier name line => onLine line ++ "Unknown identifier '" ++ name ++ "'."
  | expectedNumber context found line =>
      onLine line ++ context ++ " expected <number>, found <" ++ found.name ++ ">."
  | notApplicable found line =>
      onLine line ++ "Value of type <" ++ found.name ++ "> cannot be applied."
  | noMatchingClause value line =>
      onLine line ++ "No matching clause in case expression for " ++ toString value ++ "."
  | unknownDefinition name => "Error: Unknown definition '" ++ name ++ "'."
  | notEvaluable name =>
      "Error: Definition '" ++ name ++ "' must have the form \\frequency. \\time. body."
  | nonNumericResult found =>
      "Error: Program must return a number, but returned <" ++ found.name ++ ">."

end Fault

/-- Why evaluation gave no value. -/
inductive Failure where
  | fault (reason : Fault)
  /-- The budget was spent first. -/
  | unfinished
  deriving DecidableEq, Repr

/-- The text of a message. -/
def Failure.message : Failure → String
  | fault reason => reason.message
  | unfinished => "Error: Evaluation did not finish."

/-! ### Log records -/

/-- How much a record matters. -/
inductive Level where
  | debug | warn | error
  deriving DecidableEq, Repr

/-- The name of a level. -/
def Level.name : Level → String
  | debug => "DEBUG"
  | warn => "WARN"
  | error => "ERROR"

/-- One line of the log. -/
structure Record where
  level : Level
  text : String
  deriving DecidableEq, Repr

/-- A result and the records made on the way to it. -/
structure Logged (α : Type) where
  value : α
  log : List Record

end Timbre
