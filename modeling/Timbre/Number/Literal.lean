/-!
# The value of a numeral

A numeral is read from left to right: the digits before the point by
multiply-and-add, those after it by divide-and-add, and an exponent scales the
whole. In floating point each of these steps rounds, so the result need not be
the number nearest to the decimal that was written; the steps and their order
are what defines it.

The reading is stated over any arithmetic, so that the same steps can be taken
with exact numbers. It accepts every text: characters that cannot continue a
numeral end it.

Digits are the ten ASCII ones. They and the signs in front of them are also what
written integers are made of.
-/

namespace Timbre

/-! ### Digits and signs -/

/-- The value of a decimal digit. -/
def digitValue (c : Char) : Nat := c.toNat - '0'.toNat

/-- A sign that may stand in front of digits: whether it is a minus, and what
follows it. -/
def splitSign : List Char → Bool × List Char
  | '-' :: rest => (true, rest)
  | '+' :: rest => (false, rest)
  | rest => (false, rest)

/-- The natural number that a nonempty run of digits spells. -/
def readDigits (text : List Char) : Option Nat :=
  if text ≠ [] ∧ text.all Char.isDigit then
    some (text.foldl (fun value digit => value * 10 + digitValue digit) 0)
  else none

/-! ### Numerals -/

/-- The operations that the value of a numeral is made of. -/
structure Arithmetic (α : Type) where
  ofNat : Nat → α
  add : α → α → α
  mul : α → α → α
  div : α → α → α
  neg : α → α
  /-- Ten to the given power. -/
  tenTo : α → α

/-- Floating-point arithmetic, in which every operation rounds once. -/
def Arithmetic.float : Arithmetic Float where
  ofNat := Float.ofNat
  add := (· + ·)
  mul := (· * ·)
  div := (· / ·)
  neg := (-·)
  tenTo := Float.pow 10

namespace Literal

variable {α : Type} (arithmetic : Arithmetic α)

/-- Digits in front of the point, or of an exponent. -/
def whole (digits : List Char) : α :=
  digits.foldl
    (fun value digit =>
      arithmetic.add (arithmetic.mul value (arithmetic.ofNat 10))
        (arithmetic.ofNat (digitValue digit)))
    (arithmetic.ofNat 0)

/-- Add the digits after the point, each divided by its place. -/
def withFraction (start : α) (digits : List Char) : α :=
  (digits.foldl
    (fun (value, place) digit =>
      (arithmetic.add value (arithmetic.div (arithmetic.ofNat (digitValue digit)) place),
        arithmetic.mul place (arithmetic.ofNat 10)))
    (start, arithmetic.ofNat 10)).1

/-- Scale a mantissa by the exponent that follows it, if one does. -/
def scaled (mantissa : α) : List Char → α
  | [] => mantissa
  | mark :: rest =>
      if mark = 'e' ∨ mark = 'E' then
        let (negative, digits) := splitSign rest
        let exponent := whole arithmetic (digits.takeWhile Char.isDigit)
        arithmetic.mul mantissa
          (arithmetic.tenTo (if negative then arithmetic.neg exponent else exponent))
      else mantissa

/-- The value of the numeral at the front of a text. -/
def value (text : List Char) : α :=
  let integral := whole arithmetic (text.takeWhile Char.isDigit)
  match text.dropWhile Char.isDigit with
  | '.' :: rest =>
      scaled arithmetic (withFraction arithmetic integral (rest.takeWhile Char.isDigit))
        (rest.dropWhile Char.isDigit)
  | rest => scaled arithmetic integral rest

end Literal

/-- The floating-point value of the numeral at the front of a text. -/
def numeralValue (text : List Char) : Float := Literal.value Arithmetic.float text

end Timbre
