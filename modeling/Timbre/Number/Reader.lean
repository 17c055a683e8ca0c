import Timbre.Number.Literal

/-!
# Numbers given as whole texts

Settings and octaves are numbers that fill their text: nothing may stand before
or after them, not even a blank, and an integer outside its range is refused.
A decimal is rounded once, to the nearest floating-point number.
-/

namespace Timbre

/-- A natural number below `bound`. A plus sign may stand in front; a minus sign
may not, even before zero. -/
def readNatural (bound : Nat) (text : List Char) : Option Nat :=
  let digits := match text with
    | '+' :: rest => rest
    | _ => text
  (readDigits digits).filter (· < bound)

/-- Whether an integer fits 32 signed bits. -/
def fits32 (value : Int) : Bool :=
  Int32.minValue.toInt ≤ value ∧ value ≤ Int32.maxValue.toInt

/-- An integer of 32 signed bits. -/
def readInteger32 (text : List Char) : Option Int :=
  let (negative, digits) := splitSign text
  (readDigits digits).bind fun magnitude =>
    let value : Int := if negative then -(magnitude : Int) else magnitude
    if fits32 value then some value else none

/-- The number nearest to `digits * 10 ^ exponent`. Far outside the range of
floating point the power is not computed. -/
def nearestFloat (digits : Nat) (exponent : Int) : Float :=
  let size := exponent + (Nat.toDigits 10 digits).length
  if digits = 0 ∨ size < -400 then 0.0
  else if 400 < size then 1.0 / 0.0
  else Float.ofScientific digits (exponent < 0) exponent.natAbs

/-- The exponent at the end of a decimal, zero when there is none. -/
def readExponent : List Char → Option Int
  | [] => some 0
  | mark :: rest =>
      if mark = 'e' ∨ mark = 'E' then
        let (negative, digits) := splitSign rest
        (readDigits digits).map fun magnitude =>
          if negative then -(magnitude : Int) else magnitude
      else none

/-- A decimal without a sign: digits with at most one point among or around
them, then perhaps an exponent. -/
def readUnsignedDecimal (text : List Char) : Option Float :=
  let whole := text.takeWhile Char.isDigit
  let (fraction, rest) := match text.dropWhile Char.isDigit with
    | '.' :: rest => (rest.takeWhile Char.isDigit, rest.dropWhile Char.isDigit)
    | rest => ([], rest)
  (readDigits (whole ++ fraction)).bind fun digits =>
    (readExponent rest).map fun exponent =>
      nearestFloat digits (exponent - fraction.length)

/-- The names of the values without digits, in either case of letters. -/
def readNamedValue (text : List Char) : Option Float :=
  match String.ofList (text.map Char.toLower) with
  | "inf" | "infinity" => some (1.0 / 0.0)
  | "nan" => some (0.0 / 0.0)
  | _ => none

/-- A decimal or a named value with an optional sign. -/
def readDecimal (text : List Char) : Option Float :=
  let (negative, magnitude) := splitSign text
  ((readUnsignedDecimal magnitude).or (readNamedValue magnitude)).map fun value =>
    if negative then -value else value

end Timbre
