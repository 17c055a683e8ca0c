import Timbre.Number.Scaled

/-!
# The shortest decimal that reads back

Each finite number stands for an interval of reals: those that round to it, to
nearest with ties to the even mantissa. A number is written with the fewest
decimal digits that lie in its interval; among those the nearest is taken, and
the larger one of two that are equally near.

The text is positional for every size. A whole number has no point, zero keeps
its sign, and the values without digits have names.
-/

namespace Timbre

/-- The number `digits * 10 ^ exponent`. -/
structure Decimal where
  digits : Nat
  exponent : Int
  deriving DecidableEq, Repr

namespace Decimal

/-- Compare `a * 10 ^ i` with `n * 2 ^ j`, exactly. -/
def compareScaled (a : Nat) (i : Int) (n : Nat) (j : Int) : Ordering :=
  compare ((a * Nat.pow 10 i.toNat) <<< (-j).toNat) (n <<< j.toNat * Nat.pow 10 (-i).toNat)

/-- Move trailing zeros from the digits to the exponent, at most `bound` of
them. -/
def strip (bound : Nat) (d : Decimal) : Decimal :=
  match bound with
  | 0 => d
  | bound + 1 =>
      if d.digits ≠ 0 ∧ d.digits % 10 = 0 then strip bound ⟨d.digits / 10, d.exponent + 1⟩
      else d

/-- Positional text: zeros fill the places between the digits and the point. -/
def positional (d : Decimal) : String :=
  let digits := Nat.toDigits 10 d.digits
  if 0 ≤ d.exponent then String.ofList (digits ++ List.replicate d.exponent.toNat '0')
  else
    let places := (-d.exponent).toNat
    if places < digits.length then
      let whole := digits.length - places
      String.ofList (digits.take whole ++ '.' :: digits.drop whole)
    else String.ofList ('0' :: '.' :: (List.replicate (places - digits.length) '0' ++ digits))

end Decimal

namespace Scaled

/-- Half the gap to the neighbour below, in quarters of the last place. The gap
is halved below a power of two, except at the least exponent. -/
def gapBelow (x : Scaled) : Nat :=
  if x.mantissa = hiddenBit ∧ x.exponent ≠ -1074 then 1 else 2

/-- Whether `digits * denominator / scale` lies among the reals that round to the
mantissa, both in units of the last place. The ends of the interval belong to it
exactly when the mantissa is even. -/
def holds (x : Scaled) (scale denominator digits : Nat) : Bool :=
  let tested := 4 * digits * denominator
  let low := (4 * x.mantissa - x.gapBelow) * scale
  let high := (4 * x.mantissa + 2) * scale
  if x.mantissa % 2 = 0 then low ≤ tested ∧ tested ≤ high
  else low < tested ∧ tested < high

/-- The digits to choose on the grid on which the magnitude is
`mantissa * scale / denominator`, if one of its two neighbours there reads back:
the nearer one, the upper of two that are equally near. -/
def onGrid (x : Scaled) (scale denominator : Nat) : Option Nat :=
  let numerator := x.mantissa * scale
  let below := numerator / denominator
  match x.holds scale denominator below, x.holds scale denominator (below + 1) with
  | true, true =>
      if 2 * numerator < (2 * below + 1) * denominator then some below else some (below + 1)
  | true, false => some below
  | false, true => some (below + 1)
  | false, false => none

/-- Try one grid after the other, each ten times finer than the one before;
`place` is the power of ten of the first one. -/
def search (x : Scaled) (denominator : Nat) : Nat → Nat → Int → Option Decimal
  | 0, _, _ => none
  | tries + 1, scale, place =>
      match x.onGrid scale denominator with
      | some digits => some ⟨digits, place⟩
      | none => search x denominator tries (scale * 10) (place - 1)

/-- The least power of ten above a nonzero magnitude. The estimate from the
binary logarithm is never too large and short by at most three. -/
def decimalSize (x : Scaled) : Int :=
  let estimate := ((x.exponent + x.mantissa.log2) * 1233).fdiv 4096
  let candidates := [estimate, estimate + 1, estimate + 2]
  (candidates.find? fun size =>
    Decimal.compareScaled 1 size x.mantissa x.exponent = .gt).getD (estimate + 3)

/-- The exact decimal value, with as many digits as it takes. -/
def exactDecimal (x : Scaled) : Decimal :=
  if 0 ≤ x.exponent then ⟨x.mantissa <<< x.exponent.toNat, 0⟩
  else ⟨x.mantissa * Nat.pow 5 (-x.exponent).toNat, x.exponent⟩

/-- The fewest digits that read back to a nonzero magnitude, searched from one
digit on; seventeen digits always suffice. -/
def shortest (x : Scaled) : Decimal :=
  let place := x.decimalSize - 1
  let scale := Nat.pow 10 (-place).toNat <<< x.exponent.toNat
  let denominator := Nat.pow 10 place.toNat <<< (-x.exponent).toNat
  let chosen := (x.search denominator 17 scale place).getD x.exactDecimal
  chosen.strip chosen.digits.log2

end Scaled

/-- The text of a number. -/
def numberText (x : Float) : String :=
  match Reading.ofFloat x with
  | .notANumber => "NaN"
  | .infinite negative => if negative then "-inf" else "inf"
  | .finite value =>
      let sign := if value.negative then "-" else ""
      sign ++ if value.mantissa = 0 then "0" else value.shortest.positional

end Timbre
