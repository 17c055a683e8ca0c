import Timbre.Number.Scaled

/-!
# Whole numbers near a floating-point number

Comparisons for equality, conditions and clause selection look at the nearest
whole number: halves go away from zero, values beyond 64 signed bits stop at the
nearer end, and the absence of a number counts as zero.

A count of samples is rounded down instead, is never negative, and stops at the
largest 64-bit count.
-/

namespace Timbre

namespace Scaled

/-- The magnitude rounded to a whole number, halves up. -/
def nearestMagnitude (x : Scaled) : Nat :=
  if 0 ≤ x.exponent then x.mantissa <<< x.exponent.toNat
  else
    let unit := 1 <<< (-x.exponent).toNat
    (2 * x.mantissa + unit) / (2 * unit)

/-- The magnitude with its fraction dropped. -/
def wholeMagnitude (x : Scaled) : Nat :=
  if 0 ≤ x.exponent then x.mantissa <<< x.exponent.toNat
  else x.mantissa >>> (-x.exponent).toNat

end Scaled

/-- The least and the greatest whole number that a comparison can tell apart
from its neighbours. -/
def leastWhole : Int := Int64.minValue.toInt

@[inherit_doc leastWhole]
def greatestWhole : Int := Int64.maxValue.toInt

/-- The nearest whole number, within 64 signed bits. -/
def nearestWhole (x : Float) : Int :=
  match Reading.ofFloat x with
  | .notANumber => 0
  | .infinite negative => if negative then leastWhole else greatestWhole
  | .finite value =>
      let magnitude : Int := value.nearestMagnitude
      max leastWhole (min greatestWhole (if value.negative then -magnitude else magnitude))

/-- The whole number of steps that fit below `x`, within 64 bits. -/
def wholeCount (x : Float) : UInt64 :=
  match Reading.ofFloat x with
  | .notANumber => 0
  | .infinite negative => if negative then 0 else UInt64.ofNat (UInt64.size - 1)
  | .finite value =>
      if value.negative then 0 else UInt64.ofNat (min (UInt64.size - 1) value.wholeMagnitude)

end Timbre
