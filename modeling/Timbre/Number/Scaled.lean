/-!
# Floating-point numbers as exact integers

A finite number is a sign, a natural mantissa and a power of two. Rounding,
remainders and decimal text are computed on these three integers, where every
step is exact, and not on the floating-point number itself.

Reading splits the 64 stored bits; writing assembles them again and is exact
for every value that has a 53-bit mantissa within the range of exponents.

The remainder of a division belongs to a quotient that is cut toward zero, so it
has the sign of the dividend and a magnitude below that of the divisor. Both
operands are brought to one power of two, where the remainder is that of two
naturals; it has no more bits than the shorter operand and is therefore
represented exactly.
-/

namespace Timbre

/-- The finite number `mantissa * 2 ^ exponent`, negated when `negative` holds.
Zero keeps its sign. -/
structure Scaled where
  negative : Bool
  mantissa : Nat
  exponent : Int
  deriving DecidableEq, Repr

/-- What the 64 bits of a floating-point number stand for. -/
inductive Reading where
  | notANumber
  | infinite (negative : Bool)
  | finite (value : Scaled)
  deriving DecidableEq, Repr

/-- The bit in front of a stored fraction, the 53rd of a mantissa. -/
def Scaled.hiddenBit : Nat := 1 <<< 52

namespace Reading

/-- The exponent field selects the case: all ones are the infinities and the
absence of a number, zero drops the hidden bit of the mantissa. -/
def ofFloat (x : Float) : Reading :=
  let bits := x.toBits
  let negative := bits >>> 63 == 1
  let field := ((bits >>> 52) &&& 0x7FF).toNat
  let fraction := (bits &&& 0xFFFFFFFFFFFFF).toNat
  if field = 0x7FF then
    if fraction = 0 then .infinite negative else .notANumber
  else if field = 0 then .finite ⟨negative, fraction, -1074⟩
  else .finite ⟨negative, Scaled.hiddenBit + fraction, (field : Int) - 1075⟩

end Reading

namespace Scaled

/-- The bits of the magnitude: the mantissa is shifted left until its hidden
bit is set or the least exponent is reached. -/
def magnitudeBits (x : Scaled) : Nat :=
  let shift := min (52 - x.mantissa.log2) (x.exponent + 1074).toNat
  let mantissa := x.mantissa <<< shift
  let field := (x.exponent - shift + 1075).toNat
  if mantissa < hiddenBit then mantissa else field <<< 52 + (mantissa - hiddenBit)

/-- The floating-point number with this value. -/
def toFloat (x : Scaled) : Float :=
  let sign := if x.negative then 1 <<< 63 else 0
  let magnitude := if x.mantissa = 0 then 0 else x.magnitudeBits
  Float.ofBits (UInt64.ofNat (sign + magnitude))

end Scaled

/-- The exact remainder of `x` divided by `y`. An infinite dividend or a zero
divisor has no remainder; an infinite divisor leaves the dividend as it is. -/
def remainder (x y : Float) : Float :=
  match Reading.ofFloat x, Reading.ofFloat y with
  | .finite dividend, .finite divisor =>
      if divisor.mantissa = 0 then 0.0 / 0.0
      else
        let exponent := min dividend.exponent divisor.exponent
        let aligned (value : Scaled) : Nat :=
          value.mantissa <<< (value.exponent - exponent).toNat
        Scaled.toFloat ⟨dividend.negative, aligned dividend % aligned divisor, exponent⟩
  | .finite _, .infinite _ => x
  | _, _ => 0.0 / 0.0

end Timbre
