/-!
# Scalars

All geometry and timing of a scene is computed with *scalars*.  A type of scalars
has the four operations, an order, and a handful of conversions that round.  The
library is written once over this interface: it runs on 64-bit floating-point
numbers, and its laws can be stated over any field in which the operations are
exact.

A conversion that may have no result says so: `ofInt?` and `quotient?` return
`none` where the value is too large for the type.
-/

namespace MotionScene

/-- A scalar that is no ordinary number. -/
inductive Special where
  | notANumber
  | infinity (negative : Bool)
  deriving DecidableEq, Repr

/-- A numeral as it is written: an optional sign, decimal digits read as one whole
number, and the power of ten they are scaled by; or the name of a special value. -/
inductive Numeral where
  | finite (negative : Bool) (digits : Nat) (exponent : Int)
  | special (value : Special)
  deriving DecidableEq, Repr

/-- The arithmetic that scenes are computed with.  The conversions to `Int` are
meaningful for scalars on which `special?` is `none`. -/
class Scalar (R : Type) extends Add R, Sub R, Mul R, Div R, Neg R, LT R, LE R, BEq R where
  decidableLT : DecidableLT R
  decidableLE : DecidableLE R
  /-- What the scalar is, if it is no ordinary number. -/
  special? : R → Option Special
  ofNat : Nat → R
  /-- The scalar nearest to a whole number, unless that is too large. -/
  ofInt? : Int → Option R
  /-- The scalar nearest to a quotient of whole numbers with a non-zero divisor, unless
  that is too large. -/
  quotient? : Int → Int → Option R
  ofNumeral : Numeral → R
  magnitude : R → R
  /-- The greatest whole number that is not above the scalar. -/
  floor : R → Int
  /-- The scalar in units of a power of ten, `10 ^ -places`, rounded to the nearest
  whole number of units, ties to even. -/
  decimalUnits : (places : Nat) → R → Int
  /-- What is left of a scalar after its floor is taken away. -/
  fraction : R → R
  /-- The length of the vector with the two given components. -/
  hypotenuse : R → R → R
  /-- A power with a positive base. -/
  power : R → R → R
  pi : R
  sine : R → R
  cosine : R → R

-- a type that is more than a type of scalars keeps the operations it is known by
attribute [instance (100)] Scalar.toAdd Scalar.toSub Scalar.toMul Scalar.toDiv Scalar.toNeg
  Scalar.toLT Scalar.toLE Scalar.toBEq

namespace Scalar

variable {R : Type} [Scalar R]

instance : DecidableLT R := decidableLT
instance : DecidableLE R := decidableLE

/-- Whole-number literals name scalars inside this library. -/
scoped instance literal (n : Nat) : OfNat R n := ⟨ofNat n⟩

open scoped Scalar

/-- A scalar that is neither infinite nor undefined. -/
def isFinite (x : R) : Bool :=
  (special? x).isNone

/-- The nearest whole number towards zero. -/
def truncate (x : R) : Int :=
  if x < 0 then -floor (-x) else floor x

/-- The nearest whole number, ties to even. -/
def nearest (x : R) : Int :=
  decimalUnits 0 x

/-- A constant with the given decimal digits after the point moved `places` to the left. -/
def decimal (digits places : Nat) : R :=
  ofNumeral (.finite false digits (-places))

/-- The lesser of two scalars, the first where neither is less. -/
def least (x y : R) : R :=
  if y < x then y else x

/-- The greater of two scalars, the first where neither is greater. -/
def greatest (x y : R) : R :=
  if x < y then y else x

/-- The scalar of the unit interval that is nearest to the given one. -/
def clampUnit (x : R) : R :=
  least 1 (greatest 0 x)

/-- Two scalars in order; equal ones keep their places. -/
def inOrder (x y : R) : R × R :=
  if y < x then (y, x) else (x, y)

end Scalar

end MotionScene
