import MotionScene.Fault
import MotionScene.Scalar

/-!
# Numbers of a document

A number that a document writes without point and exponent is *whole* and keeps every
digit; any other is a scalar.  Sums, differences and products of whole numbers are
exact.  A quotient is always a scalar, and an operation that meets a scalar converts
its other operand first, which fails when that is too large.  Comparisons are exact
and never fail.
-/

namespace MotionScene

open scoped Scalar

/-- A number as a document holds it. -/
inductive Number (R : Type) where
  | whole (n : Int)
  | real (x : R)
  deriving Repr

namespace Number

variable {R : Type} [Scalar R]

instance : Inhabited (Number R) := ⟨whole 0⟩

/-- The scalar nearest to a number. -/
def toReal : Number R → Except Fault R
  | whole n =>
    match Scalar.ofInt? n with
    | some x => .ok x
    | none => .error .tooLarge
  | real x => .ok x

@[simp] theorem toReal_real (x : R) : toReal (real x) = .ok x := rfl

/-- Applies an exact operation to whole numbers and a scalar one to any others. -/
def combine (exact : Int → Int → Int) (rounded : R → R → R) :
    Number R → Number R → Except Fault (Number R)
  | whole m, whole n => .ok (whole (exact m n))
  | a, b => do
    let x ← a.toReal
    let y ← b.toReal
    return real (rounded x y)

/-- A sum, whole where both numbers are. -/
def add : Number R → Number R → Except Fault (Number R) :=
  combine (· + ·) (· + ·)

/-- A product, whole where both numbers are. -/
def mul : Number R → Number R → Except Fault (Number R) :=
  combine (· * ·) (· * ·)

/-- A quotient of scalars, refused for a zero divisor. -/
def divideReal (x y : R) : Except Fault R :=
  if y == 0 then .error .divisionByZero else .ok (x / y)

/-- A quotient is rounded once, also where both operands are whole. -/
def divide : Number R → Number R → Except Fault R
  | whole m, whole n =>
    if n = 0 then .error .divisionByZero
    else
      match Scalar.quotient? m n with
      | some q => .ok q
      | none => .error .tooLarge
  | a, b => do
    let x ← a.toReal
    let y ← b.toReal
    divideReal x y

def negate : Number R → Number R
  | whole n => whole (-n)
  | real x => real (-x)

/-- Whether a number is zero, of either sign. -/
def isZero : Number R → Bool
  | whole n => n == 0
  | real x => x == (0 : R)

/-- Whether a whole number is below a scalar, in exact comparison. -/
def wholeBelow (n : Int) (x : R) : Bool :=
  match Scalar.special? x with
  | some .notANumber => false
  | some (.infinity negative) => !negative
  | none => n < -Scalar.floor (-x)

/-- Whether a scalar is below a whole number, in exact comparison. -/
def realBelow (x : R) (n : Int) : Bool :=
  match Scalar.special? x with
  | some .notANumber => false
  | some (.infinity negative) => negative
  | none => Scalar.floor x < n

/-- Whether a whole number equals a scalar, in exact comparison. -/
def wholeSame (n : Int) (x : R) : Bool :=
  (Scalar.special? x).isNone && !wholeBelow n x && !realBelow x n

def below : Number R → Number R → Bool
  | whole m, whole n => m < n
  | whole m, real y => wholeBelow m y
  | real x, whole n => realBelow x n
  | real x, real y => x < y

def same : Number R → Number R → Bool
  | whole m, whole n => m == n
  | whole m, real y => wholeSame m y
  | real x, whole n => wholeSame n x
  | real x, real y => x == y

def atMost (a b : Number R) : Bool :=
  a.below b || a.same b

def isPositive (a : Number R) : Bool :=
  (whole 0).below a

/-- The part of a number in the unit interval: the nearest end for numbers outside. -/
def clampUnit : Number R → R
  | whole n => if 0 < n then 1 else 0
  | real x => Scalar.clampUnit x

/-- Refuses scalars that have no nearest whole number. -/
def ofSpecial (x : R) (value : Int) : Except Fault Int :=
  match Scalar.special? x with
  | none => .ok value
  | some .notANumber => .error .noMeaning
  | some (.infinity _) => .error .tooLarge

/-- The greatest whole number that is not above the number. -/
def floor : Number R → Except Fault Int
  | whole n => .ok n
  | real x => ofSpecial x (Scalar.floor x)

/-- The nearest whole number towards zero. -/
def truncate : Number R → Except Fault Int
  | whole n => .ok n
  | real x => ofSpecial x (Scalar.truncate x)

/-- The nearest whole number, ties to even. -/
def nearest : Number R → Except Fault Int
  | whole n => .ok n
  | real x => ofSpecial x (Scalar.nearest x)

end Number

end MotionScene
