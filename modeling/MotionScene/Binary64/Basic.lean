import MotionScene.Scalar

/-!
# Binary floating point in exact arithmetic

A finite 64-bit floating-point number is `± m · 2 ^ q` with natural `m`.  This module
takes a number apart into sign, `m` and `q`, and rounds an exact quotient of natural
numbers to the nearest floating-point number, ties to even; whole numbers, decimal
numerals, quotients and square roots are all rounded through that one function.
-/

namespace MotionScene.Binary64

/-- The magnitude `m · 2 ^ q` of a finite number, with its sign. -/
structure Parts where
  negative : Bool
  m : Nat
  q : Int
  deriving DecidableEq, Repr

/-- The bits of positive infinity: the least pattern that is no finite magnitude. -/
def infinityBits : Nat := 0x7FF * Nat.pow 2 52

def parts (x : Float) : Parts :=
  let bits : Nat := x.toBits.toNat
  let magnitude : Nat := bits % Nat.pow 2 63
  let biased : Nat := magnitude / Nat.pow 2 52
  let field := magnitude % Nat.pow 2 52
  if biased = 0 then ⟨bits ≥ Nat.pow 2 63, field, -1074⟩
  else ⟨bits ≥ Nat.pow 2 63, Nat.pow 2 52 + field, (biased : Int) - 1075⟩

/-- What a number is, if it is not finite. -/
def special? (x : Float) : Option Special :=
  let bits : Nat := x.toBits.toNat
  let magnitude : Nat := bits % Nat.pow 2 63
  if magnitude < infinityBits then none
  else if magnitude = infinityBits then some (.infinity (bits ≥ Nat.pow 2 63))
  else some .notANumber

/-- A quotient rounded to the nearest natural number, ties to even. -/
def roundQuotient (num den : Nat) : Nat :=
  let quotient := num / den
  let twice := 2 * (num % den)
  if twice < den then quotient
  else if twice = den then quotient + quotient % 2
  else quotient + 1

/-- The quotient `num / den`, in units of `2 ^ q`, rounded to a natural number. -/
def roundScaled (num den : Nat) (q : Int) : Nat :=
  roundQuotient (num * Nat.pow 2 (-q).toNat) (den * Nat.pow 2 q.toNat)

/-- The bits of the magnitude nearest to `num / den`, ties to even.  The exponent is
chosen so that the rounded significand has 53 bits, or fewer below the least normal
number; a significand that rounds up to the next power of two carries into the
exponent.  The result is at least `infinityBits` where the quotient is too large. -/
def nearestBits (num den : Nat) : Nat :=
  if num = 0 then 0
  else
    let estimate : Int := (num.log2 : Int) - den.log2 - 52
    let q := if num * Nat.pow 2 (-estimate).toNat < den * Nat.pow 2 (52 + estimate.toNat)
      then estimate - 1 else estimate
    let q := max q (-1074)
    (q + 1074).toNat * Nat.pow 2 52 + roundScaled num den q

def ofMagnitude (negative : Bool) (bits : Nat) : Float :=
  let sign := if negative then Nat.pow 2 63 else 0
  Float.ofBits (UInt64.ofNat (min bits infinityBits + sign))

/-- The number nearest to a quotient, infinite where that is too large. -/
def ofQuotient (negative : Bool) (num den : Nat) : Float :=
  ofMagnitude negative (nearestBits num den)

def quotient? (num den : Int) : Option Float :=
  let bits := nearestBits num.natAbs den.natAbs
  if bits < infinityBits then
    some (ofMagnitude (decide (num < 0) != decide (den < 0)) bits)
  else none

def ofInt? (n : Int) : Option Float :=
  if n.natAbs < Nat.pow 2 53 then some (Float.ofInt n) else quotient? n 1

/-- The number nearest to a numeral.  Exponents far outside the range of the format
are decided without forming their powers. -/
def ofNumeral : Numeral → Float
  | .special .notANumber => Float.ofBits 0x7FF8000000000000
  | .special (.infinity negative) => ofMagnitude negative infinityBits
  | .finite negative digits exponent =>
    if digits = 0 then ofMagnitude negative 0
    else
      -- `digits` lies between `2 ^ log2` and twice that
      let log := (digits.log2 : Int)
      if exponent > 400 then ofMagnitude negative infinityBits
      else if 3 * exponent + log < -1100 then ofMagnitude negative 0
      else
        ofQuotient negative (digits * Nat.pow 10 exponent.toNat)
          (Nat.pow 10 (-exponent).toNat)

/-- The greatest whole number that is not above a finite number. -/
def floor (x : Float) : Int :=
  let p := parts x
  let magnitude : Int := p.m * Nat.pow 2 p.q.toNat
  Int.fdiv (if p.negative then -magnitude else magnitude) (Nat.pow 2 (-p.q).toNat)

/-- A finite number in units of `10 ^ -places`, to the nearest unit, ties to even. -/
def decimalUnits (places : Nat) (x : Float) : Int :=
  let p := parts x
  let units : Int :=
    roundQuotient (p.m * Nat.pow 10 places * Nat.pow 2 p.q.toNat) (Nat.pow 2 (-p.q).toNat)
  if p.negative then -units else units

/-! ## Square roots -/

/-- Newton's iteration for the square root, which descends from above. -/
def rootFrom (n : Nat) : (steps : Nat) → (guess : Nat) → Nat
  | 0, guess => guess
  | steps + 1, guess =>
    let next := (guess + n / guess) / 2
    if next < guess then rootFrom n steps next else guess

/-- The greatest natural number whose square is not above the given one. -/
def root (n : Nat) : Nat :=
  if n = 0 then 0 else rootFrom n (n.log2 + 2) (Nat.pow 2 (n.log2 / 2 + 1))

/-- The length of a vector with finite components, rounded once.  The sum of squares
is exact; its root is taken with bits to spare, and a bit that tells an inexact root
keeps the rounding right. -/
def finiteHypotenuse (x y : Float) : Float :=
  let a := parts x
  let b := parts y
  let q := min a.q b.q
  let u := a.m * Nat.pow 2 (a.q - q).toNat
  let v := b.m * Nat.pow 2 (b.q - q).toNat
  let square := u * u + v * v
  if square = 0 then 0
  else
    let spare : Nat := 64 - square.log2 / 2
    let shifted := square * Nat.pow 4 spare
    let r := root shifted
    let doubled := 2 * r + if r * r = shifted then 0 else 1
    let q := q - spare - 1
    ofQuotient false (doubled * Nat.pow 2 q.toNat) (Nat.pow 2 (-q).toNat)

/-- The length of a vector; infinite when a component is. -/
def hypotenuse (x y : Float) : Float :=
  match special? x, special? y with
  | none, none => finiteHypotenuse x y
  | some (.infinity _), _ => ofMagnitude false infinityBits
  | _, some (.infinity _) => ofMagnitude false infinityBits
  | _, _ => ofNumeral (.special .notANumber)

/-- What is left of a number after its floor is taken away, in `[0, 1]`. -/
def fraction (x : Float) : Float :=
  let rest := x - (if x < 0 then x.ceil else x.floor)
  if rest == 0 then 0 else if rest < 0 then rest + 1 else rest

end MotionScene.Binary64

namespace MotionScene

instance : Scalar Float where
  decidableLT := inferInstance
  decidableLE := inferInstance
  special? := Binary64.special?
  ofNat := Float.ofNat
  ofInt? := Binary64.ofInt?
  quotient? := Binary64.quotient?
  ofNumeral := Binary64.ofNumeral
  magnitude := Float.abs
  floor := Binary64.floor
  decimalUnits := Binary64.decimalUnits
  fraction := Binary64.fraction
  hypotenuse := Binary64.hypotenuse
  power := Float.pow
  pi := Float.ofBits 0x400921FB54442D18
  sine := Float.sin
  cosine := Float.cos

end MotionScene
