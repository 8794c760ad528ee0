import MotionScene.Curve.Path
import MotionScene.Drawing.PathData

/-!
# Repeaters

A repeater draws a path several times, each copy one step further than the one before.
A step turns the path about an anchor, scales it there and moves it on.  Rotation and
movement add up from step to step, scale multiplies.
-/

namespace MotionScene

open scoped Scalar

variable {R : Type}

/-- An affine map of the plane: `a` and `b` are the image of the horizontal unit vector,
`c` and `d` that of the vertical one, `e` and `f` that of the origin. -/
structure Placement (R : Type) where
  a : R
  b : R
  c : R
  d : R
  e : R
  f : R
  deriving Repr

variable [Scalar R]

namespace Placement

def identity : Placement R := ⟨1, 0, 0, 1, 0, 0⟩

def apply (placement : Placement R) (point : Point R) : Point R :=
  ⟨placement.a * point.x + placement.c * point.y + placement.e,
   placement.b * point.x + placement.d * point.y + placement.f⟩

end Placement

/-- A power that stays real: a negative base keeps its sign under a fractional exponent,
and zero has no power but itself. -/
def signedPower (base exponent : R) : Except Fault R :=
  if base == 0 then .ok 0
  else do
    let whole ← (Number.real exponent).truncate
    let size := Scalar.power (Scalar.magnitude base) exponent
    let isEven := Number.wholeSame whole exponent && whole % 2 == 0
    match Scalar.special? base, Scalar.special? size with
    | none, some (.infinity _) => .error .tooLarge
    | _, _ => return if base < 0 && !isEven then -size else size

/-- How many copies a repeater asks for beside the path itself. -/
def repeatCount (repeater : Value R) : Except Fault Nat :=
  match repeater with
  | .object members => do
    let count ← readingOr 0 ((Members.get? members "count").getD (.num (.whole 0))).count
    return count.toNat
  | _ => .ok 0

/-- The step of the first copy. -/
def repeatOffset (repeater : Value R) : Except Fault R :=
  match repeater with
  | .object members => readingOr 0 (Members.scalarOr members "offset" 0)
  | _ => .ok 0

/-- The placement of the copy at a step. -/
def placementAt (repeater : Members R) (step : R) : Except Fault (Placement R) := do
  let sx ← signedPower (← repeater.scalarOr "scaleX" 1) step
  let sy ← signedPower (← repeater.scalarOr "scaleY" 1) step
  let angle := (← repeater.scalarOr "rotation" 0) * step
  let ax ← repeater.scalarOr "anchorX" 0
  let ay ← repeater.scalarOr "anchorY" 0
  let tx := (← repeater.scalarOr "x" 0) * step
  let ty := (← repeater.scalarOr "y" 0) * step
  let unit ← direction angle
  let a := unit.x * sx
  let b := unit.y * sx
  let c := -unit.y * sy
  let d := unit.x * sy
  return ⟨a, b, c, d, ax + tx - (a * ax + c * ay), ay + ty - (b * ax + d * ay)⟩

end MotionScene
