import MotionScene.Scalar

/-!
# Points of the plane
-/

namespace MotionScene

open scoped Scalar

/-- A point of the plane, with the vertical axis pointing down. -/
structure Point (R : Type) where
  x : R
  y : R
  deriving DecidableEq, Repr

namespace Point

variable {R : Type} [Scalar R]

def origin : Point R := ⟨0, 0⟩

/-- The point that divides the way between two points at a parameter. -/
def between (a b : Point R) (t : R) : Point R :=
  ⟨a.x + (b.x - a.x) * t, a.y + (b.y - a.y) * t⟩

def distance (a b : Point R) : R :=
  Scalar.hypotenuse (b.x - a.x) (b.y - a.y)

/-- Two coordinates that differ by less than this count as one. -/
def tolerance : R := Scalar.decimal 1 8

/-- Whether two points lie so close together that they count as one. -/
def isNear (a b : Point R) : Bool :=
  Scalar.magnitude (a.x - b.x) < tolerance && Scalar.magnitude (a.y - b.y) < tolerance

end Point

end MotionScene
