import MotionScene.Curve.Path

/-!
# Outlines of ellipses and rectangles

The knots of the two figures that a document may give by their sizes.  Both outlines run
clockwise.
-/

namespace MotionScene

open scoped Scalar

variable {R : Type} [Scalar R]

/-- The length of the handles that make a cubic curve follow a quarter of the unit circle. -/
def quarterHandle : R := Scalar.decimal 5522848 7

/-- The outline of an ellipse, from its top. -/
def ellipseKnots (center : Point R) (rx ry : R) : List (Knot R) :=
  let ⟨cx, cy⟩ := center
  let ox := rx * quarterHandle
  let oy := ry * quarterHandle
  [⟨⟨cx, cy - ry⟩, ⟨cx - ox, cy - ry⟩, ⟨cx + ox, cy - ry⟩⟩,
   ⟨⟨cx + rx, cy⟩, ⟨cx + rx, cy - oy⟩, ⟨cx + rx, cy + oy⟩⟩,
   ⟨⟨cx, cy + ry⟩, ⟨cx + ox, cy + ry⟩, ⟨cx - ox, cy + ry⟩⟩,
   ⟨⟨cx - rx, cy⟩, ⟨cx - rx, cy + oy⟩, ⟨cx - rx, cy - oy⟩⟩]

/-- A knot whose handles lie on its vertex. -/
def Knot.sharp (x y : R) : Knot R :=
  ⟨⟨x, y⟩, ⟨x, y⟩, ⟨x, y⟩⟩

/-- The radius that the corners of a rectangle have at most. -/
def cornerRadius (radius halfWidth halfHeight : R) : R :=
  Scalar.least (Scalar.least (Scalar.magnitude radius) halfWidth) halfHeight

/-- The outline of a rectangle about a center, from the upper right corner.  A round
corner has two knots, one at either end of its curve. -/
def rectKnots (center : Point R) (width height radius : R) : List (Knot R) :=
  let ⟨cx, cy⟩ := center
  let halfWidth := Scalar.magnitude width / 2
  let halfHeight := Scalar.magnitude height / 2
  let r := cornerRadius radius halfWidth halfHeight
  let left := cx - halfWidth
  let right := cx + halfWidth
  let top := cy - halfHeight
  let bottom := cy + halfHeight
  if r ≤ 0 then
    [.sharp right top, .sharp right bottom, .sharp left bottom, .sharp left top]
  else
    let k := r * quarterHandle
    [⟨⟨right, top + r⟩, ⟨right, top + r - k⟩, ⟨right, top + r⟩⟩,
     ⟨⟨right, bottom - r⟩, ⟨right, bottom - r⟩, ⟨right, bottom - r + k⟩⟩,
     ⟨⟨right - r, bottom⟩, ⟨right - r + k, bottom⟩, ⟨right - r, bottom⟩⟩,
     ⟨⟨left + r, bottom⟩, ⟨left + r, bottom⟩, ⟨left + r - k, bottom⟩⟩,
     ⟨⟨left, bottom - r⟩, ⟨left, bottom - r + k⟩, ⟨left, bottom - r⟩⟩,
     ⟨⟨left, top + r⟩, ⟨left, top + r⟩, ⟨left, top + r - k⟩⟩,
     ⟨⟨left + r, top⟩, ⟨left + r - k, top⟩, ⟨left + r, top⟩⟩,
     ⟨⟨right - r, top⟩, ⟨right - r, top⟩, ⟨right - r + k, top⟩⟩]

end MotionScene
