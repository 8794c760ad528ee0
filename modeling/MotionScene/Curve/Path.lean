import MotionScene.Curve.PointRow
import MotionScene.Curve.Segment

/-!
# Paths

A path has vertices, and at every vertex a handle for the way that arrives and one for
the way that leaves.  The way from one vertex to the next is a straight line when both
handles beside it lie on their vertices, and a cubic curve with the handles as control
points otherwise.  A closed path has a way from its last vertex to its first.
-/

namespace MotionScene

variable {R : Type}

/-- A vertex of a path with its handles, all three in the same coordinates. -/
structure Knot (R : Type) where
  vertex : Point R
  arriving : Point R
  leaving : Point R
  deriving Repr

/-- The rows that the points of a path are read from. -/
structure PathRows (R : Type) where
  vertices : PointRow R
  arriving : PointRow R
  leaving : PointRow R

namespace PathRows

def ofKnots (knots : List (Knot R)) : PathRows R :=
  ⟨.ofPoints (knots.map (·.vertex)), .ofPoints (knots.map (·.arriving)),
    .ofPoints (knots.map (·.leaving))⟩

variable [Scalar R]

/-- The knots of a path.  A vertex that cannot be read lies at the origin; a handle that
is missing or cannot be read lies on its vertex. -/
def knots (rows : PathRows R) : Except Fault (List (Knot R)) := do
  let size ← rows.vertices.size
  let vertices ← rows.vertices.pointsOr 0 (List.replicate size .origin)
  let arriving ← rows.arriving.pointsOr 0 vertices
  let leaving ← rows.leaving.pointsOr 0 vertices
  return (vertices.zip (arriving.zip leaving)).map fun (vertex, arriving, leaving) =>
    ⟨vertex, arriving, leaving⟩

end PathRows

variable [Scalar R]

/-- The way from one knot to another. -/
def Knot.segmentTo (knot next : Knot R) : Segment R :=
  if knot.leaving.isNear knot.vertex && next.arriving.isNear next.vertex then
    .line knot.vertex next.vertex
  else .cubic knot.vertex knot.leaving next.arriving next.vertex

/-- The ways from a knot through others. -/
def Knot.segmentsThrough (knot : Knot R) : List (Knot R) → List (Segment R)
  | [] => []
  | next :: rest => knot.segmentTo next :: next.segmentsThrough rest

/-- The segments of a path with the given knots. -/
def segmentsOf (closed : Bool) : List (Knot R) → List (Segment R)
  | [] => []
  | first :: rest => first.segmentsThrough (if closed then rest ++ [first] else rest)

def PathRows.segments (rows : PathRows R) (closed : Bool) : Except Fault (List (Segment R)) := do
  return segmentsOf closed (← rows.knots)

end MotionScene
