import MotionScene.Curve.Point
import MotionScene.Document.Reading

/-!
# Rows of points

Vertices and handles of a path stand in rows, lists of lists of two or more numbers.  A
point is unreadable when its entry has no two items that read as numbers, and missing
when the row is too short; both are told apart from entries that fail: an object is asked
for the key 0 and has none, and a number may be too large.

Values of other kinds behave as rows too.  A text has as many points as characters, all
unreadable; an object as many as members, all of which fail; any other value cannot be
counted, and all of its points are missing.
-/

namespace MotionScene

open scoped Scalar

variable {R : Type}

/-- What reading one point of a row gives: nothing where it is missing or unreadable. -/
abbrev PointReading (R : Type) := Except Fault (Option (Point R))

/-- A row of points as far as it can be read. -/
structure PointRow (R : Type) where
  /-- Whether the row has a length. -/
  isCounted : Bool
  readings : List (PointReading R)
  /-- What there is after the last point. -/
  beyond : PointReading R

namespace PointRow

def ofPoints (points : List (Point R)) : PointRow R :=
  ⟨true, points.map fun point => .ok (some point), .ok none⟩

def size (row : PointRow R) : Except Fault Nat :=
  if row.isCounted then .ok row.readings.length else .error .wrongKind

def pointAt (row : PointRow R) (place : Nat) : PointReading R :=
  row.readings[place]?.getD row.beyond

/-- The points from a place on, each with a default. -/
def pointsOr (row : PointRow R) : (place : Nat) → List (Point R) → Except Fault (List (Point R))
  | _, [] => .ok []
  | place, default :: rest => do
    let point ← row.pointAt place
    return point.getD default :: (← pointsOr row (place + 1) rest)

variable [Scalar R]

/-- The point whose coordinates are the first two of some values. -/
def readCoordinates : List (Value R) → PointReading R
  | [] => .ok none
  | x :: rest =>
    readingOr none do
      let x ← x.scalar
      match rest with
      | [] => return none
      | y :: _ => return some ⟨x, ← y.scalar⟩

/-- The point that an entry of a row gives.  The characters of a text are its items. -/
def readPoint : Value R → PointReading R
  | .object _ => .error .unknownKey
  | .list items => readCoordinates items
  | .text s => readCoordinates (s.toList.map fun c => .text (String.singleton c))
  | _ => .ok none

/-- The row that a value is. -/
def ofValue : Value R → PointRow R
  | .list items => ⟨true, items.map readPoint, .ok none⟩
  | .text s => ⟨true, List.replicate s.length (.ok none), .ok none⟩
  | .object members =>
    ⟨true, List.replicate members.length (.error .unknownKey), .error .unknownKey⟩
  | _ => ⟨false, [], .ok none⟩

end PointRow

end MotionScene
