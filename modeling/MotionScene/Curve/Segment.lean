import MotionScene.Curve.Point

/-!
# Segments

A path is made of straight lines and of cubic curves with two control points.  The
length of a curve is that of a line through ten points on it.  A segment is cut in two
at a parameter by dividing the ways between its points, and then those between the
points so found; each half has the kind of the whole.
-/

namespace MotionScene

open scoped Scalar

/-- A piece of a path. -/
inductive Segment (R : Type) where
  | line (start stop : Point R)
  | cubic (start first second stop : Point R)
  deriving Repr

namespace Segment

variable {R : Type}

def start : Segment R → Point R
  | line start _ => start
  | cubic start _ _ _ => start

def stop : Segment R → Point R
  | line _ stop => stop
  | cubic _ _ _ stop => stop

def isLine : Segment R → Bool
  | line _ _ => true
  | cubic .. => false

variable [Scalar R]

def pointAt (t : R) : Segment R → Point R
  | line start stop => start.between stop t
  | cubic start first second stop =>
    let rest := 1 - t
    let a := rest * rest * rest
    let b := 3 * rest * rest * t
    let c := 3 * rest * t * t
    let d := t * t * t
    ⟨a * start.x + b * first.x + c * second.x + d * stop.x,
     a * start.y + b * first.y + c * second.y + d * stop.y⟩

/-- How many steps measure a curve. -/
def measuringSteps : Nat := 10

/-- The points that measure a curve, from its start to its stop. -/
def samples (segment : Segment R) : List (Point R) :=
  (List.range measuringSteps).map fun (step : Nat) =>
    segment.pointAt (Scalar.ofNat (step + 1) / Scalar.ofNat measuringSteps)

/-- The length of the line from a point through others, added to a sum. -/
def addDistances (sum : R) (last : Point R) : List (Point R) → R
  | [] => sum
  | next :: rest => addDistances (sum + last.distance next) next rest

def length : Segment R → R
  | line start stop => start.distance stop
  | cubic start first second stop =>
    addDistances 0 start (cubic start first second stop).samples

/-- The two parts of a segment before and after a parameter. -/
def split (t : R) : Segment R → Segment R × Segment R
  | line start stop =>
    let cut := start.between stop t
    (line start cut, line cut stop)
  | cubic start first second stop =>
    let a := start.between first t
    let b := first.between second t
    let c := second.between stop t
    let ab := a.between b t
    let bc := b.between c t
    let cut := ab.between bc t
    (cubic start a ab cut, cubic cut bc c stop)

@[simp] theorem start_split (t : R) (segment : Segment R) :
    (segment.split t).1.start = segment.start := by
  cases segment <;> rfl

@[simp] theorem stop_split (t : R) (segment : Segment R) :
    (segment.split t).2.stop = segment.stop := by
  cases segment <;> rfl

@[simp] theorem isLine_split (t : R) (segment : Segment R) :
    (segment.split t).1.isLine = segment.isLine ∧ (segment.split t).2.isLine = segment.isLine := by
  cases segment <;> exact ⟨rfl, rfl⟩

end Segment

end MotionScene
