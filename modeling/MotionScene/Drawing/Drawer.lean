import MotionScene.Drawing.Repeater
import MotionScene.Trace

/-!
# Drawing paths

A drawer draws a path with its trim and its repeater.  It holds the placement of the
copy it draws, and a buffer of points for each row of the path; the next copy that is moved
writes over them.  The copy at step zero is the path itself and is drawn as it stands.  A
failure ends the drawing with what has been drawn up to it, and leaves the buffers as far
as they have been written.
-/

namespace MotionScene

open scoped Scalar

variable {R : Type} [Scalar R]

/-- A path as it is asked to be drawn. -/
structure PathRequest (R : Type) where
  rows : PathRows R
  closed : Bool
  trim? : Option (Trim R)
  repeater : Value R

/-- The commands that draw the path of some rows once.  A trim that keeps everything is
passed over. -/
def PathRequest.drawOnce (request : PathRequest R) (rows : PathRows R) :
    Except Fault (List (Command R)) := do
  let segments ← rows.segments request.closed
  match request.trim? with
  | some trim =>
    if trim.isIdentity then return drawSegments request.closed segments
    else return drawRuns (← trimPath segments trim)
  | none => return drawSegments request.closed segments

/-- A drawer with the placement and the points of its latest copy. -/
structure Drawer (R : Type) where
  placement : Placement R
  vertices : List (Point R)
  arriving : List (Point R)
  leaving : List (Point R)

/-- What a drawer has become after drawing something, and the commands it gave. -/
structure Drawn (R : Type) where
  drawer : Drawer R
  commands : Traced (Command R) Unit

/-! ## Buffers -/

/-- A buffer with room for as many points as asked for, and no more. -/
def resizeBuffer (buffer : List (Point R)) (size : Nat) : List (Point R) :=
  buffer.take size ++ List.replicate (size - buffer.length) .origin

/-- Writes the images of points into a buffer from a place on, up to the first that fails.  A
point that cannot be read counts as the origin. -/
def writeImages (placement : Placement R) :
    (place : Nat) → List (PointReading R) → List (Point R) → List (Point R) × Except Fault Unit
  | _, [], buffer => (buffer, .ok ())
  | place, reading :: rest, buffer =>
    match reading with
    | .error fault => (buffer, .error fault)
    | .ok point? =>
      writeImages placement (place + 1) rest
        (buffer.set place (placement.apply (point?.getD .origin)))

/-- Fills a buffer with the image of a row. -/
def fillBuffer (placement : Placement R) (row : PointRow R) (buffer : List (Point R)) :
    List (Point R) × Except Fault Unit :=
  match row.size with
  | .error fault => (buffer, .error fault)
  | .ok size => writeImages placement 0 row.readings (resizeBuffer buffer size)

/-! ## Drawers -/

namespace Drawer

def fresh : Drawer R := ⟨.identity, [], [], []⟩

/-- The rows of the latest copy. -/
def rows (drawer : Drawer R) : PathRows R :=
  ⟨.ofPoints drawer.vertices, .ofPoints drawer.arriving, .ofPoints drawer.leaving⟩

/-- Fills the buffers of a drawer with the image of a path under its placement. -/
def fill (drawer : Drawer R) (rows : PathRows R) : Drawer R × Except Fault Unit :=
  match fillBuffer drawer.placement rows.vertices drawer.vertices with
  | (vertices, .error fault) => ({ drawer with vertices }, .error fault)
  | (vertices, .ok ()) =>
    match fillBuffer drawer.placement rows.arriving drawer.arriving with
    | (arriving, .error fault) => ({ drawer with vertices, arriving }, .error fault)
    | (arriving, .ok ()) =>
      let (leaving, outcome) := fillBuffer drawer.placement rows.leaving drawer.leaving
      ({ drawer with vertices, arriving, leaving }, outcome)

/-- Draws the copy of a path at a step. -/
def drawCopy (drawer : Drawer R) (request : PathRequest R) (step : R) : Drawn R :=
  if step == 0 then ⟨drawer, do Traced.tellAll (← request.drawOnce request.rows)⟩
  else
    match placementAt request.repeater.members step with
    | .error fault => ⟨drawer, .fail fault⟩
    | .ok placement =>
      let (drawer, outcome) := { drawer with placement }.fill request.rows
      ⟨drawer, do
        outcome
        Traced.tellAll (← request.drawOnce drawer.rows)⟩

/-- Draws copies of a path, of which the first has the given number. -/
def drawCopies (request : PathRequest R) (offset : R) :
    (copies first : Nat) → Drawer R → Drawn R
  | 0, _, drawer => ⟨drawer, pure ()⟩
  | copies + 1, first, drawer =>
    let drawn := drawer.drawCopy request (Scalar.ofNat first + offset)
    match drawn.commands.outcome with
    | .error _ => drawn
    | .ok () =>
      let later := drawCopies request offset copies (first + 1) drawn.drawer
      ⟨later.drawer, do drawn.commands; later.commands⟩

/-- Draws a path with its trim and its repeater. -/
def draw (drawer : Drawer R) (request : PathRequest R) : Drawn R :=
  match repeatCount request.repeater, repeatOffset request.repeater with
  | .error fault, _ => ⟨drawer, .fail fault⟩
  | _, .error fault => ⟨drawer, .fail fault⟩
  | .ok count, .ok offset => drawCopies request offset (count + 1) 0 drawer

end Drawer

/-- Draws a path with a drawer of its own. -/
def drawPath (request : PathRequest R) : Traced (Command R) Unit :=
  (Drawer.fresh.draw request).commands

end MotionScene
