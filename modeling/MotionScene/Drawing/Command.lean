import MotionScene.Curve.Trim

/-!
# Drawing commands

What a drawing surface is asked to do.  A path is drawn by moving to its start and
following its segments; a line that leads back to the start of a closed path is left to
the command that closes it.
-/

namespace MotionScene

/-- A command for a drawing surface. -/
inductive Command (R : Type) where
  | moveTo (target : Point R)
  | lineTo (target : Point R)
  | curveTo (first second target : Point R)
  | arc (center : Point R) (radius start stop : R) (anticlockwise : Bool)
  | closePath
  | rect (corner : Point R) (width height : R)
  deriving Repr

namespace Command

variable {R : Type}

def name : Command R → String
  | moveTo _ => "moveTo"
  | lineTo _ => "lineTo"
  | curveTo .. => "bezierCurveTo"
  | arc .. => "arc"
  | closePath => "closePath"
  | rect .. => "rect"

end Command

variable {R : Type}

/-- The command that follows a segment from its start. -/
def Segment.command : Segment R → Command R
  | .line _ stop => .lineTo stop
  | .cubic _ first second stop => .curveTo first second stop

/-- The commands that follow the segments of a path. -/
def followSegments (closed : Bool) : List (Segment R) → List (Command R)
  | [] => []
  | [last] => if closed && last.isLine then [] else [last.command]
  | segment :: next :: rest => segment.command :: followSegments closed (next :: rest)

/-- The commands that draw a whole path. -/
def drawSegments (closed : Bool) (segments : List (Segment R)) : List (Command R) :=
  match segments with
  | [] => []
  | first :: _ =>
    .moveTo first.start :: followSegments closed segments ++ if closed then [.closePath] else []

def drawRun : List (Segment R) → List (Command R)
  | [] => []
  | first :: rest => .moveTo first.start :: (first :: rest).map Segment.command

/-- The commands that draw the runs that a trim has kept. -/
def drawRuns (runs : List (List (Segment R))) : List (Command R) :=
  runs.flatMap drawRun

end MotionScene
