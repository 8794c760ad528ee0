import MotionScene.Document.Component
import MotionScene.Text.Compact

/-!
# Easings

The way from one source keyframe to the next is shaped by the outgoing handle of the
first and the incoming handle of the second, which current files store on the first.
-/

namespace MotionScene

open scoped Scalar

variable {R : Type} [Scalar R]

/-- The four coordinates of the handles between two source keyframes, for one axis. -/
def easingCoordinates (keyframe : Members R) (next? : Option (Members R)) (axis : Int) :
    Except Fault (Option (List (Number R))) :=
  let incoming := match keyframe.get "i", next? with
    | .null, some next => next.get "i"
    | own, _ => own
  match keyframe.get "o", incoming with
  | .object outgoing, .object incoming => do
    let x1 ← (Members.get outgoing "x").component axis
    let y1 ← (Members.get outgoing "y").component axis
    let x2 ← (Members.get incoming "x").component axis
    let y2 ← (Members.get incoming "y").component axis
    return do return [← x1, ← y1, ← x2, ← y2]
  | _, _ => .ok none

/-- Handles along the diagonal move at an even pace. -/
def isLinear (coordinates : List R) : Bool :=
  coordinates == [0, 0, 1, 1]

/-- The easing between two source keyframes, none where it is linear or incomplete. -/
def easing (keyframe : Members R) (next? : Option (Members R)) (axis : Int) :
    Except Fault (Option String) := do
  match ← easingCoordinates keyframe next? axis with
  | none => return none
  | some coordinates =>
    let reals ← coordinates.mapM Number.toReal
    if isLinear reals then return none
    else
      let texts ← coordinates.mapM Text.compactNumber
      return some ("cubic-bezier(" ++ ",".intercalate texts ++ ")")

end MotionScene
