import MotionScene.Drawing.Command
import MotionScene.Text.Compact

/-!
# Path data

Commands as the text of a vector graphics path.  An arc is joined to the point that the
commands before it left, or begins anew where they left none; a full turn is written as
two half ones, since a single arc cannot end where it starts.
-/

namespace MotionScene

open scoped Scalar

variable {R : Type} [Scalar R]

/-- A letter and the numbers that go with it. -/
def pathItem (letter : String) (values : List R) : String :=
  letter ++ " " ++ " ".intercalate (values.map Text.compact)

/-- The direction of an angle as a point of the unit circle.  An infinite angle has none. -/
def direction (angle : R) : Except Fault (Point R) :=
  match Scalar.special? angle with
  | some (.infinity _) => .error .noMeaning
  | _ => .ok ⟨Scalar.cosine angle, Scalar.sine angle⟩

/-- The point of a circle at an angle. -/
def onCircle (center : Point R) (radius angle : R) : Except Fault (Point R) := do
  let unit ← direction angle
  return ⟨center.x + radius * unit.x, center.y + radius * unit.y⟩

/-- An arc as path data. -/
def arcData (joined : Bool) (center : Point R) (radius start stop : R) (anticlockwise : Bool) :
    Except Fault String := do
  let sweep : R := if anticlockwise then 0 else 1
  let arcTo := fun (large : R) (target : Point R) =>
    pathItem "A" [radius, radius, 0, large, sweep, target.x, target.y]
  let first ← onCircle center radius start
  let lead := pathItem (if joined then "L" else "M") [first.x, first.y]
  let turn := Scalar.magnitude (stop - start)
  if 2 * Scalar.pi - Scalar.decimal 1 9 ≤ turn then
    let middle ← onCircle center radius (start + Scalar.pi)
    return " ".intercalate [lead, arcTo 1 middle, arcTo 1 first]
  else
    let last ← onCircle center radius stop
    return lead ++ " " ++ arcTo (if Scalar.pi < turn then 1 else 0) last

namespace Command

/-- Whether an arc after the command is joined to it. -/
def leavesPoint : Command R → Bool
  | closePath | rect .. => false
  | _ => true

def data (joined : Bool) : Command R → Except Fault String
  | moveTo target => .ok (pathItem "M" [target.x, target.y])
  | lineTo target => .ok (pathItem "L" [target.x, target.y])
  | curveTo first second target =>
    .ok (pathItem "C" [first.x, first.y, second.x, second.y, target.x, target.y])
  | closePath => .ok "Z"
  | rect corner width height =>
    .ok (pathItem "M" [corner.x, corner.y] ++ " " ++ pathItem "h" [width] ++ " "
      ++ pathItem "v" [height] ++ " " ++ pathItem "h" [-width] ++ " Z")
  | arc center radius start stop anticlockwise =>
    arcData joined center radius start stop anticlockwise

end Command

def pathItems (joined : Bool) : List (Command R) → Except Fault (List String)
  | [] => .ok []
  | command :: rest => do
    let item ← command.data joined
    return item :: (← pathItems (joined || command.leavesPoint) rest)

def pathData (commands : List (Command R)) : Except Fault String := do
  return " ".intercalate (← pathItems false commands)

end MotionScene
