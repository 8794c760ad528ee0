import MotionScene.Shape.Binding
import MotionScene.Shape.Style

/-!
# Outlines of shapes

Paths, ellipses and rectangles become elements without children.  Their geometry stands
under the attribute `shape` and their look under `style`.  An animated path has the
geometry of its first keyframe as its constant one.
-/

namespace MotionScene

open scoped Scalar

variable {R : Type} [Scalar R]

/-- The geometry of a path by its vertices, handles and closed flag, as an attribute. -/
def pathGeometry (bezier : Members R) : Members R :=
  let part := fun key => (bezier.get key).orElse (.list [])
  [("in", part "i"), ("out", part "o"), ("v", part "v"),
   ("close", .bool (bezier.get "c").holds)]

/-- The geometry of a path that has none. -/
def emptyGeometry : Members R :=
  [("in", .list []), ("out", .list []), ("v", .list []), ("close", .bool false)]

/-- The members of a value that has vertices and both kinds of handles. -/
def bezier? : Value R → Option (Members R)
  | .object members =>
    if Members.has members "v" && Members.has members "i" && Members.has members "o" then
      some members
    else none
  | _ => none

/-- A keyframe wraps its bezier into a list. -/
def unwrapBezier : Value R → Value R
  | .list (first :: _) => first
  | value => value

/-- The patch that sets the geometry of a path to a keyframe value. -/
def pathRule : PatchRule R := fun value =>
  .ok ((bezier? (unwrapBezier value)).map fun bezier => [("shape", .object (pathGeometry bezier))])

/-- The timeline of the geometry of a path, where it is animated. -/
def pathTimeline (content : Value R) (clock : Clock R) : Except Fault (Option (Timeline R)) :=
  match content with
  | .list (.object first :: rest) => buildTimeline (.object first :: rest) pathRule clock 0
  | _ => .ok none

/-- The geometry of the first keyframe of a timeline. -/
def firstGeometry (timeline : Timeline R) : Members R :=
  match timeline.keyframes with
  | [] => emptyGeometry
  | first :: _ => (first.patch.get "shape").members

def pathBody (property : Value R) (clock : Clock R) : Except Fault (Body R) :=
  match bezier? property.content with
  | some bezier => .ok ⟨[("shape", .object (pathGeometry bezier))], []⟩
  | none => do
    match ← pathTimeline property.content clock with
    | some timeline => return ⟨[("shape", .object (firstGeometry timeline))], [timeline]⟩
    | none => return ⟨[("shape", .object emptyGeometry)], []⟩

/-- The body of an ellipse: its center and its radii. -/
def ellipseBody (shape : Members R) (clock : Clock R) : Except Fault (Body R) := do
  let body ← resolve (shape.get "p") "shape" ["cx", "cy"] .none clock
    ⟨[("shape", .object [])], []⟩
  resolve (shape.get "s") "shape" ["rx", "ry"] .half clock body

/-- The body of a rectangle: its center, its size and the radius of its corners. -/
def rectBody (shape : Members R) (clock : Clock R) : Except Fault (Body R) := do
  let body ← resolve (shape.get "p") "shape" ["cx", "cy"] .none clock
    ⟨[("shape", .object [])], []⟩
  let body ← resolve (shape.get "s") "shape" ["width", "height"] .none clock body
  resolve (shape.get "r") "shape" ["r"] .none clock body

def geometryBody (kind : ShapeKind) (shape : Members R) (clock : Clock R) :
    Except Fault (Body R) :=
  match kind with
  | .path => pathBody (shape.get "ks") clock
  | .ellipse => ellipseBody shape clock
  | _ => rectBody shape clock

/-- The name that a shape or a layer hands on to its element. -/
def nameOf (members : Members R) (options : Options R) : Option String :=
  if options.keepNames then (members.get "nm").text? else none

def outlineElement (kind : ShapeKind) (shape : Members R) (modifiers : Modifiers (Members R))
    (clock : Clock R) : Except Fault (Element R) := do
  let body ← geometryBody kind shape clock
  let body ← applyStyle modifiers.fill modifiers.stroke clock body
  let body ← applyTrim modifiers.trim clock body
  let body ← applyRepeater modifiers.repeater body
  return ⟨kind.elementType, body, none, nameOf shape clock.options⟩

end MotionScene
