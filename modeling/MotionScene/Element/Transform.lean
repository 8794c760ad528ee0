import MotionScene.Element.Basic

/-!
# Transforms

A transform of a document moves an anchor point to the origin, scales, rotates and moves
to a position.  It becomes the attributes `x`, `y`, `scaleX`, `scaleY` and `rotation` of
an element, together with `anchorX` and `anchorY`, which the target has no notion of and
which the pivot takes away again.
-/

namespace MotionScene

variable {R : Type} [Scalar R]

/-- Whether a position keeps its two axes in properties of their own. -/
def isSplitPosition (position : Value R) : Bool :=
  match position with
  | .object members =>
    (Members.get members "s").holds && (Members.has members "x" || Members.has members "y")
  | _ => false

/-- Writes the position of a transform, joint or split. -/
def resolvePosition (position : Value R) (clock : Clock R) (body : Body R) :
    Except Fault (Body R) :=
  if isSplitPosition position then do
    let body ← resolve (position.members.get "x") "" ["x"] .none clock body
    resolve (position.members.get "y") "" ["y"] .none clock body
  else resolve position "" ["x", "y"] .none clock body

/-- The rotation of a transform, under either of its two names. -/
def rotationOf (transform : Members R) : Value R :=
  (transform.get? "r").getD (transform.get "rz")

/-- The attributes and timelines of a transform. -/
def composeTransform (transform : Value R) (clock : Clock R) : Except Fault (Body R) :=
  match transform with
  | .object members => do
    let body ← resolvePosition (Members.get members "p") clock Body.empty
    let body ← resolve (Members.get members "s") "" ["scaleX", "scaleY"] .percent clock body
    let body ← resolve (rotationOf members) "" ["rotation"] .rotation clock body
    resolve (Members.get members "a") "" ["anchorX", "anchorY"] .none clock body
  | _ => .ok Body.empty

def Body.merge (body extra : Body R) : Body R :=
  ⟨body.attributes.merge extra.attributes, body.timelines ++ extra.timelines⟩

def Element.withTransform (element : Element R) (transform : Value R) (clock : Clock R) :
    Except Fault (Element R) := do
  let body ← composeTransform transform clock
  return { element with body := element.body.merge body }

end MotionScene
