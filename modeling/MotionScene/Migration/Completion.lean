import MotionScene.Migration.Bezier
import MotionScene.Migration.Layers
import MotionScene.Migration.Shapes

/-!
# Completing a layer

The parts of a layer's completion that concern the layer alone: the handles of its masks
and shapes become absolute, a text layer that moves as a whole is marked, and a layer
with a matte marks the one before it.
-/

namespace MotionScene

variable {R : Type} [Scalar R]

/-- The beziers of a property with absolute handles. -/
def completeBeziers : Change (Value R) :=
  changeBeziers makeAbsolute

def completeMasks : Change (Members R) :=
  changeMasks (Members.adjust "pt" completeBeziers)

def completeShapes : Change (Members R) :=
  Members.adjust "shapes" (changeShapes fun entry =>
    if (entry.get "ty").isText "sh" then entry.adjust "ks" completeBeziers else .ok entry)

/-- Whether the text of a layer is neither animated by character nor set along a mask. -/
def movesAsWhole (text : Value R) : Bool :=
  match text with
  | .object members =>
    !(Members.get members "a").holds && !(Members.get members "p").members.has "m"
  | _ => false

/-- A text layer, marked if it moves as a whole. -/
def completeText (layer : Members R) : Members R :=
  if movesAsWhole (layer.get "t") then layer.set "singleShape" (.bool true) else layer

/-- A layer with its masks and its own content completed.  A precomposition has no
content of its own. -/
def completeContent (layer : Members R) : Except Fault (Members R) := do
  let layer ← completeMasks layer
  match LayerKind.ofCode (layer.get "ty") with
  | .shape => completeShapes layer
  | .text => return completeText layer
  | _ => return layer

/-- The layers before one with a matte, latest first: the latest is told the kind of the
matte, if it is an object. -/
def markMatte (layer : Members R) (before : List (Value R)) : List (Value R) :=
  match before with
  | .object previous :: earlier =>
    if (layer.get "tt").holds then .object (Members.set previous "td" (layer.get "tt")) :: earlier
    else before
  | before => before

/-- Whether a layer is to be completed: it has a transform. -/
def isCompletable (layer : Members R) : Bool :=
  layer.has "ks"

/-- Whether a layer stands for a composition among the assets. -/
def isPrecomp (layer : Members R) : Bool :=
  isLayerKind .precomp layer

end MotionScene
