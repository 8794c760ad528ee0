import MotionScene.Layer.Placement
import MotionScene.Shape.Compile

/-!
# Layer lists

Layers of shapes, empty layers, precompositions and solids become groups; layers of other
kinds leave nothing.  The group of a precomposition holds the scene of its own layers,
whose clock starts later by the start offset of the layer.  The elements of a layer list
stand in reverse order, so that the first layer is drawn last.
-/

namespace MotionScene

variable {R : Type} [Scalar R]

/-- The rectangle of a solid layer, which covers it from its corner at the origin. -/
def solidRect (layer : Members R) : Except Fault (Element R) := do
  let side := fun key => (layer.get key).orElse (.num (.whole 0))
  let middle := fun (length : Value R) =>
    match length.quantity? with
    | some n => n.divide (.whole 2)
    | none => .error .wrongKind
  let cx ← middle (side "sw")
  let cy ← middle (side "sh")
  let shape : Members R := [("cx", .num (.real cx)), ("cy", .num (.real cy)),
    ("width", side "sw"), ("height", side "sh")]
  let style : Members R := [("fill", (layer.get "sc").orElse (.text "none"))]
  return .leaf .rect [("shape", .object shape), ("style", .object style)] none

/-- The clock of the layers inside a precomposition. -/
def nestedClock (layer : Members R) (clock : Clock R) : Except Fault (Clock R) :=
  match ((layer.get "st").orElse (.num (.whole 0))).quantity? with
  | some frames => clock.shifted frames
  | none => .error .wrongKind

/-- Names, places and pivots the group of a layer. -/
def finishLayer (layer : Members R) (children : List (Element R)) (clock : Clock R) :
    Except Fault (Pivoted R) := do
  let group := Element.group children (nameOf layer clock.options)
  (← group.withTransform (layer.get "ks") clock).pivot

mutual

/-- The elements of a value that stands where a layer list is expected. -/
def assembleLayers (clock : Clock R) : Value R → Report R (List (Element R))
  | .list items => do placeLayers (← buildLayers clock items)
  | _ => pure []

/-- The layers of a list that leave an element, last layer first. -/
def buildLayers (clock : Clock R) : List (Value R) → Report R (List (BuiltLayer R))
  | [] => pure []
  | layer :: rest => do
    let before ← buildLayers clock rest
    match layer with
    | .object members =>
      match ← buildMembers clock members members with
      | none => return before
      | some pivoted => return before ++ [← register before pivoted members]
    | _ => return before

/-- The element of a layer, if it leaves one.  The search for the nested layers goes
through the members that are left. -/
def buildMembers (clock : Clock R) (layer : Members R) :
    (left : List (String × Value R)) → Report R (Option (Pivoted R))
  | left => do
    let kind := LayerKind.ofCode (layer.get "ty")
    match kind with
    | .shape =>
      return some (← finishLayer layer (← compileShapes clock (layer.get "shapes")) clock)
    | .null => return some (← finishLayer layer [] clock)
    | .precomp =>
      let inner ← nestedClock layer clock
      return some (← finishLayer layer (← assembleNested inner left) clock)
    | .solid => return some (← finishLayer layer [← solidRect layer] clock)
    | kind =>
      Traced.tell (.skippedLayer kind (layer.get "nm") (layer.get "ty"))
      return none

/-- The elements of the layers nested in a precomposition. -/
def assembleNested (clock : Clock R) : List (String × Value R) → Report R (List (Element R))
  | [] => pure []
  | (key, value) :: rest =>
    if key = "layers" then assembleLayers clock value else assembleNested clock rest

end

def buildLayer (clock : Clock R) : Value R → Report R (Option (Pivoted R))
  | .object members => buildMembers clock members members
  | _ => liftM (m := Except Fault) (.error .noMembers)

end MotionScene
