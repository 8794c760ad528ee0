import MotionScene.Element.Pivot
import MotionScene.Layer.Key
import MotionScene.Notice

/-!
# Placing layers

A layer that names another one as its parent is moved from the top of the scene into the
local space of its parent.  A link is honoured when a layer has the index it names and
following the links does not lead back; all other layers stay at the top.  Of several
layers with one index only the one that was built first can be named and moved.
-/

namespace MotionScene

variable {R : Type} [Scalar R]

structure BuiltLayer (R : Type) where
  pivoted : Pivoted R
  /-- The index under which the layer is known; none for a layer that has none or whose
  index is taken. -/
  key? : Option (LayerKey R)
  /-- The index as the document writes it. -/
  index : Value R
  parent : Value R

/-- The place of the layer that is known under an index. -/
def placeOf? (layers : List (BuiltLayer R)) (key : LayerKey R) : Option Nat :=
  layers.findIdx? fun layer => layer.key? == some key

/-- Registers a layer after those built before it. -/
def register (before : List (BuiltLayer R)) (pivoted : Pivoted R) (members : Members R) :
    Report R (BuiltLayer R) := do
  let index := members.get "ind"
  match ← LayerKey.ofValue? index with
  | none => return ⟨pivoted, none, index, members.get "parent"⟩
  | some key =>
    if (placeOf? before key).isSome then
      Traced.tell (.duplicateIndex index)
      return ⟨pivoted, none, index, members.get "parent"⟩
    else return ⟨pivoted, some key, index, members.get "parent"⟩

/-- The parent that a layer names. -/
inductive ParentLink where
  /-- The layer names no parent, or is not known itself. -/
  | missing
  /-- No layer is known under the index that the layer names. -/
  | unknown
  /-- The layer at this place. -/
  | layer (place : Nat)
  deriving DecidableEq, Repr

def ParentLink.place? : ParentLink → Option Nat
  | layer place => some place
  | _ => none

/-- The link from a layer to the parent it names. -/
def linkOf (layers : List (BuiltLayer R)) (layer : BuiltLayer R) : Except Fault ParentLink :=
  match layer.key? with
  | none => .ok .missing
  | some _ => do
    match ← LayerKey.ofValue? layer.parent with
    | none => return .missing
    | some parent => return (placeOf? layers parent).elim .unknown .layer

/-- The links between layers, from place to place. -/
def linksOf (parents : List ParentLink) : List (Nat × Nat) :=
  parents.zipIdx.filterMap fun (link, place) => link.place?.map (place, ·)

/-- The parent into whose space the layer at a place moves, if its link is honoured. -/
def honouredParent (links : List (Nat × Nat)) (layer : BuiltLayer R) (place : Nat) :
    ParentLink → Report R (Option Nat)
  | .missing => pure none
  | .unknown => do
    Traced.tell (.unknownParent layer.index layer.parent)
    return none
  | .layer parent => do
    if closesCycle links place then
      Traced.tell (.parentCycle layer.index)
      return none
    else return some parent

/-- A layer at its place, with the place of the parent it moves to. -/
structure PlacedLayer (R : Type) where
  pivoted : Pivoted R
  place : Nat
  parent? : Option Nat

/-- Whether a layer moves into the space of another one. -/
def PlacedLayer.movesTo (child layer : PlacedLayer R) : Bool :=
  child.parent? = some layer.place

/-- The element of a layer with the elements of the layers that move into it, down to a
depth. -/
def grow (layers : List (PlacedLayer R)) : (depth : Nat) → PlacedLayer R → Element R
  | 0, layer => layer.pivoted.outer
  | depth + 1, layer =>
    (layer.pivoted.adopt
      ((layers.filter (·.movesTo layer)).map (grow layers depth))).outer

/-- The elements that stay at the top, with all others below them.  No way down passes a
layer twice, so there are no more levels than layers. -/
def growForest (layers : List (PlacedLayer R)) : List (Element R) :=
  (layers.filter (·.parent?.isNone)).map (grow layers layers.length)

def placeAll (layers : List (BuiltLayer R)) : Report R (List (PlacedLayer R)) := do
  let parents ← layers.mapM (m := Except Fault) (linkOf layers)
  (layers.zip parents).zipIdx.mapM fun ((layer, link), place) => do
    let parent? ← honouredParent (linksOf parents) layer place link
    return ⟨layer.pivoted, place, parent?⟩

def placeLayers (layers : List (BuiltLayer R)) : Report R (List (Element R)) := do
  return growForest (← placeAll layers)

end MotionScene
