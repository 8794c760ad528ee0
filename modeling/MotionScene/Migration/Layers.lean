import MotionScene.Document.Adjust
import MotionScene.Document.Code

/-!
# The layer lists of a document

A document has layers at the top and inside its assets.  Masks belong to a layer that is
flagged to have some.
-/

namespace MotionScene

variable {R : Type}

/-- Changes every layer list of a document: the one at the top, then those of assets. -/
def changeLayerLists (change : Change (List (Value R))) (document : Members R) :
    Except Fault (Members R) := do
  let changeList : Change (Value R) := fun
    | .list layers => (change layers).map .list
    | value => .ok value
  let document ← document.adjust "layers" changeList
  document.adjust "assets" (Value.adjustItems (Value.adjustMember "layers" changeList))

def changeLayers (change : Change (Members R)) : Change (Members R) :=
  changeLayerLists fun layers => layers.mapM (Value.adjustMembers change)

def isLayerKind (kind : LayerKind) (layer : Members R) : Bool :=
  LayerKind.ofCode (layer.get "ty") = kind

def changeLayersOf (kind : LayerKind) (change : Change (Members R)) : Change (Members R) :=
  changeLayers fun layer => if isLayerKind kind layer then change layer else .ok layer

def layersOf (document : Members R) : List (Members R) :=
  let lists := document.get "layers" :: (document.get "assets").items.map fun asset =>
    asset.members.get "layers"
  lists.flatMap fun layers => layers.items.filterMap Value.members?

/-- Changes every mask of a layer that is flagged to have masks.  Texts and objects hold
no masks; numbers and truth values cannot stand for a list of them. -/
def changeMasks [Scalar R] (change : Change (Members R)) (layer : Members R) :
    Except Fault (Members R) :=
  if (layer.get "hasMask").holds then
    layer.adjust "masksProperties" fun masks =>
      match masks with
      | .list _ => masks.adjustItems (Value.adjustMembers change)
      | .bool true => .error .wrongKind
      | .num n => if n.isZero then .ok masks else .error .wrongKind
      | masks => .ok masks
  else .ok layer

end MotionScene
