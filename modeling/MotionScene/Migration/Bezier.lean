import MotionScene.Document.Adjust

/-!
# Beziers inside a document

A path property holds one bezier, or one at the start and one at the end of each of its
keyframes.  Handles that are relative to their vertex become absolute by adding the
vertex, coordinate by coordinate.
-/

namespace MotionScene

variable {R : Type}

def isBezier : Value R → Bool
  | .object members => (Members.get members "v").items?.isSome
  | _ => false

def changeBezier (change : Change (Members R)) (value : Value R) : Except Fault (Value R) :=
  if isBezier value then value.adjustMembers change else .ok value

/-- Changes every bezier of a path property. -/
def changeBeziers (change : Change (Members R)) : Change (Value R) :=
  Value.adjustMember "k" fun content =>
    if isBezier content then content.adjustMembers change
    else
      content.adjustItems (Value.adjustMembers fun keyframe => do
        let keyframe ← keyframe.adjust "s" (Value.adjustFirst (changeBezier change))
        keyframe.adjust "e" (Value.adjustFirst (changeBezier change)))

section Tangents

variable [Scalar R]

/-- Adds a coordinate to another one.  Numbers are added; texts are joined; a list takes
up the items of a list, the characters of a text or the keys of an object. -/
def addCoordinate (coordinate addend : Value R) : Except Fault (Value R) :=
  match coordinate, addend with
  | .text s, .text t => .ok (.text (s ++ t))
  | .list items, .list more => .ok (.list (items ++ more))
  | .list items, .text t =>
    .ok (.list (items ++ t.toList.map fun c => .text (String.singleton c)))
  | .list items, .object members =>
    .ok (.list (items ++ (Members.keys members).map .text))
  | coordinate, addend =>
    match coordinate.quantity?, addend.quantity? with
    | some m, some n => (m.add n).map .num
    | _, _ => .error .wrongKind

/-- Adds coordinates pairwise, at most as many pairs as given. -/
def addCoordinates : (limit : Nat) → List (Value R) → List (Value R) →
    Except Fault (List (Value R))
  | limit + 1, x :: xs, y :: ys => do
    let sum ← addCoordinate x y
    return sum :: (← addCoordinates limit xs ys)
  | _, xs, _ => .ok xs

/-- A handle with its vertex added, if both are lists. -/
def absoluteHandle (handle vertex : Value R) : Except Fault (Value R) :=
  match handle, vertex with
  | .list xs, .list ys => (addCoordinates 2 xs ys).map .list
  | handle, _ => .ok handle

/-- Handles with their vertices added; handles without a vertex stay. -/
def absoluteHandles : List (Value R) → List (Value R) → Except Fault (List (Value R))
  | handle :: handles, vertex :: vertices => do
    let first ← absoluteHandle handle vertex
    return first :: (← absoluteHandles handles vertices)
  | handles, _ => .ok handles

/-- The handles under a key made absolute. -/
def absoluteSide (vertices : List (Value R)) : Change (Value R)
  | .list handles => (absoluteHandles handles vertices).map .list
  | value => .ok value

def makeAbsolute (bezier : Members R) : Except Fault (Members R) := do
  let vertices := (bezier.get "v").items
  let bezier ← bezier.adjust "i" (absoluteSide vertices)
  bezier.adjust "o" (absoluteSide vertices)

end Tangents

end MotionScene
