import MotionScene.Element.Pivot

/-!
# Drafts

A draft is a scene that is built by hand, element by element, where a compiled scene comes
from a document in one go.  Its elements are known by identifiers and are changed one at
a time; children are held by place, so a change of an element shows wherever the element
hangs.  An element of a draft is read out as a tree, which fails for an element that hangs
below itself.
-/

namespace MotionScene

variable {R : Type}

structure DraftNode (R : Type) where
  type : ElementType
  body : Body R
  /-- The places of the children; none for elements that cannot have any. -/
  children? : Option (List Nat)
  name? : Option String

structure Draft (R : Type) where
  /-- The elements in the order of their places. -/
  nodes : List (DraftNode R)
  /-- The places that identifiers stand for; the latest binding comes first. -/
  places : List (String × Nat)

namespace Draft

def empty : Draft R := ⟨[], []⟩

def placeOf (draft : Draft R) (id : String) : Except Fault Nat :=
  match draft.places.lookup id with
  | some place => .ok place
  | none => .error .unknownKey

def nodeAt (draft : Draft R) (place : Nat) : Except Fault (DraftNode R) :=
  match draft.nodes[place]? with
  | some node => .ok node
  | none => .error .unknownKey

/-- Adds an element and binds an identifier to it. -/
def add (draft : Draft R) (id : String) (node : DraftNode R) : Draft R :=
  ⟨draft.nodes ++ [node], (id, draft.nodes.length) :: draft.places⟩

def bindTo (draft : Draft R) (id : String) (place : Nat) : Draft R :=
  { draft with places := (id, place) :: draft.places }

def put (draft : Draft R) (place : Nat) (node : DraftNode R) : Draft R :=
  { draft with nodes := draft.nodes.set place node }

def addGroup (draft : Draft R) (id : String) (children : List String) (name? : Option String) :
    Except Fault (Draft R) := do
  let places ← children.mapM draft.placeOf
  return draft.add id ⟨.group, Body.empty, some places, name?⟩

def addLeaf (draft : Draft R) (id : String) (type : ElementType) (attributes : Members R)
    (name? : Option String) : Draft R :=
  draft.add id ⟨type, ⟨attributes, []⟩, none, name?⟩

/-- Hangs an element below another, which has to be a group. -/
def adopt (draft : Draft R) (id child : String) : Except Fault (Draft R) := do
  let place ← draft.placeOf id
  let childPlace ← draft.placeOf child
  let node ← draft.nodeAt place
  match node.children? with
  | none => .error (.childless node.type)
  | some places => return draft.put place { node with children? := some (places ++ [childPlace]) }

def changeBody (draft : Draft R) (id : String) (change : Body R → Except Fault (Body R)) :
    Except Fault (Draft R) := do
  let place ← draft.placeOf id
  let node ← draft.nodeAt place
  return draft.put place { node with body := ← change node.body }

def animate (draft : Draft R) (id : String) (timeline : Timeline R) : Except Fault (Draft R) :=
  draft.changeBody id fun body => .ok { body with timelines := body.timelines ++ [timeline] }

/-! ## Reading elements out -/

/-- The tree of the element at a place, down to a depth.  A tree that is deeper than the
draft has elements contains itself. -/
def treeAt (draft : Draft R) : (depth place : Nat) → Except Fault (Element R)
  | 0, _ => .error .endless
  | depth + 1, place => do
    let node ← draft.nodeAt place
    match node.children? with
    | none => return ⟨node.type, node.body, none, node.name?⟩
    | some places =>
      let children ← places.mapM (treeAt draft depth)
      return ⟨node.type, node.body, some children, node.name?⟩

/-- The element that an identifier stands for, with all below it. -/
def element (draft : Draft R) (id : String) : Except Fault (Element R) := do
  draft.treeAt draft.nodes.length (← draft.placeOf id)

def body (draft : Draft R) (id : String) : Except Fault (Body R) := do
  return (← draft.nodeAt (← draft.placeOf id)).body

variable [Scalar R]

/-- The place of the first element with a name among those at a place and below it, down
to a depth.  Elements are searched before their children, so an element that hangs below
itself does no harm where the name is found before. -/
def searchAt (draft : Draft R) (name : Value R) : (depth place : Nat) → Except Fault (Option Nat)
  | 0, _ => .error .endless
  | depth + 1, place => do
    let node ← draft.nodeAt place
    if Element.isNamed name ⟨node.type, node.body, none, node.name?⟩ then return some place
    else (node.children?.getD []).findSomeM? (searchAt draft name depth)

/-- The first element with a name among the one that an identifier stands for and all
below it; null names elements without one. -/
def find? (draft : Draft R) (id : String) (name : Value R) :
    Except Fault (Option (Element R)) := do
  match ← draft.searchAt name draft.nodes.length (← draft.placeOf id) with
  | some place => return some (← draft.treeAt draft.nodes.length place)
  | none => return none

def transform (draft : Draft R) (id : String) (value : Value R) (clock : Clock R) :
    Except Fault (Draft R) :=
  draft.changeBody id fun body => do return body.merge (← composeTransform value clock)

end Draft

/-! ## Pivots

A pivot that fails leaves the element as it is at the first anchor value without an
opposite: what was moved before is moved, and that value itself is gone. -/

variable [Scalar R]

/-- Moves anchor members to position members as far as that goes.  The flag tells
whether all were moved. -/
def moveAnchors (anchors : List (String × String × Value R)) (members : Members R) :
    Members R × Bool :=
  match anchors with
  | [] => (members, true)
  | (anchor, position, value) :: rest =>
    let without := members.erase anchor
    match opposite value with
    | .ok moved => moveAnchors rest (without.set position moved)
    | .error _ => (without, false)

/-- The attributes that a failing pivot leaves. -/
def Body.leftAttributes (body : Body R) : Members R × Bool :=
  let kept := body.attributes.filter fun entry => !transformKeys.contains entry.1
  moveAnchors (anchorKeys.map fun (anchor, position) =>
    (anchor, position, (Members.get? kept anchor).getD (.num (.whole 0)))) kept

/-- The keyframes that a failing pivot leaves of a timeline of the anchor. -/
def leftKeyframes : List (Keyframe R) → List (Keyframe R) × Bool
  | [] => ([], true)
  | keyframe :: rest =>
    let (patch, whole) := moveAnchors (anchorKeys.filterMap fun (anchor, position) =>
      (keyframe.patch.get? anchor).map fun value => (anchor, position, value)) keyframe.patch
    let (later, all) := if whole then leftKeyframes rest else (rest, false)
    ({ keyframe with patch } :: later, all)

/-- The timelines that a failing pivot leaves. -/
def leftTimelines : List (Timeline R) → List (Timeline R)
  | [] => []
  | timeline :: rest =>
    if timeline.touches transformKeys || !timeline.movesAnchor then timeline :: leftTimelines rest
    else
      let (keyframes, whole) := leftKeyframes timeline.keyframes
      { timeline with keyframes } :: if whole then leftTimelines rest else rest

/-- The body that a failing pivot leaves. -/
def Body.leftByPivot (body : Body R) : Body R :=
  match body.leftAttributes with
  | (attributes, true) => ⟨attributes, leftTimelines body.timelines⟩
  | (attributes, false) => ⟨attributes, body.timelines⟩

namespace Draft

/-- Takes the anchor of an element into a group around it and binds an identifier to
what takes the place of the element; the answer tells whether that is the element
itself. -/
def pivot (draft : Draft R) (id outer : String) : Draft R × Except Fault Bool :=
  match draft.placeOf id with
  | .error fault => (draft, .error fault)
  | .ok place =>
    match draft.nodeAt place with
    | .error fault => (draft, .error fault)
    | .ok node =>
      if node.body.hasAnchor then
        match node.body.splitAtAnchor with
        | .error fault =>
          (draft.put place { node with body := node.body.leftByPivot }, .error fault)
        | .ok (wrapper, body) =>
          ((draft.put place { node with body }).add outer ⟨.group, wrapper, some [place], none⟩,
            .ok false)
      else
        let draft := draft.put place { node with body := node.body.withoutAnchor }
        (draft.bindTo outer place, .ok true)

end Draft

end MotionScene
