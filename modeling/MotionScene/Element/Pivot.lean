import MotionScene.Element.Transform

/-!
# Pivots

The target rotates and scales about the origin of an element.  An element with an anchor
is therefore put into a group of its own: the group takes position, scale and rotation,
and the element is moved so that its anchor lies at the origin of the group.  Timelines
of the anchor move the element, with their values negated.
-/

namespace MotionScene

/-- The attributes that place an element. -/
def transformKeys : List String := ["x", "y", "scaleX", "scaleY", "rotation"]

/-- The anchor attributes, each with the position attribute that takes its place. -/
def anchorKeys : List (String × String) := [("anchorX", "x"), ("anchorY", "y")]

variable {R : Type}

def Timeline.touches (timeline : Timeline R) (keys : List String) : Bool :=
  timeline.touchedKeys.any keys.contains

def Timeline.movesAnchor (timeline : Timeline R) : Bool :=
  timeline.touches (anchorKeys.map (·.1))

variable [Scalar R]

namespace Body

/-- Whether an element has an anchor that is animated or not zero. -/
def hasAnchor (body : Body R) : Bool :=
  anchorKeys.any (fun key => (body.attributes.get key.1).holds)
    || body.timelines.any Timeline.movesAnchor

end Body

/-- The opposite of a number; nothing has the opposite 0. -/
def opposite (value : Value R) : Except Fault (Value R) :=
  if value.holds then
    match value.quantity? with
    | some n => .ok (.num n.negate)
    | none => .error .wrongKind
  else .ok (.num (.whole 0))

/-- Turns the anchor attributes into position attributes; a missing one counts as 0. -/
def retargetAttributes (attributes : Members R) : Except Fault (Members R) :=
  anchorKeys.foldlM (fun attributes key => do
    let value ← opposite ((attributes.get? key.1).getD (.num (.whole 0)))
    return (attributes.erase key.1).set key.2 value) attributes

/-- Turns the anchor attributes of a patch into position attributes. -/
def retargetPatch (patch : Members R) : Except Fault (Members R) :=
  anchorKeys.foldlM (fun patch key =>
    match Members.get? patch key.1 with
    | none => .ok patch
    | some value => do return (Members.erase patch key.1).set key.2 (← opposite value)) patch

def Timeline.retarget (timeline : Timeline R) : Except Fault (Timeline R) := do
  let keyframes ← timeline.keyframes.mapM fun keyframe => do
    let patch ← retargetPatch keyframe.patch
    return { keyframe with patch }
  return { timeline with keyframes }

/-- A body taken apart at its anchor: the body of the group around the element and the
body that the element keeps. -/
def Body.splitAtAnchor (body : Body R) : Except Fault (Body R × Body R) := do
  let isPlacing := fun (entry : String × Value R) => transformKeys.contains entry.1
  let inner ← retargetAttributes (body.attributes.filter fun entry => !isPlacing entry)
  let kept ← (body.timelines.filter fun timeline => !timeline.touches transformKeys).mapM
    fun timeline => if timeline.movesAnchor then timeline.retarget else .ok timeline
  return (⟨body.attributes.filter isPlacing, body.timelines.filter (·.touches transformKeys)⟩,
    ⟨inner, kept⟩)

/-- A body without anchor attributes. -/
def Body.withoutAnchor (body : Body R) : Body R :=
  let erased := anchorKeys.foldl (fun attributes key => attributes.erase key.1) body.attributes
  { body with attributes := erased }

/-- An element whose anchor, if it had one, has been taken into a group around it. -/
structure Pivoted (R : Type) where
  /-- The body of the group around the element, if there is one. -/
  wrapper? : Option (Body R)
  /-- The element itself; content of its local space goes here. -/
  inner : Element R

namespace Pivoted

/-- What takes the place of the element in the scene. -/
def outer (pivoted : Pivoted R) : Element R :=
  match pivoted.wrapper? with
  | none => pivoted.inner
  | some body => ⟨.group, body, some [pivoted.inner], none⟩

def adopt (pivoted : Pivoted R) (more : List (Element R)) : Pivoted R :=
  { pivoted with inner := pivoted.inner.adopt more }

omit [Scalar R] in
theorem adopt_nil (pivoted : Pivoted R) : pivoted.adopt [] = pivoted := by
  obtain ⟨wrapper?, type, body, children?, name?⟩ := pivoted
  cases children? <;> simp [adopt, Element.adopt]

end Pivoted

/-- Takes the anchor of an element into a group around it. -/
def Element.pivot (element : Element R) : Except Fault (Pivoted R) :=
  if element.body.hasAnchor then do
    let (wrapper, body) ← element.body.splitAtAnchor
    return ⟨some wrapper, { element with body }⟩
  else .ok ⟨none, { element with body := element.body.withoutAnchor }⟩

end MotionScene
