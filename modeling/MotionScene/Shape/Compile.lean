import MotionScene.Element.Pivot
import MotionScene.Notice
import MotionScene.Shape.Outline

/-!
# Shape lists

A shape list mixes outlines, groups with shape lists of their own, the transform of the
group it belongs to, and modifiers.  Its elements stand in reverse order, so that the
first shape is drawn last.  Hidden outlines and groups are left out; hidden modifiers
and transforms still count.
-/

namespace MotionScene

variable {R : Type} [Scalar R]

/-- The entries of a shape list with their kinds; entries without members keep none. -/
def shapeEntries (shapes : List (Value R)) : List (ShapeKind × Members R) :=
  shapes.map fun shape => (ShapeKind.ofEntry shape, shape.members)

/-- The transform of a group: the first entry of that kind. -/
def groupTransform? (items : List (Value R)) : Option (Value R) :=
  items.find? fun item => ShapeKind.ofEntry item = .transform

def groupElement (shape : Members R) (items : List (Value R)) (children : List (Element R))
    (clock : Clock R) : Except Fault (Element R) := do
  let group := Element.group children (nameOf shape clock.options)
  let group ← match groupTransform? items with
    | some transform => group.withTransform transform clock
    | none => .ok group
  return (← group.pivot).outer

mutual

/-- The elements of a value that stands where a shape list is expected. -/
def compileShapes (clock : Clock R) : Value R → Report R (List (Element R))
  | .list items => compileEntries clock items (bindModifiers (shapeEntries items))
  | _ => pure []

/-- The elements of entries with their modifiers, last entry first. -/
def compileEntries (clock : Clock R) :
    List (Value R) → List (Option (Modifiers (Members R))) → Report R (List (Element R))
  | [], _ => pure []
  | entry :: rest, bound => do
    let later ← compileEntries clock rest bound.tail
    let own ← compileEntry clock (bound.head?.join.getD .empty) entry
    return later ++ own

def compileEntry (clock : Clock R) (modifiers : Modifiers (Members R)) :
    Value R → Report R (List (Element R))
  | .object members => do
    let kind := ShapeKind.ofCode (Members.get members "ty")
    if kind = .unknown then
      Traced.tell (.unsupportedShape (Members.get members "ty"))
      return []
    else if (Members.get members "hd").holds then return []
    else if kind = .group then
      let children ← compileItems clock members
      return [← groupElement members (Members.get members "it").items children clock]
    else if kind.isGeometry then
      return [← outlineElement kind members modifiers clock]
    else return []
  | entry => do
    Traced.tell (.unsupportedShape entry)
    return []

/-- The elements of the shape list among the members of a group. -/
def compileItems (clock : Clock R) : List (String × Value R) → Report R (List (Element R))
  | [] => pure []
  | (key, value) :: rest =>
    if key = "it" then compileShapes clock value else compileItems clock rest

end

end MotionScene
