import MotionScene.Property.Color
import MotionScene.Property.Kind
import MotionScene.Timeline.Build

/-!
# Properties of elements

A property with a constant is written into the attributes of an element, one attribute
for each axis; a property with keyframes becomes one timeline for each axis.  The
attributes of a shape or a style stand together in an object under one key, the target.
-/

namespace MotionScene

open scoped Scalar

variable {R : Type} [Scalar R]

/-- How the numbers of a property turn into attribute values. -/
inductive Conversion where
  | none
  /-- Percents become fractions. -/
  | percent
  /-- Clockwise degrees become counterclockwise radians. -/
  | rotation
  /-- Diameters become radii. -/
  | half
  /-- Degrees become turns. -/
  | turns
  deriving DecidableEq, Repr

/-- Counterclockwise radians for clockwise degrees. -/
def toRotation (degrees : Number R) : Except Fault R :=
  if degrees.isZero then .ok 0
  else do return (← degrees.negate.divide (.whole 180)) * Scalar.pi

namespace Conversion

def apply : Conversion → Number R → Except Fault (Number R)
  | none, n => .ok n
  | percent, n => (n.divide (.whole 100)).map .real
  | rotation, n => (toRotation n).map .real
  | half, n => (n.divide (.whole 2)).map .real
  | turns, n => (n.divide (.whole 360)).map .real

end Conversion

/-- What a property writes to: the attributes and the timelines of an element. -/
structure Body (R : Type) where
  attributes : Members R
  timelines : List (Timeline R)

def Body.empty : Body R := ⟨[], []⟩

/-- A target that is empty stands for the attributes themselves. -/
def underTarget (target name : String) (value : Value R) : Members R :=
  if target = "" then [(name, value)] else [(target, .object [(name, value)])]

/-- Makes sure that the attributes have the target. -/
def withTarget (target : String) (attributes : Members R) : Members R :=
  if target = "" || attributes.has target then attributes else attributes.set target (.object [])

/-- Writes one attribute under a target, which has to be an object. -/
def writeUnder (target name : String) (value : Value R) (attributes : Members R) :
    Except Fault (Members R) :=
  if target = "" then .ok (attributes.set name value)
  else
    match attributes.get target with
    | .object members => .ok (attributes.set target (.object (Members.set members name value)))
    | _ => .error .wrongKind

/-- Writes the constant components of a property, an axis at a time. -/
def writeAxes (content : Value R) (target : String) (conversion : Conversion) :
    (axis : Nat) → List String → Members R → Except Fault (Members R)
  | _, [], attributes => .ok attributes
  | axis, name :: rest, attributes => do
    match ← content.component axis with
    | none => writeAxes content target conversion (axis + 1) rest attributes
    | some n =>
      let value ← conversion.apply n
      let attributes ← writeUnder target name (.num value) attributes
      writeAxes content target conversion (axis + 1) rest attributes

/-- The patch that sets one attribute to a component of a keyframe value. -/
def axisRule (target name : String) (conversion : Conversion) (axis : Int) : PatchRule R :=
  fun value => do
    match ← value.component axis with
    | none => return none
    | some n => return some (underTarget target name (.num (← conversion.apply n)))

/-- The timelines of a property with keyframes, an axis at a time. -/
def axisTimelines (keyframes : List (Value R)) (target : String) (conversion : Conversion)
    (clock : Clock R) : (axis : Nat) → List String → Except Fault (List (Timeline R))
  | _, [] => .ok []
  | axis, name :: rest => do
    let timeline? ← buildTimeline keyframes (axisRule target name conversion axis) clock axis
    let later ← axisTimelines keyframes target conversion clock (axis + 1) rest
    return timeline?.toList ++ later

/-- Writes a property onto an element body, an attribute for each of the named axes. -/
def resolve (property : Value R) (target : String) (axes : List String)
    (conversion : Conversion) (clock : Clock R) (body : Body R) : Except Fault (Body R) :=
  if property.propertyKind.isStatic then do
    let attributes ← writeAxes property.content target conversion 0 axes
      (withTarget target body.attributes)
    return { body with attributes }
  else if property.propertyKind.isAnimated then do
    let timelines ← axisTimelines property.content.items target conversion clock 0 axes
    return { body with timelines := body.timelines ++ timelines }
  else .ok body

/-- The patch that sets one attribute to the color of a keyframe value. -/
def colorRule (target name : String) : PatchRule R :=
  fun value => do return some (underTarget target name (.text (← colorText value)))

/-- Writes a color onto an element body; its channels share one attribute. -/
def resolveColor (property : Value R) (target name : String) (clock : Clock R)
    (body : Body R) : Except Fault (Body R) :=
  if property.propertyKind.isStatic then do
    let color ← colorText property.content
    let attributes ← writeUnder target name (.text color) (withTarget target body.attributes)
    return { body with attributes }
  else if property.propertyKind.isAnimated then do
    let timeline? ← buildTimeline property.content.items (colorRule target name) clock 0
    return { body with timelines := body.timelines ++ timeline?.toList }
  else .ok body

end MotionScene
