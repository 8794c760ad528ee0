import MotionScene.Document.Component

/-!
# Kinds of properties

A property is an object whose member `k` is a number, a list of numbers, or a list of
keyframes whose first has a frame and starts with a number or a list.  Anything else is
no property and has no effect.
-/

namespace MotionScene

/-- What a property holds. -/
inductive PropertyKind where
  | none
  | scalar
  | vector
  | scalarKeyframes
  | vectorKeyframes
  deriving DecidableEq, Repr

namespace PropertyKind

def name : PropertyKind → String
  | none => "none"
  | scalar => "scalar"
  | vector => "vector"
  | scalarKeyframes => "scalar-keyframes"
  | vectorKeyframes => "vector-keyframes"

def isStatic : PropertyKind → Bool
  | scalar | vector => true
  | _ => false

def isAnimated : PropertyKind → Bool
  | scalarKeyframes | vectorKeyframes => true
  | _ => false

end PropertyKind

namespace Value

variable {R : Type}

/-- The member `k` of a property, null where there is none. -/
def content : Value R → Value R
  | object members => Members.get members "k"
  | _ => null

/-- The kind of a list by its first item. -/
def listKind : Value R → PropertyKind
  | num _ => .vector
  | object members =>
    if Members.has members "t" then
      match Members.get members "s" with
      | num _ => .scalarKeyframes
      | list _ => .vectorKeyframes
      | _ => .none
    else .none
  | _ => .none

def propertyKind (property : Value R) : PropertyKind :=
  match property.content with
  | num _ => .scalar
  | list (first :: _) => listKind first
  | _ => .none

/-- The start value of the first keyframe of a list. -/
def firstStart : Value R → Value R
  | list (object members :: _) => Members.get members "s"
  | _ => null

/-- The constant component of a property for an axis, or that of its first keyframe. -/
def staticComponent (axis : Int) (property : Value R) : Except Fault (Option (Number R)) :=
  if property.propertyKind.isStatic then property.content.component axis
  else if property.propertyKind.isAnimated then property.content.firstStart.component axis
  else .ok none

/-- The constant component of a property, or a default where there is none. -/
def staticOr (axis : Int) (default : Number R) (property : Value R) :
    Except Fault (Number R) := do
  return (← property.staticComponent axis).getD default

end Value

end MotionScene
