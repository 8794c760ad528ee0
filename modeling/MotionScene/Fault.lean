/-!
# Faults

What can go wrong while a document is read, compiled or drawn, as causes.
-/

namespace MotionScene

/-- The kinds of document values, as error texts name them. -/
inductive ValueSort where
  | null
  | bool
  | whole
  | real
  | text
  | list
  | object
  deriving DecidableEq, Repr

inductive ElementType where
  | group
  | path
  | ellipse
  | rect
  deriving DecidableEq, Repr

/-- The name under which an element type is written and its draw routine registered. -/
def ElementType.name : ElementType → String
  | .group => "group"
  | .path => "lottie-shape-path"
  | .ellipse => "lottie-shape-ellipse"
  | .rect => "lottie-shape-rect"

/-- The cause of a failure. -/
inductive Fault where
  /-- An operation met a value of a kind it does not apply to. -/
  | wrongKind
  /-- A value has the right kind but no meaning for the operation: a text that is no
  number, a number without a nearest whole number, an angle without a sine. -/
  | noMeaning
  /-- A key or an identifier names nothing. -/
  | unknownKey
  /-- A position lies outside a list. -/
  | outOfRange
  /-- A member was asked of a value that has no members. -/
  | noMembers
  /-- A number is too large for the conversion or the power. -/
  | tooLarge
  | divisionByZero
  /-- A structure contains itself and has no finite form. -/
  | endless
  /-- The animation document is no object. -/
  | notADocument (sort : ValueSort)
  /-- The animation document has no list of layers. -/
  | noLayerList
  /-- A child was added to an element that has no child list. -/
  | childless (type : ElementType)
  deriving DecidableEq, Repr

def ValueSort.name : ValueSort → String
  | .null => "NoneType"
  | .bool => "bool"
  | .whole => "int"
  | .real => "float"
  | .text => "str"
  | .list => "list"
  | .object => "dict"

def Fault.message? : Fault → Option String
  | .notADocument sort => some s!"Animation document must be a JSON object, got {sort.name}"
  | .noLayerList => some "Animation document has no 'layers' list"
  | .childless type => some s!"'{type.name}' elements cannot have children."
  | _ => none

end MotionScene
