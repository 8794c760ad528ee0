import MotionScene.Property.Resolve

/-!
# Elements

A compiled scene is a forest of elements.  Groups have children; the three kinds of
shapes have none.  An element has a body, the attributes and timelines that place and
style it, and perhaps a name.
-/

namespace MotionScene

structure Element (R : Type) where
  type : ElementType
  body : Body R
  /-- The children of a group in drawing order; none for elements that cannot have any. -/
  children? : Option (List (Element R))
  name? : Option String

namespace Element

variable {R : Type}

/-- A group of elements without attributes and timelines. -/
def group (children : List (Element R)) (name? : Option String) : Element R :=
  ⟨.group, Body.empty, some children, name?⟩

def leaf (type : ElementType) (attributes : Members R) (name? : Option String) : Element R :=
  ⟨type, ⟨attributes, []⟩, none, name?⟩

/-- The children of an element, none for elements that cannot have any. -/
def children (element : Element R) : List (Element R) :=
  element.children?.getD []

def isGroup (element : Element R) : Bool :=
  element.type = .group

/-- Adds children after those that are there, to elements that can have children. -/
def adopt (element : Element R) (more : List (Element R)) : Element R :=
  { element with children? := element.children?.map (· ++ more) }

mutual

/-- An element and all below it, each before its children. -/
def all : Element R → List (Element R)
  | ⟨type, body, some children, name?⟩ => ⟨type, body, some children, name?⟩ :: allOf children
  | ⟨type, body, none, name?⟩ => [⟨type, body, none, name?⟩]

/-- The elements of a forest, each before its children. -/
def allOf : List (Element R) → List (Element R)
  | [] => []
  | element :: rest => all element ++ allOf rest

end

/-- Whether an element has the given name, where null names those without one. -/
def isNamed [Scalar R] (name : Value R) (element : Element R) : Bool :=
  match element.name? with
  | some own => name.isText own
  | none => name.isNull

/-- The members that an element shows beside its children and timelines. -/
def ownMembers (type : ElementType) (name? : Option String) (attributes : Members R) :
    Members R :=
  Members.merge
    (("type", .text type.name) :: name?.toList.map fun name => ("name", .text name)) attributes

/-- The timelines of an element as a member, where it has some. -/
def withTimelines (timelines : List (Timeline R)) (members : Members R) : Members R :=
  if timelines.isEmpty then members
  else
    members.set "keyframeAnimation"
      (.list (timelines.map fun timeline => .object timeline.toMembers))

mutual

def toMembers : Element R → Members R
  | ⟨type, body, children?, name?⟩ =>
    let own := ownMembers type name? body.attributes
    withTimelines body.timelines
      (match children? with
        | some children => own.set "children" (.list (toValues children))
        | none => own)

def toValues : List (Element R) → List (Value R)
  | [] => []
  | element :: rest => .object (toMembers element) :: toValues rest

end

def toValue (element : Element R) : Value R :=
  .object element.toMembers

theorem allOf_eq_flatMap (elements : List (Element R)) :
    allOf elements = elements.flatMap all := by
  induction elements with
  | nil => rfl
  | cons element rest ih => simp [allOf, ih]

end Element

end MotionScene
