import MotionScene.Document.Value

/-!
# Adjusting parts of a value

A migration changes values deep inside a document.  These functions apply a change to
one member of an object or to the items of a list; a value of another kind, or without
the member, stays as it is.
-/

namespace MotionScene

variable {R : Type}

/-- A change of a part of a document that may fail. -/
abbrev Change (α : Type) := α → Except Fault α

namespace Members

/-- Changes the value under a key, if there is one. -/
def adjust (key : String) (change : Change (Value R)) : Change (Members R)
  | [] => .ok []
  | (k, v) :: rest => do
    if k = key then return (k, ← change v) :: rest
    else return (k, v) :: (← adjust key change rest)

end Members

namespace Value

def adjustMembers (change : Change (Members R)) : Change (Value R)
  | object members => (change members).map object
  | value => .ok value

def adjustMember (key : String) (change : Change (Value R)) : Change (Value R) :=
  adjustMembers (Members.adjust key change)

def adjustItems (change : Change (Value R)) : Change (Value R)
  | list items => (items.mapM change).map list
  | value => .ok value

def adjustFirst (change : Change (Value R)) : Change (Value R)
  | list (first :: rest) => do return list ((← change first) :: rest)
  | value => .ok value

end Value

end MotionScene
