import MotionScene.Document.Adjust

/-!
# Walking through shape lists

The entries of a shape list that are no groups, through groups at any depth.
-/

namespace MotionScene

variable {R : Type}

def isGroupEntry (entry : Members R) : Bool :=
  (entry.get "ty").isText "gr"

mutual

/-- Changes every entry of a shape list that is no group, last entry first. -/
def changeShapes (change : Change (Members R)) : Change (Value R)
  | .list items => (changeEntries change items).map .list
  | value => .ok value

/-- Changes the entries of a list, last entry first. -/
def changeEntries (change : Change (Members R)) : Change (List (Value R))
  | [] => .ok []
  | entry :: rest => do
    let later ← changeEntries change rest
    return (← changeEntry change entry) :: later

/-- Changes an entry, or the entries within it. -/
def changeEntry (change : Change (Members R)) : Change (Value R)
  | .object members =>
    if isGroupEntry members then (changeItems change members).map .object
    else (change members).map .object
  | value => .ok value

/-- Changes the entries of the shape list among the members of a group. -/
def changeItems (change : Change (Members R)) : List (String × Value R) → Except Fault (Members R)
  | [] => .ok []
  | (key, value) :: rest => do
    if key = "it" then return (key, ← changeShapes change value) :: rest
    else return (key, value) :: (← changeItems change rest)

end

theorem changeItems_eq (change : Change (Members R)) (members : Members R) :
    changeItems change members = members.adjust "it" (changeShapes change) := by
  induction members with
  | nil => simp [changeItems, Members.adjust]
  | cons entry rest ih =>
    obtain ⟨key, value⟩ := entry
    by_cases h : key = "it" <;> simp [changeItems, Members.adjust, h, ih]

mutual

/-- The entries of a shape list that are no groups, in order. -/
def shapeLeaves : Value R → List (Members R)
  | .list items => leavesOfEntries items
  | _ => []

/-- The leaves of the entries of a list, in order. -/
def leavesOfEntries : List (Value R) → List (Members R)
  | [] => []
  | entry :: rest => leavesOfEntry entry ++ leavesOfEntries rest

/-- An entry is a leaf, or has the leaves of its own shape list. -/
def leavesOfEntry : Value R → List (Members R)
  | .object members => if isGroupEntry members then leavesOfItems members else [members]
  | _ => []

/-- The leaves of the shape list among the members of a group. -/
def leavesOfItems : List (String × Value R) → List (Members R)
  | [] => []
  | (key, value) :: rest => if key = "it" then shapeLeaves value else leavesOfItems rest

end

end MotionScene
