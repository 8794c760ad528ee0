import MotionScene.Document.Value
import MotionScene.Text.Compact

/-!
# Components of values

A property of several axes is a list with a number for each axis; a single number stands
for all axes at once.
-/

namespace MotionScene.Value

variable {R : Type}

/-- The item of a list at a position, where negative positions count from the end. -/
def itemAt (items : List (Value R)) (position : Int) : Except Fault (Value R) :=
  let index := if position < 0 then position + items.length else position
  if index < 0 then .error .outOfRange
  else
    match items[index.toNat]? with
    | some item => .ok item
    | none => .error .outOfRange

/-- The number that a value has for an axis: a number itself for every axis, and a list
its item.  A list that is too short has none for the axis, and neither has an item or a
value that is no number. -/
def component (axis : Int) : Value R → Except Fault (Option (Number R))
  | num n => .ok (some n)
  | list items => if axis < items.length then (itemAt items axis).map number? else .ok none
  | _ => .ok none

/-- An axis that is counted from the front never fails. -/
theorem component_list (axis : Nat) (items : List (Value R)) :
    component axis (list items) = .ok ((items[axis]?).bind number?) := by
  by_cases h : axis < items.length
  · have hi : ¬ ((axis : Int) < 0) := by omega
    simp [component, itemAt, h, hi, Except.map]
  · simp [component, h]

/-- The component for an axis, or a default where there is none. -/
def componentOr (axis : Int) (default : Number R) (value : Value R) :
    Except Fault (Number R) := do
  return (← value.component axis).getD default

/-- The compact text of a value that is a number or a truth value. -/
def compactText [Scalar R] (value : Value R) : Except Fault String :=
  match value.quantity?, value with
  | some n, _ => Text.compactNumber n
  | none, text _ => .error .noMeaning
  | none, _ => .error .wrongKind

end MotionScene.Value
