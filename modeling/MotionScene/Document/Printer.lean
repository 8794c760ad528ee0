import MotionScene.Binary64.Shortest
import MotionScene.Document.Value
import MotionScene.Text.Numeral
import MotionScene.Text.Printable

/-!
# Values in messages

How messages show values: texts between quotes, truth values and null by capitalized
names, lists and objects in brackets with their parts separated by a comma and a space.
A number with more digits than a numeral may have has no text, and so no value has one that
such a number is part of.
-/

namespace MotionScene

/-- Whether a number has no more digits than a whole numeral may have. -/
def Number.hasText {R : Type} : Number R → Bool
  | .whole n => n.natAbs < Nat.pow 10 Text.maximalDigits
  | .real _ => true

/-- The text of a number; scalars have the shortest text that reads back. -/
def Number.text : Number Float → String
  | .whole n => toString n
  | .real x => Binary64.text x

namespace Value

mutual

/-- Whether a value has a text: every number in it does. -/
def hasText {R : Type} : Value R → Bool
  | num n => n.hasText
  | list items => itemsHaveText items
  | object members => membersHaveText members
  | null | bool _ | text _ => true

def itemsHaveText {R : Type} : List (Value R) → Bool
  | [] => true
  | v :: rest => hasText v && itemsHaveText rest

def membersHaveText {R : Type} : List (String × Value R) → Bool
  | [] => true
  | (_, v) :: rest => hasText v && membersHaveText rest

end

mutual

/-- A value as a message shows it. -/
def shown : Value Float → String
  | null => "None"
  | bool true => "True"
  | bool false => "False"
  | num n => n.text
  | text s => Text.quoted s
  | list items => "[" ++ ", ".intercalate (shownItems items) ++ "]"
  | object members => "\x7b" ++ ", ".intercalate (shownMembers members) ++ "\x7d"

def shownItems : List (Value Float) → List String
  | [] => []
  | v :: rest => shown v :: shownItems rest

def shownMembers : List (String × Value Float) → List String
  | [] => []
  | (k, v) :: rest => (Text.quoted k ++ ": " ++ shown v) :: shownMembers rest

end

end Value

end MotionScene
