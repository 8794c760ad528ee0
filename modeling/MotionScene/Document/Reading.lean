import MotionScene.Document.Value
import MotionScene.Text.Numeral

/-!
# Values read as scalars and counts

Where a shape is drawn its values are read generously: truth values count as 0 and 1 and
texts are read as numerals.
-/

namespace MotionScene

namespace Value

variable {R : Type} [Scalar R]

/-- The scalar that a value is read as. -/
def scalar (value : Value R) : Except Fault R :=
  match value.quantity?, value with
  | some n, _ => n.toReal
  | none, text s =>
    match Text.numeral? s.toList with
    | some numeral => .ok (Scalar.ofNumeral numeral)
    | none => .error .noMeaning
  | none, _ => .error .wrongKind

/-- The whole number that a value is read as, with the decimals of a number left out. -/
def count (value : Value R) : Except Fault Int :=
  match value.quantity?, value with
  | some n, _ => n.truncate
  | none, text s =>
    match Text.integer? s.toList with
    | some n => .ok n
    | none => .error .noMeaning
  | none, _ => .error .wrongKind

end Value

/-- Whether a fault says that a value cannot be read as a number at all. -/
def Fault.isUnreadable : Fault → Bool
  | .wrongKind | .noMeaning => true
  | _ => false

/-- A reading, or a default where the value cannot be read as a number. -/
def readingOr {α : Type} (default : α) : Except Fault α → Except Fault α
  | .error fault => if fault.isUnreadable then .ok default else .error fault
  | reading => reading

namespace Members

variable {R : Type} [Scalar R]

/-- The scalar under a key, or a default where the key is missing. -/
def scalarOr (members : Members R) (key : String) (default : R) : Except Fault R :=
  match members.get? key with
  | some value => value.scalar
  | none => .ok default

end Members

end MotionScene
