import MotionScene.Document.Value

/-!
# Layer indices

Layers name each other by index.  Indices are texts or numbers; numbers are the same
index when they are equal, whole or not, and truth values are the indices 0 and 1.

A parent map has at most one parent for each index.  An index lies on a cycle when
following the links from it leads back to it; an index from which the links lead into a
cycle that it is no part of does not.
-/

namespace MotionScene

/-- An index in the one form that all its equals share. -/
inductive LayerKey (R : Type) where
  | text (s : String)
  | whole (n : Int)
  /-- A scalar that is no whole number. -/
  | broken (x : R)
  deriving Repr

namespace LayerKey

variable {R : Type}

instance [BEq R] : BEq (LayerKey R) where
  beq
    | text s, text t => s == t
    | whole m, whole n => m == n
    | broken x, broken y => x == y
    | _, _ => false

variable [Scalar R]

/-- The index that a number is. -/
def ofNumber : Number R → LayerKey R
  | .whole n => whole n
  | .real x =>
    if Scalar.isFinite x && Number.wholeSame (Scalar.floor x) x then whole (Scalar.floor x)
    else broken x

/-- The index that a value is, none for null.  Lists and objects are no indices. -/
def ofValue? : Value R → Except Fault (Option (LayerKey R))
  | .null => .ok none
  | .text s => .ok (some (text s))
  | .bool b => .ok (some (whole (if b then 1 else 0)))
  | .num n => .ok (some (ofNumber n))
  | .list _ | .object _ => .error .wrongKind

end LayerKey

/-! ## Parent links -/

variable {κ : Type} [BEq κ]

def parentOf (links : List (κ × κ)) (index : κ) : Option κ :=
  (links.find? fun link => link.1 == index).map (·.2)

/-- Whether the links lead to the target from an index, or from none, within a number of
steps. -/
def leadsTo (links : List (κ × κ)) (target : κ) : (steps : Nat) → Option κ → Bool
  | _, none => false
  | 0, some _ => false
  | steps + 1, some current =>
    current == target || leadsTo links target steps (parentOf links current)

/-- Whether following the links from an index leads back to it.  A way back passes no
index twice, so it is no longer than there are links. -/
def closesCycle (links : List (κ × κ)) (index : κ) : Bool :=
  leadsTo links index links.length (parentOf links index)

end MotionScene
