import MotionScene.Yaml.Plain
import MotionScene.Yaml.Read

/-!
# Values of a file

The tree of an option file as a value.  Of equal keys the first keeps its place and the
last gives the value.
-/

namespace MotionScene.Yaml

open scoped Scalar

/-- The number of days of a month. -/
def daysOf (year month : Nat) : Nat :=
  if month = 2 then
    if year % 4 = 0 ∧ (year % 100 ≠ 0 ∨ year % 400 = 0) then 29 else 28
  else if [4, 6, 9, 11].contains month then 30 else 31

/-- Whether a day is in the calendar. -/
def isDate (year month day : Nat) : Bool :=
  1 ≤ year && 1 ≤ month && month ≤ 12 && 1 ≤ day && day ≤ daysOf year month

variable {R : Type} [Scalar R]

def digitsScalar (negative : Bool) (digits : List Char) : R :=
  match Text.numeral? digits with
  | some (.finite _ value exponent) => Scalar.ofNumeral (.finite negative value exponent)
  | _ => Scalar.ofNumeral (.finite negative 0 0)

/-- The scalar that parts in base sixty write, by their weights from the last to the first. -/
def sixtiesScalar (sum weight : R) : List (List Char) → R
  | [] => sum
  | part :: rest => sixtiesScalar (sum + digitsScalar false part * weight) (weight * 60) rest

def Plain.value (source : List Char) : Plain → Except LoadFault (Yaml R)
  | .null => .ok Yaml.null
  | .bool b => .ok (Yaml.bool b)
  | .whole n => .ok (num (.whole n))
  | .real negative digits => .ok (num (.real (digitsScalar negative digits)))
  | .sexagesimal negative parts =>
    let size : R := sixtiesScalar 0 1 parts.reverse
    .ok (num (.real (if negative then -size else size)))
  | .special value => .ok (num (.real (Scalar.ofNumeral (.special value))))
  | .date year month day =>
    if isDate year month day then .ok (Yaml.date year month day) else .error .noMeaning
  | .noNumber => .error .noMeaning
  | .moment | .merge | .default => .error .malformed
  | .text => .ok (Yaml.text (String.ofList source))

def scalarValue (isPlain : Bool) (source : List Char) : Except LoadFault (Yaml R) :=
  if isPlain then (plainForm source).value source else .ok (Yaml.text (String.ofList source))

/-- The value of a key, which has to be a scalar. -/
def keyValue : Node → Except LoadFault (Yaml R)
  | .scalar true ['='] => .ok (Yaml.text "=")
  | .scalar isPlain source => scalarValue isPlain source
  | _ => .error .malformed

/-- Writes an entry in the place of the one with its key, or at the end. -/
def setEntry (entries : List (Yaml R × Yaml R)) (key value : Yaml R) : List (Yaml R × Yaml R) :=
  match entries with
  | [] => [(key, value)]
  | (k, v) :: rest =>
    if k.sameKey key then (k, value) :: rest else (k, v) :: setEntry rest key value

mutual

def valueOf : Node → Except LoadFault (Yaml R)
  | .scalar isPlain source => scalarValue isPlain source
  | .list items => (itemValues items).map Yaml.list
  | .mapping entries => (entryValues [] entries).map Yaml.mapping

def itemValues : List Node → Except LoadFault (List (Yaml R))
  | [] => .ok []
  | item :: rest => do
    let value ← valueOf item
    return value :: (← itemValues rest)

/-- The entries of a mapping after those that are there. -/
def entryValues (done : List (Yaml R × Yaml R)) :
    List (Node × Node) → Except LoadFault (List (Yaml R × Yaml R))
  | [] => .ok done
  | (key, value) :: rest => do
    let key ← keyValue key
    let value ← valueOf value
    entryValues (setEntry done key value) rest

end

def load (source : String) : Except LoadFault (Yaml R) :=
  match readDocument source.toList with
  | some node => valueOf node
  | none => .error .malformed

end MotionScene.Yaml
