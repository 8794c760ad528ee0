import MotionScene.Number

/-!
# Compact decimal text

Numbers inside colors, easings and path data are written with at most six decimals: the
nearest multiple of a millionth, ties to even, without zeros at the end, without a point
when nothing follows it, and without a sign when nothing is left of the number.
-/

namespace MotionScene.Text

/-- How many decimals compact text has at most. -/
def compactPlaces : Nat := 6

/-- The decimals after the point, zeros at the end left out; `places` of them stand for
the number `n`. -/
def decimals : (places n : Nat) → List Char
  | 0, _ => []
  | places + 1, n =>
    let later := decimals places (n % Nat.pow 10 places)
    let digit := n / Nat.pow 10 places
    if digit = 0 && later.isEmpty then [] else Nat.digitChar digit :: later

/-- The text of a natural number of units of `10 ^ -places`. -/
def unsignedText (places n : Nat) : List Char :=
  let later := decimals places (n % Nat.pow 10 places)
  Nat.toDigits 10 (n / Nat.pow 10 places) ++ if later.isEmpty then [] else '.' :: later

def unitsText (places : Nat) : Int → List Char
  | .ofNat n => unsignedText places n
  | .negSucc n => '-' :: unsignedText places (n + 1)

def specialText : Special → String
  | .notANumber => "nan"
  | .infinity false => "inf"
  | .infinity true => "-inf"

variable {R : Type} [Scalar R]

def compact (x : R) : String :=
  match Scalar.special? x with
  | some value => specialText value
  | none => String.ofList (unitsText compactPlaces (Scalar.decimalUnits compactPlaces x))

/-- The compact text of a number, as that of the scalar nearest to it. -/
def compactNumber (n : Number R) : Except Fault String :=
  n.toReal.map compact

end MotionScene.Text
