import MotionScene.Binary64.Basic

/-!
# The shortest decimal text of a floating-point number

The reals that round to a number form an interval: from halfway to the number below to
halfway to the number above, with its ends exactly when the significand is even.  A
number is written with the fewest digits that lie in its interval, and among those with
the digits nearest to it.  Everything is decided in exact integer arithmetic.
-/

namespace MotionScene.Binary64

/-- A positive decimal, `digits · 10 ^ exponent`. -/
structure Decimal where
  digits : Nat
  exponent : Int
  deriving DecidableEq, Repr

/-- Compares `a · 10 ^ i` with `b · 2 ^ j`. -/
def compareScaled (a : Nat) (i : Int) (b : Nat) (j : Int) : Ordering :=
  compare (a * Nat.pow 10 i.toNat * Nat.pow 2 (-j).toNat)
    (b * Nat.pow 2 j.toNat * Nat.pow 10 (-i).toNat)

/-- Whether a decimal lies among the reals that round to the magnitude `m · 2 ^ q`.
Just above a power of two the gap below is half the gap above. -/
def Parts.readsBack (p : Parts) (d : Decimal) : Bool :=
  let narrow := p.m = Nat.pow 2 52 ∧ p.q > -1074
  let low := compareScaled d.digits d.exponent (4 * p.m - if narrow then 1 else 2) (p.q - 2)
  let high := compareScaled d.digits d.exponent (4 * p.m + 2) (p.q - 2)
  if p.m % 2 = 0 then low ≠ .lt && high ≠ .gt else low = .gt && high = .lt

/-- The power of ten of the leading digit of a positive magnitude. -/
def Parts.scale (p : Parts) : Int :=
  -- the binary logarithm gives the scale to within one
  let estimate := ((p.m.log2 : Int) + p.q) * 30103 / 100000
  if compareScaled 1 (estimate + 1) p.m p.q ≠ .gt then estimate + 1
  else if compareScaled 1 estimate p.m p.q = .gt then estimate - 1
  else estimate

/-- The multiple of `10 ^ k` at or below a magnitude, as a count. -/
def Parts.below (p : Parts) (k : Int) : Nat :=
  let num := p.m * Nat.pow 2 p.q.toNat * Nat.pow 10 (-k).toNat
  let den := Nat.pow 2 (-p.q).toNat * Nat.pow 10 k.toNat
  num / den

/-- The neighbour of a magnitude on the grid `10 ^ k` that reads back; of two, the
nearer, and of two equally near the even one. -/
def Parts.onGrid? (p : Parts) (k : Int) : Option Decimal :=
  let low := p.below k
  match p.readsBack ⟨low, k⟩, p.readsBack ⟨low + 1, k⟩ with
  | false, false => none
  | true, false => some ⟨low, k⟩
  | false, true => some ⟨low + 1, k⟩
  | true, true =>
    match compareScaled (2 * low + 1) k (2 * p.m) p.q with
    | .gt => some ⟨low, k⟩
    | .lt => some ⟨low + 1, k⟩
    | .eq => some (if low % 2 = 0 then ⟨low, k⟩ else ⟨low + 1, k⟩)

def Parts.exact (p : Parts) : Decimal :=
  ⟨p.m * Nat.pow 2 p.q.toNat * Nat.pow 5 (-p.q).toNat, min p.q 0⟩

/-- Moves trailing zeros of the digits into the exponent. -/
def Decimal.stripped (d : Decimal) : (limit : Nat) → Decimal
  | 0 => d
  | limit + 1 =>
    if d.digits % 10 = 0 then Decimal.stripped ⟨d.digits / 10, d.exponent + 1⟩ limit else d

/-- The decimal that a positive magnitude is written as. -/
def Parts.shortest (p : Parts) : Decimal :=
  let scale := p.scale
  let found := (List.range 17).findSome? fun (count : Nat) => p.onGrid? (scale - count)
  (found.getD p.exact).stripped 18

/-! ## Layout -/

def zeros (count : Nat) : List Char :=
  List.replicate count '0'

/-- Lays a decimal out: positionally when its leading digit stands between the fourth
place after the point and the sixteenth before it, and otherwise with an exponent of
at least two digits.  Positional text always shows a point. -/
def Decimal.text (d : Decimal) : String :=
  let digits := Nat.toDigits 10 d.digits
  let leading := d.exponent + digits.length - 1
  if -4 ≤ leading ∧ leading < 16 then
    if leading < 0 then
      String.ofList ('0' :: '.' :: zeros (-leading - 1).toNat ++ digits)
    else
      let whole := leading.toNat + 1
      if digits.length ≤ whole then
        String.ofList (digits ++ zeros (whole - digits.length) ++ ['.', '0'])
      else String.ofList (digits.take whole ++ '.' :: digits.drop whole)
  else
    let mantissa := match digits with
      | first :: second :: rest => first :: '.' :: second :: rest
      | short => short
    let power := Nat.toDigits 10 leading.natAbs
    String.ofList (mantissa ++ 'e' :: (if leading < 0 then '-' else '+')
      :: zeros (2 - power.length) ++ power)

/-- The shortest text of a number that reads back as the same number. -/
def text (x : Float) : String :=
  match special? x with
  | some .notANumber => "nan"
  | some (.infinity negative) => if negative then "-inf" else "inf"
  | none =>
    let p := parts x
    let magnitude := if p.m = 0 then "0.0" else p.shortest.text
    if p.negative then "-" ++ magnitude else magnitude

example : text 0.1 = "0.1" := by decide +kernel

-- the two nearest decimals of seventeen digits are equally near here
example : text 2.98023223876953125e-8 = "2.9802322387695312e-08" := by decide +kernel

example : text 1e16 = "1e+16" := by decide +kernel

end MotionScene.Binary64
