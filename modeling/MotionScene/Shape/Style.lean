import MotionScene.Element.Basic

/-!
# Styles and modifiers of outlines

Fills and strokes become members of the style of an outline; trims and repeaters become
members of its shape.  A repeater is read as it stands at its first keyframe.
-/

namespace MotionScene

open scoped Scalar

variable {R : Type} [Scalar R]

/-- The line ends by their numbers. -/
def lineCaps : List String := ["butt", "round", "square"]

/-- The line corners by their numbers. -/
def lineJoins : List String := ["miter", "round", "bevel"]

/-- The name that a number, counted from one, has in a table.  Texts and null name
nothing; lists and objects cannot be looked up. -/
def tableName? (table : List String) (number : Value R) : Except Fault (Option String) :=
  match number with
  | .list _ | .object _ => .error .wrongKind
  | number =>
    let index? := (List.range table.length).find? fun (index : Nat) =>
      number.same (.num (.whole (index + 1)))
    .ok (index?.bind (table[·]?))

/-- Writes an attribute into the style of an element body. -/
def writeStyle (name : String) (value : Value R) (body : Body R) : Except Fault (Body R) := do
  let attributes ← writeUnder "style" name value body.attributes
  return { body with attributes }

/-- Writes the name that a number has in a table into the style, if it has one. -/
def writeNamed (name : String) (table : List String) (number : Value R) (body : Body R) :
    Except Fault (Body R) := do
  match ← tableName? table number with
  | some entry => writeStyle name (.text entry) body
  | none => return body

/-- Writes a fill, or the absence of one. -/
def applyFill (fill : Option (Members R)) (clock : Clock R) (body : Body R) :
    Except Fault (Body R) :=
  match fill with
  | none => writeStyle "fill" (.text "none") body
  | some fill => do
    let body ← resolveColor (Members.get fill "c") "style" "fill" clock body
    resolve (Members.get fill "o") "style" ["fillOpacity"] .percent clock body

def applyStroke (stroke : Members R) (clock : Clock R) (body : Body R) :
    Except Fault (Body R) := do
  let body ← resolveColor (stroke.get "c") "style" "stroke" clock body
  let body ← resolve (stroke.get "o") "style" ["strokeOpacity"] .percent clock body
  let body ← resolve (stroke.get "w") "style" ["lineWidth"] .none clock body
  let body ← writeNamed "lineCap" lineCaps (stroke.get "lc") body
  let body ← writeNamed "lineJoin" lineJoins (stroke.get "lj") body
  let limit := stroke.get "ml"
  if limit.quantity?.isSome then writeStyle "miterLimit" limit body else return body

def applyStyle (fill stroke : Option (Members R)) (clock : Clock R) (body : Body R) :
    Except Fault (Body R) := do
  let body := { body with attributes := withTarget "style" body.attributes }
  let body ← applyFill fill clock body
  match stroke with
  | none => return body
  | some stroke => applyStroke stroke clock body

/-- Writes a trim: its ends as fractions and its offset in turns. -/
def applyTrim (trim : Option (Members R)) (clock : Clock R) (body : Body R) :
    Except Fault (Body R) :=
  match trim with
  | none => .ok body
  | some trim => do
    let body ← resolve (Members.get trim "s") "shape" ["trimStart"] .percent clock body
    let body ← resolve (Members.get trim "e") "shape" ["trimEnd"] .percent clock body
    resolve (Members.get trim "o") "shape" ["trimOffset"] .turns clock body

def toRadians (degrees : Number R) : Except Fault R := do
  return (← degrees.toReal) * (Scalar.pi / 180)

/-- The members of a repeater that draws `count` copies beside the path itself. -/
def repeatMembers (count : Int) (offset : Number R) (transform : Value R) :
    Except Fault (Members R) := do
  let part := fun key => transform.members.get key
  let x ← (part "p").staticOr 0 (.whole 0)
  let y ← (part "p").staticOr 1 (.whole 0)
  let rotation ← toRadians (← (part "r").staticOr 0 (.whole 0))
  let scaleX ← (← (part "s").staticOr 0 (.whole 100)).divide (.whole 100)
  let scaleY ← (← (part "s").staticOr 1 (.whole 100)).divide (.whole 100)
  let anchorX ← (part "a").staticOr 0 (.whole 0)
  let anchorY ← (part "a").staticOr 1 (.whole 0)
  return [("count", .num (.whole count)), ("offset", .num offset), ("x", .num x), ("y", .num y),
    ("rotation", .num (.real rotation)), ("scaleX", .num (.real scaleX)),
    ("scaleY", .num (.real scaleY)), ("anchorX", .num anchorX), ("anchorY", .num anchorY)]

/-- Writes a repeater that has an effect. -/
def applyRepeater (repeater : Option (Members R)) (body : Body R) : Except Fault (Body R) :=
  match repeater with
  | none => .ok body
  | some repeater => do
    let copies ← (← (Members.get repeater "c").staticOr 0 (.whole 1)).nearest
    let count := max 0 (copies - 1)
    let offset ← (Members.get repeater "o").staticOr 0 (.whole 0)
    if count = 0 && offset.isZero then return body
    else
      let members ← repeatMembers count offset (Members.get repeater "tr")
      let attributes ← writeUnder "shape" "repeat" (.object members)
        (withTarget "shape" body.attributes)
      return { body with attributes }

end MotionScene
