import MotionScene.Curve.Outline
import MotionScene.Drawing.Drawer
import MotionScene.Notice

/-!
# Figures

The three element types that a renderer does not know by itself are drawn by routines
that it finds under their names.  A routine reads the `shape` of an element.  Ellipses
and rectangles without modifiers are drawn by the commands that a surface has for them,
and others as paths along their outlines.
-/

namespace MotionScene

open scoped Scalar

variable {R : Type}

/-- A kind of figure with a routine of its own. -/
inductive Figure where
  | path
  | ellipse
  | rect
  deriving DecidableEq, Repr

namespace Figure

/-- The figures in the order in which their routines are registered. -/
def all : List Figure := [path, ellipse, rect]

def elementType : Figure → ElementType
  | path => .path
  | ellipse => .ellipse
  | rect => .rect

def name (figure : Figure) : String :=
  figure.elementType.name

end Figure

variable [Scalar R]

/-! ## Modifiers -/

/-- The trim of a shape, if it has any part of one. -/
def trimOf (shape : Members R) : Except Fault (Option (Trim R)) :=
  if ["trimStart", "trimEnd", "trimOffset"].any shape.has then do
    let start ← shape.scalarOr "trimStart" 0
    let stop ← shape.scalarOr "trimEnd" 1
    let offset ← shape.scalarOr "trimOffset" 0
    return some ⟨start, stop, offset⟩
  else .ok none

/-- Whether a repeater does anything. -/
def repeats (repeater : Value R) : Except Fault Bool := do
  if 0 < (← repeatCount repeater) then return true
  else return !((← repeatOffset repeater) == 0)

/-- Whether a shape has modifiers that do anything. -/
def hasModifiers (shape : Members R) : Except Fault Bool := do
  match ← trimOf shape with
  | some trim => if trim.isIdentity then repeats (shape.get "repeat") else return true
  | none => repeats (shape.get "repeat")

/-- Draws the outline of a shape with its modifiers. -/
def drawOutline (shape : Members R) (knots : List (Knot R)) : Traced (Command R) Unit := do
  let trim? ← trimOf shape
  drawPath ⟨.ofKnots knots, true, trim?, shape.get "repeat"⟩

/-! ## Routines -/

def drawPathShape (shape : Members R) : Traced (Command R) Unit := do
  let row := fun key => PointRow.ofValue ((shape.get key).orElse (.list []))
  let trim? ← trimOf shape
  drawPath ⟨⟨row "v", row "in", row "out"⟩, (shape.get "close").holds, trim?, shape.get "repeat"⟩

/-- The commands for an ellipse without modifiers. -/
def plainEllipse (center : Point R) (rx ry : R) : List (Command R) :=
  if rx == ry then [.arc center rx 0 (Scalar.pi * 2) false, .closePath]
  else drawSegments true (segmentsOf true (ellipseKnots center rx ry))

def drawEllipse (shape : Members R) : Traced (Command R) Unit := do
  let cx ← shape.scalarOr "cx" 0
  let cy ← shape.scalarOr "cy" 0
  let rx := Scalar.magnitude (← shape.scalarOr "rx" 0)
  let ry := Scalar.magnitude (← shape.scalarOr "ry" 0)
  if ← hasModifiers shape then drawOutline shape (ellipseKnots ⟨cx, cy⟩ rx ry)
  else Traced.tellAll (plainEllipse ⟨cx, cy⟩ rx ry)

/-- The commands for a rectangle without modifiers, by its upper left corner. -/
def plainRect (corner : Point R) (width height radius : R) : List (Command R) :=
  let ⟨x, y⟩ := corner
  let r := cornerRadius radius (width / 2) (height / 2)
  let quarter := Scalar.pi / 2
  if r ≤ 0 then [.rect corner width height]
  else
    [.moveTo ⟨x + r, y⟩, .lineTo ⟨x + width - r, y⟩,
     .arc ⟨x + width - r, y + r⟩ r (-quarter) 0 false,
     .lineTo ⟨x + width, y + height - r⟩,
     .arc ⟨x + width - r, y + height - r⟩ r 0 quarter false,
     .lineTo ⟨x + r, y + height⟩,
     .arc ⟨x + r, y + height - r⟩ r quarter Scalar.pi false,
     .lineTo ⟨x, y + r⟩,
     .arc ⟨x + r, y + r⟩ r Scalar.pi (Scalar.pi + quarter) false,
     .closePath]

def drawRect (shape : Members R) : Traced (Command R) Unit := do
  let cx ← shape.scalarOr "cx" 0
  let cy ← shape.scalarOr "cy" 0
  let width := Scalar.magnitude (← shape.scalarOr "width" 0)
  let height := Scalar.magnitude (← shape.scalarOr "height" 0)
  if ← hasModifiers shape then
    drawOutline shape (rectKnots ⟨cx, cy⟩ width height (← shape.scalarOr "r" 0))
  else
    Traced.tellAll
      (plainRect ⟨cx - width / 2, cy - height / 2⟩ width height (← shape.scalarOr "r" 0))

abbrev Routine (R : Type) := Members R → Traced (Command R) Unit

def Figure.routine : Figure → Routine R
  | path => drawPathShape
  | ellipse => drawEllipse
  | rect => drawRect

/-- Draws a shape, which has to be an object. -/
def Figure.draw (figure : Figure) (shape : Value R) : Traced (Command R) Unit :=
  match shape with
  | .object members => figure.routine members
  | _ => .fail .noMembers

/-! ## The registry -/

/-- Why no routine is found. -/
inductive RoutineFault (R : Type) where
  /-- A list or an object can name nothing. -/
  | notAName
  | unknown (asked : Value R)

/-- The figure that a value names. -/
def findFigure (asked : Value R) : Except (RoutineFault R) Figure :=
  match asked with
  | .list _ | .object _ => .error .notAName
  | _ =>
    match Figure.all.find? fun figure => asked.isText figure.name with
    | some figure => .ok figure
    | none => .error (.unknown asked)

/-- The text that goes with an unknown name. -/
def RoutineFault.message? : RoutineFault Float → Option String
  | notAName => none
  | unknown asked =>
    let names := (Figure.all.map Figure.name).mergeSort fun a b => decide (a ≤ b)
    some ("No draw routine for " ++ asked.shown ++ ".  Available: " ++ ", ".intercalate names)

/-- Registers every routine with a renderer, given by what it does with a name and a
routine. -/
def install {S : Type} (register : S → String → Routine R → S) (renderer : S) :
    Report R (S × List String) := do
  Traced.tellAll (Figure.all.map fun figure => Notice.registeredRoutine figure.name)
  return (Figure.all.foldl (fun renderer figure => register renderer figure.name figure.routine)
    renderer, Figure.all.map Figure.name)

end MotionScene
