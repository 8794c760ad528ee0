import MotionScene.Document.Code

/-!
# Binding modifiers

Fills, strokes, trims and repeaters stand in a shape list beside the outlines that they
modify.  An outline takes, of each of the four kinds, the nearest modifier after it, and
where there is none the nearest one before it.
-/

namespace MotionScene

/-- At most one modifier of each kind. -/
structure Modifiers (α : Type) where
  fill : Option α
  stroke : Option α
  trim : Option α
  repeater : Option α
  deriving Repr

namespace Modifiers

variable {α β : Type}

def empty : Modifiers α := ⟨none, none, none, none⟩

/-- Puts a modifier in the place of the one of its kind. -/
def put (modifiers : Modifiers α) (kind : ShapeKind) (entry : α) : Modifiers α :=
  match kind with
  | .fill => { modifiers with fill := some entry }
  | .stroke => { modifiers with stroke := some entry }
  | .trim => { modifiers with trim := some entry }
  | .repeater => { modifiers with repeater := some entry }
  | _ => modifiers

def of (modifiers : Modifiers α) : ShapeKind → Option α
  | .fill => modifiers.fill
  | .stroke => modifiers.stroke
  | .trim => modifiers.trim
  | .repeater => modifiers.repeater
  | _ => none

/-- The modifiers of the first, with those of the second for the kinds it has none of. -/
def orElse (first second : Modifiers α) : Modifiers α :=
  ⟨first.fill <|> second.fill, first.stroke <|> second.stroke,
    first.trim <|> second.trim, first.repeater <|> second.repeater⟩

end Modifiers

/-- The nearest modifiers after each entry of a shape list, and those of the whole list. -/
def following {α : Type} : List (ShapeKind × α) → List (Modifiers α) × Modifiers α
  | [] => ([], .empty)
  | (kind, entry) :: rest =>
    let (later, nearest) := following rest
    (nearest :: later, nearest.put kind entry)

/-- The nearest modifiers before each entry of a shape list, after those given. -/
def preceding {α : Type} : Modifiers α → List (ShapeKind × α) → List (Modifiers α)
  | _, [] => []
  | nearest, (kind, entry) :: rest => nearest :: preceding (nearest.put kind entry) rest

/-- The modifiers of each entry of a shape list; entries without an outline have none. -/
def bindModifiers {α : Type} (entries : List (ShapeKind × α)) :
    List (Option (Modifiers α)) :=
  List.zipWith (fun (kind : ShapeKind) (modifiers : Modifiers α) =>
      if kind.isGeometry then some modifiers else none)
    (entries.map (·.1))
    (List.zipWith Modifiers.orElse (following entries).1 (preceding .empty entries))

end MotionScene
