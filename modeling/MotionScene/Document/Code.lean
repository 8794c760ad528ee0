import MotionScene.Document.Value

/-!
# Type codes

Layers and shapes say what they are by a code: layers by a number or a word, shapes by
two letters.
-/

namespace MotionScene

inductive LayerKind where
  | precomp
  | solid
  | image
  | null
  | shape
  | text
  | unknown
  deriving DecidableEq, Repr

namespace LayerKind

/-- The layer kinds in the order of their numbers. -/
def numbered : List LayerKind := [precomp, solid, image, null, shape, text]

def name : LayerKind → String
  | precomp => "precomp"
  | solid => "solid"
  | image => "image"
  | null => "null"
  | shape => "shape"
  | text => "text"
  | unknown => "unknown"

def ofCode {R : Type} : Value R → LayerKind
  | .num (.whole n) => if n < 0 then unknown else numbered[n.toNat]?.getD unknown
  | .text word => (numbered.find? fun kind => kind.name == word).getD unknown
  | _ => unknown

end LayerKind

inductive ShapeKind where
  | group
  | fill
  | stroke
  | transform
  | path
  | ellipse
  | rect
  | trim
  | repeater
  | unknown
  deriving DecidableEq, Repr

namespace ShapeKind

/-- The two letters of a shape kind. -/
def code : ShapeKind → String
  | group => "gr"
  | fill => "fl"
  | stroke => "st"
  | transform => "tr"
  | path => "sh"
  | ellipse => "el"
  | rect => "rc"
  | trim => "tm"
  | repeater => "rp"
  | unknown => "?"

def name : ShapeKind → String
  | group => "group"
  | fill => "fill"
  | stroke => "stroke"
  | transform => "transform"
  | path => "path"
  | ellipse => "ellipse"
  | rect => "rect"
  | trim => "trim"
  | repeater => "repeater"
  | unknown => "unknown"

/-- The shape kinds that have a code of their own. -/
def known : List ShapeKind :=
  [group, fill, stroke, transform, path, ellipse, rect, trim, repeater]

def ofCode {R : Type} : Value R → ShapeKind
  | .text letters => (known.find? fun kind => kind.code == letters).getD unknown
  | _ => unknown

/-- The shape kind of an entry of a shape list. -/
def ofEntry {R : Type} : Value R → ShapeKind
  | .object members => ofCode (Members.get members "ty")
  | _ => unknown

/-- Whether entries of this kind have an outline of their own. -/
def isGeometry : ShapeKind → Bool
  | path | ellipse | rect => true
  | _ => false

def elementType : ShapeKind → ElementType
  | path => .path
  | ellipse => .ellipse
  | rect => .rect
  | _ => .group

end ShapeKind

end MotionScene
