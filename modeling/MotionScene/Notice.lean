import MotionScene.Document.Code
import MotionScene.Document.Printer
import MotionScene.Migration.Version
import MotionScene.Text.Compact
import MotionScene.Trace

/-!
# Notices

What the compiler has to say beside its result: who says it, how urgent it is, and in
which words.
-/

namespace MotionScene

/-- How urgent a notice is. -/
inductive Urgency where
  | debug
  | info
  | warning
  deriving DecidableEq, Repr

namespace Urgency

def name : Urgency → String
  | debug => "DEBUG"
  | info => "INFO"
  | warning => "WARNING"

def rank : Urgency → Nat
  | debug => 0
  | info => 1
  | warning => 2

end Urgency

/-- Something that the compiler reports while it works. -/
inductive Notice (R : Type) where
  | rescaledColors (version : Version)
  | selfReference (reference : Value R)
  | assetNotFound (reference : Value R)
  | migrated (version : Version) (layers : Nat)
  | unsupportedShape (code : Value R)
  | skippedLayer (kind : LayerKind) (name code : Value R)
  | duplicateIndex (index : Value R)
  | unknownParent (index parent : Value R)
  | parentCycle (index : Value R)
  | unusableFrameRate (given : Value R) (fallback : Number R)
  | outFrameNotPositive (given : Value R)
  | inFrameAfterOutFrame (inFrame outFrame : Number R)
  | compiled (layers elements : Nat) (duration : R)
  | loadedOptions (file : String)
  | registeredRoutine (name : String)

/-- A computation that leaves notices. -/
abbrev Report (R : Type) := Traced (Notice R)

namespace Notice

variable {R : Type}

/-- The part of the program that speaks. -/
def speaker : Notice R → String
  | rescaledColors _ | selfReference _ | assetNotFound _ | migrated .. => "lottiegraph.normalize"
  | unsupportedShape _ => "lottiegraph.shapes"
  | skippedLayer .. | duplicateIndex _ | unknownParent .. | parentCycle _ => "lottiegraph.layers"
  | unusableFrameRate .. | outFrameNotPositive _ | inFrameAfterOutFrame .. | compiled .. =>
    "lottiegraph.compiler"
  | loadedOptions _ => "lottiegraph.config"
  | registeredRoutine _ => "lottiegraph.draw"

def urgency : Notice R → Urgency
  | rescaledColors _ | migrated .. | unsupportedShape _ | skippedLayer .. | unknownParent ..
  | loadedOptions _ | registeredRoutine _ => .debug
  | compiled .. => .info
  | _ => .warning

/-- A duration in whole milliseconds; one that rounds to zero keeps its sign. -/
def milliseconds (duration : Float) : String :=
  match Scalar.special? duration with
  | some special => Text.specialText special
  | none =>
    let units := Scalar.decimalUnits 0 duration
    if (Binary64.parts duration).negative && units = 0 then "-0" else toString units

/-- The words of a notice.  How long a compilation took is left to the reader's clock. -/
def message : Notice Float → String
  | rescaledColors version =>
    "Rescaling 0-255 colors (document version " ++
      s!"({version.major}, {version.minor}, {version.patch}))"
  | selfReference reference =>
    "Precomposition " ++ reference.shown ++ " references itself; expanded as empty."
  | assetNotFound reference =>
    "Precomposition asset " ++ reference.shown ++ " not found; expanded as empty."
  | migrated version layers =>
    s!"Normalized document version {version.major}.{version.minor}.{version.patch}"
      ++ s!" with {layers} top-level layers"
  | unsupportedShape code => "Skipping unsupported shape type " ++ code.shown
  | skippedLayer kind name code =>
    "Skipping " ++ kind.name ++ " layer " ++ name.shown ++ " (ty=" ++ code.shown ++ ")"
  | duplicateIndex index =>
    "Duplicate layer index " ++ index.shown ++ "; keeping the frontmost layer."
  | unknownParent index parent =>
    "Layer " ++ index.shown ++ " has unknown parent " ++ parent.shown ++ "; kept at top level."
  | parentCycle index =>
    "Layer " ++ index.shown ++ " is part of a parent cycle; kept at top level."
  | unusableFrameRate given fallback =>
    "Document frame rate " ++ given.shown ++ " is not usable; falling back to "
      ++ fallback.text ++ " fps."
  | outFrameNotPositive given =>
    "Document out-frame " ++ given.shown ++ " is not positive; using a one-frame span."
  | inFrameAfterOutFrame inFrame outFrame =>
    "Document in-frame " ++ inFrame.text ++ " is after its out-frame " ++ outFrame.text ++ "."
  | compiled layers elements duration =>
    s!"Compiled {layers} layers into {elements} top-level elements ("
      ++ milliseconds duration ++ " ms timeline) in <t>s"
  | loadedOptions file => "Loaded compile options from " ++ file
  | registeredRoutine name => "Registered draw routine " ++ name

def line (notice : Notice Float) : String :=
  notice.urgency.name ++ " " ++ notice.speaker ++ ": " ++ notice.message

/-- The lines of the notices that are urgent enough. -/
def lines (least : Urgency) (notices : List (Notice Float)) : List String :=
  (notices.filter fun notice => least.rank ≤ notice.urgency.rank).map line

end Notice

end MotionScene
