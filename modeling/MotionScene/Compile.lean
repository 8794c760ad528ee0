import MotionScene.Layer.Compile
import MotionScene.Migration.Document

/-!
# Compiling a document

A migrated document has a clock, which its frame rate and its in- and out-frame set, and
a scene, which its layers make up.  Where the frame rate is not usable the one of the
options stands in, and where the out-frame is not positive the clock has one frame.
-/

namespace MotionScene

open scoped Scalar

variable {R : Type} [Scalar R]

/-- The number under a key, or a default where there is none. -/
def numberOr (members : Members R) (key : String) (default : Number R) : Number R :=
  (members.get key).number?.getD default

def documentFrameRate (members : Members R) (options : Options R) : Report R (Number R) := do
  let frameRate := numberOr members "fr" (.real 0)
  if frameRate.atMost (.whole 0) then
    Traced.tell (.unusableFrameRate (members.get "fr") options.defaultFrameRate)
    return options.defaultFrameRate
  else return frameRate

def documentClock (members : Members R) (options : Options R) : Report R (Clock R) := do
  let frameRate ← documentFrameRate members options
  let inFrame := numberOr members "ip" (.real 0)
  let outFrame := numberOr members "op" (.real 0)
  if outFrame.atMost (.whole 0) then Traced.tell (.outFrameNotPositive (members.get "op"))
  else if outFrame.below inFrame then Traced.tell (.inFrameAfterOutFrame inFrame outFrame)
  return ⟨frameRate, inFrame, outFrame, .real 0, options⟩

/-- A compiled document: the size of its canvas, its timing, and its elements from back
to front. -/
structure Scene (R : Type) where
  width : Number R
  height : Number R
  frameRate : Number R
  duration : R
  elements : List (Element R)

namespace Scene

/-- All elements of a scene, each before its children. -/
def all (scene : Scene R) : List (Element R) :=
  Element.allOf scene.elements

/-- The first element with a name; null names elements without one. -/
def find? (scene : Scene R) (name : Value R) : Option (Element R) :=
  scene.all.find? (Element.isNamed name)

def toMembers (scene : Scene R) : Members R :=
  [("width", .num scene.width), ("height", .num scene.height),
   ("elements", .list (scene.elements.map Element.toValue))]

def toValue (scene : Scene R) : Value R :=
  .object scene.toMembers

end Scene

def compileMigrated (document : MigratedDocument R) (options : Options R) :
    Report R (Scene R) := do
  let clock ← documentClock document.members options
  let elements ← assembleLayers clock (document.members.get "layers")
  let duration ← clock.duration
  Traced.tell (.compiled document.layers.length elements.length duration)
  return ⟨numberOr document.members "w" (.whole 0), numberOr document.members "h" (.whole 0),
    clock.frameRate, duration, elements⟩

def compile (value : Value R) (options : Options R) : Report R (Scene R) := do
  compileMigrated (← migrate value) options

end MotionScene
