import MotionScene.Number

/-!
# The clock of a composition

All timelines of a scene share one clock: frames are counted from the start of the root
composition and the clock runs to the out-frame of the document.  A frame stands at a
*percent* of that span.  A nested composition starts its frames later by an offset.
-/

namespace MotionScene

open scoped Scalar

/-- What the user may ask of a compilation. -/
structure Options (R : Type) where
  /-- Whether every timeline starts again at its end. -/
  loop : Bool
  /-- The frame rate of documents that have no usable one. -/
  defaultFrameRate : Number R
  /-- Whether layers and shapes hand their names on to their elements. -/
  keepNames : Bool

/-- The options of a user who asks for nothing. -/
def Options.standard {R : Type} [Scalar R] : Options R :=
  ⟨false, .real 30, true⟩

/-- The timing that every timeline of a composition shares. -/
structure Clock (R : Type) where
  frameRate : Number R
  inFrame : Number R
  outFrame : Number R
  /-- The root frame at which the frames of this composition start. -/
  offset : Number R
  options : Options R

namespace Clock

variable {R : Type} [Scalar R]

/-- The frames that every timeline covers. -/
def span (clock : Clock R) : Number R :=
  if clock.outFrame.isPositive then clock.outFrame else .real 1

/-- Milliseconds per frame. -/
def frameTime (clock : Clock R) : Except Fault R :=
  (Number.real 1000).divide clock.frameRate

/-- Milliseconds per timeline. -/
def duration (clock : Clock R) : Except Fault R := do
  let frameTime ← clock.frameTime
  let span ← clock.span.toReal
  return span * frameTime

/-- Milliseconds from the start of the clock to the in-frame, as a negative delay. -/
def delay (clock : Clock R) : Except Fault R :=
  if clock.inFrame.isZero then .ok 0
  else do
    let frameTime ← clock.frameTime
    let start ← clock.inFrame.negate.toReal
    return start * frameTime

/-- Where a frame of this composition stands on the clock, in the unit interval. -/
def percent (clock : Clock R) (frame : Number R) : Except Fault R := do
  let rootFrame ← frame.add clock.offset
  let position ← rootFrame.divide clock.span
  return Scalar.clampUnit position

/-- The clock of a composition that starts the given number of frames later. -/
def shifted (clock : Clock R) (frames : Number R) : Except Fault (Clock R) := do
  let offset ← clock.offset.add frames
  return { clock with offset }

end Clock

end MotionScene
