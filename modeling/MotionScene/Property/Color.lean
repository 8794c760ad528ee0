import MotionScene.Document.Component
import MotionScene.Text.Compact

/-!
# Colors

A color of a document has red, green, blue and alpha between 0 and 1.  It is written
with the first three as whole numbers between 0 and 255 and with alpha as compact
decimal text.  A missing color channel is 0 and a missing alpha is 1.
-/

namespace MotionScene

open scoped Scalar

variable {R : Type} [Scalar R]

/-- The whole number between 0 and 255 that is nearest to a channel, halves upwards. -/
def channelByte (channel : Number R) : Except Fault Nat := do
  let scaled ← channel.mul (.whole 255)
  let raised ← scaled.add (.real (Scalar.decimal 5 1))
  let level ← raised.floor
  return (min 255 (max 0 level)).toNat

/-- The written form of a color. -/
def colorText (color : Value R) : Except Fault String := do
  let red ← channelByte (← color.componentOr 0 (.real 0))
  let green ← channelByte (← color.componentOr 1 (.real 0))
  let blue ← channelByte (← color.componentOr 2 (.real 0))
  let alpha ← color.componentOr 3 (.real 1)
  let shown := Text.compact alpha.clampUnit
  return s!"rgba({red},{green},{blue},{shown})"

end MotionScene
