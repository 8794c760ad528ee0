import MotionScene.Document.Value

/-!
# Timelines

A keyframe says which attributes have which values at a percent of the clock, and how
they approach it.  A timeline is a list of keyframes with the duration and the delay of
the clock.  Written as an object, a keyframe shows its percent and easing beside the
members of its patch; a patch member of either name would take their place.
-/

namespace MotionScene

/-- Attribute values at one moment. -/
structure Keyframe (R : Type) where
  percent : Number R
  /-- The curve along which the values arrive; none for a straight line. -/
  easing : Option String
  patch : Members R

structure Timeline (R : Type) where
  duration : Number R
  delay : Number R
  keyframes : List (Keyframe R)
  loop : Bool

namespace Keyframe

variable {R : Type}

/-- The keys under which a keyframe shows its own members. -/
def ownKeys : List String := ["percent", "easing"]

/-- The patch members that name attributes. -/
def attributes (keyframe : Keyframe R) : Members R :=
  keyframe.patch.filter fun entry => !ownKeys.contains entry.1

def toMembers (keyframe : Keyframe R) : Members R :=
  let own : Members R := match keyframe.easing with
    | some easing => [("percent", .num keyframe.percent), ("easing", .text easing)]
    | none => [("percent", .num keyframe.percent)]
  own.merge keyframe.patch

/-- Whether the percent that a keyframe shows lies above zero. -/
def startsLate [Scalar R] (keyframe : Keyframe R) : Except Fault Bool :=
  match keyframe.patch.get? "percent" with
  | none => .ok keyframe.percent.isPositive
  | some shown =>
    match shown.quantity? with
    | some percent => .ok percent.isPositive
    | none => .error .wrongKind

end Keyframe

namespace Timeline

variable {R : Type}

/-- The attributes that some keyframe patches, each named once. -/
def touchedKeys (timeline : Timeline R) : List String :=
  (timeline.keyframes.flatMap fun keyframe => keyframe.attributes.keys).eraseDups

def toMembers (timeline : Timeline R) : Members R :=
  [("duration", .num timeline.duration), ("delay", .num timeline.delay),
   ("keyframes", .list (timeline.keyframes.map fun keyframe => .object keyframe.toMembers))]
  ++ if timeline.loop then [("loop", .bool true)] else []

end Timeline

end MotionScene
