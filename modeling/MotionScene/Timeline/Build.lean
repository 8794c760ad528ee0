import MotionScene.Clock
import MotionScene.Timeline.Basic
import MotionScene.Timeline.Easing

/-!
# Timelines from source keyframes

A source keyframe has a frame, mostly a start value, and flags and handles that shape
the way to the next one.  A keyframe without a start value takes the end value of the
one before it, and failing that the value of the one before it.  A keyframe that is held
keeps its value until the next one and then jumps: its value is repeated at the percent
of the next.

Each value is turned into a patch of attributes.  A value without a patch leaves no
keyframe.  Percents never decrease, and a timeline that would start late starts with the
values of its first keyframe.
-/

namespace MotionScene

open scoped Scalar

variable {R : Type} [Scalar R]

/-- The attributes that a source value sets, if it sets any. -/
abbrev PatchRule (R : Type) := Value R → Except Fault (Option (Members R))

structure SourceKeyframe (R : Type) where
  members : Members R
  frame : Number R

/-- A value is a source keyframe if it is an object with a numeric frame. -/
def SourceKeyframe.ofValue? : Value R → Option (SourceKeyframe R)
  | .object members =>
    match Members.get members "t" with
    | .num frame => some ⟨members, frame⟩
    | _ => none
  | _ => none

/-- What the keyframes read so far leave for the next one. -/
structure Progress (R : Type) where
  /-- The source keyframe just before. -/
  previous? : Option (Members R)
  /-- Its value. -/
  value : Value R
  /-- The patch of the last keyframe that was emitted. -/
  patch? : Option (Members R)
  /-- The percent of the last keyframe that was emitted. -/
  percent : R

/-- What there is before the first keyframe. -/
def Progress.start : Progress R := ⟨none, .null, none, 0⟩

/-- Whether the source keyframe before keeps its value until the next. -/
def Progress.isHeld (progress : Progress R) : Bool :=
  match progress.previous? with
  | some previous => (previous.get "h").same (.num (.whole 1))
  | none => false

/-- The value of a source keyframe: its own start value, the end value of the one
before, or the value of the one before. -/
def Progress.startValue (progress : Progress R) (keyframe : Members R) : Value R :=
  let inherited := match progress.previous? with
    | some previous => previous.get "e"
    | none => .null
  match keyframe.get "s", inherited with
  | .null, .null => progress.value
  | .null, ending => ending
  | start, _ => start

/-- The keyframe that repeats a held value where the next keyframe stands. -/
def Progress.repeated (progress : Progress R) (percent : R) : List (Keyframe R) :=
  match progress.isHeld, progress.patch? with
  | true, some before => [⟨.real percent, none, before⟩]
  | _, _ => []

/-- The easing along which a source keyframe is reached from the one before; a held value
jumps. -/
def Progress.arrival (progress : Progress R) (next : Members R) (axis : Int) :
    Except Fault (Option String) :=
  match progress.isHeld, progress.previous? with
  | false, some previous => easing previous (some next) axis
  | _, _ => .ok none

/-- The patch of a resolved value; null has none. -/
def PatchRule.patch? (rule : PatchRule R) (value : Value R) : Except Fault (Option (Members R)) :=
  if value.isNull then .ok none else rule value

/-- The keyframes of the source keyframes that are still to come. -/
def emitKeyframes (clock : Clock R) (rule : PatchRule R) (axis : Int) :
    Progress R → List (SourceKeyframe R) → Except Fault (List (Keyframe R))
  | _, [] => .ok []
  | progress, source :: rest => do
    let value := progress.startValue source.members
    let patch? ← rule.patch? value
    let percent := Scalar.greatest progress.percent (← clock.percent source.frame)
    match patch? with
    | none =>
      emitKeyframes clock rule axis
        { progress with previous? := some source.members, value } rest
    | some patch =>
      let arrival ← progress.arrival source.members axis
      let later ← emitKeyframes clock rule axis
        ⟨some source.members, value, some patch, percent⟩ rest
      return progress.repeated percent ++ ⟨.real percent, arrival, patch⟩ :: later

/-- Lets keyframes that start late start at once with their first values. -/
def startAtOnce : List (Keyframe R) → Except Fault (List (Keyframe R))
  | [] => .ok []
  | first :: rest => do
    if ← first.startsLate then return ⟨.real 0, none, first.attributes⟩ :: first :: rest
    else return first :: rest

/-- The timeline of a list of source keyframes, none when no value sets an attribute. -/
def buildTimeline (keyframes : List (Value R)) (rule : PatchRule R) (clock : Clock R)
    (axis : Int) : Except Fault (Option (Timeline R)) := do
  let emitted ← emitKeyframes clock rule axis .start
    (keyframes.filterMap SourceKeyframe.ofValue?)
  if emitted.isEmpty then return none
  else
    let keyframes ← startAtOnce emitted
    let duration ← clock.duration
    let delay ← clock.delay
    return some ⟨.real duration, .real delay, keyframes, clock.options.loop⟩

end MotionScene
