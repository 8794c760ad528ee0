import MotionScene.Proofs.Members
import MotionScene.Property.Resolve

/-!
# Keyframes taken to one axis

A property of several axes leaves one timeline for each of them, which is read off the keyframes
by picking a component of every value and of every coordinate of a handle.  The components can
also be picked beforehand, which makes keyframes with a number for each value (`keyframeOnAxis`).
They are read as keyframes of a single axis, and leave the same timeline
(`buildTimeline_onAxis`).

The two runs over the keyframes go side by side.  Their values are not the same, but one is the
other on the axis (`Value.IsOn`): they have the same component, and both or none of them is null,
on which depends what a keyframe takes over from the one before.
-/

namespace MotionScene

variable {R : Type}

/-! ## Members that are taken to an axis -/

/-- Members of which one is revised, and left out if nothing is left of it. -/
def Members.revise (revision : Value R → Option (Value R)) (key : String) (members : Members R) :
    Members R :=
  match members.get? key with
  | none => members
  | some value =>
    match revision value with
    | some own => members.set key own
    | none => members.erase key

theorem Members.get?_revise_self (revision : Value R → Option (Value R)) (key : String)
    (members : Members R) :
    (members.revise revision key).get? key = (members.get? key).bind revision := by
  rw [revise]
  cases hvalue : members.get? key with
  | none => exact hvalue
  | some value =>
      rw [Option.bind_some]
      dsimp only
      cases revision value with
      | none => exact get?_erase_self members key
      | some own => exact get?_set_self members key own

theorem Members.get?_revise_of_ne (revision : Value R → Option (Value R)) {key other : String}
    (members : Members R) (h : key ≠ other) :
    (members.revise revision key).get? other = members.get? other := by
  rw [revise]
  cases members.get? key with
  | none => rfl
  | some value =>
      dsimp only
      cases revision value with
      | none => exact get?_erase_of_ne members h
      | some own => exact get?_set_of_ne members own h

theorem Members.get_revise_of_ne (revision : Value R → Option (Value R)) {key other : String}
    (members : Members R) (h : key ≠ other) :
    (members.revise revision key).get other = members.get other :=
  Members.get_congr (get?_revise_of_ne revision members h)

namespace Value

/-- What a value is on an axis: a list the number that it has for the axis, if it has one, and
any other value itself. -/
def onAxis (axis : Nat) : Value R → Option (Value R)
  | list items => (items[axis]?.bind number?).map num
  | value => some value

/-- A handle with its coordinates on an axis. -/
def handleOnAxis (axis : Nat) : Value R → Value R
  | object members => object ((Members.revise (onAxis axis) "x" members).revise (onAxis axis) "y")
  | value => value

end Value

/-- The members of a keyframe with its values and its handles on an axis. -/
def Members.keyframeOnAxis (axis : Nat) (members : Members R) : Members R :=
  (((members.revise (Value.onAxis axis) "s").revise (Value.onAxis axis) "e").revise
    (some ∘ Value.handleOnAxis axis) "i").revise (some ∘ Value.handleOnAxis axis) "o"

def Value.keyframeOnAxis (axis : Nat) : Value R → Value R
  | object members => object (Members.keyframeOnAxis axis members)
  | value => value

/-- A value with numbers for two axes. -/
def Value.IsPair (value : Value R) : Prop :=
  ∃ x y rest, value = list (num x :: num y :: rest)

/-- A keyframe whose values, where it has any, have numbers for two axes. -/
structure Members.HasPairs (members : Members R) : Prop where
  start : members.get "s" = .null ∨ (members.get "s").IsPair
  ending : members.get "e" = .null ∨ (members.get "e").IsPair

/-! ## Values on an axis -/

/-- A value is another one on an axis if it has the component of that axis, and is null only if
the other one is. -/
structure Value.IsOn (axis : Nat) (value own : Value R) : Prop where
  isNull : own.isNull = value.isNull
  component : own.component 0 = value.component axis

theorem Value.isOn_null (axis : Nat) : (null : Value R).IsOn axis null := ⟨rfl, rfl⟩

/-- Taking a member to an axis picks its component. -/
theorem component_onAxis (axis : Nat) (value? : Option (Value R)) :
    ((value?.bind (Value.onAxis axis)).getD .null).component 0 =
      (value?.getD .null).component axis := by
  cases value? with
  | none => rfl
  | some value =>
      cases value with
      | list items =>
          rw [Option.getD_some, Value.component_list, Option.bind_some, Value.onAxis]
          cases items[axis]?.bind Value.number? <;> rfl
      | _ => rfl

theorem isOn_onAxis {axis : Nat} (haxis : axis < 2) {value? : Option (Value R)}
    (pair : value?.getD .null = .null ∨ (value?.getD .null).IsPair) :
    (value?.getD .null).IsOn axis ((value?.bind (Value.onAxis axis)).getD .null) := by
  refine ⟨?_, component_onAxis axis value?⟩
  cases value? with
  | none => rfl
  | some value =>
      rw [Option.getD_some] at pair
      rcases pair with rfl | ⟨x, y, rest, rfl⟩
      · rfl
      · obtain rfl | rfl : axis = 0 ∨ axis = 1 := by omega
        · rfl
        · rfl

/-! ## Keyframes on an axis -/

/-- What a timeline reads of two keyframes of which one is the other on an axis. -/
structure KeyframeOn (axis : Nat) (members own : Members R) : Prop where
  start : (members.get "s").IsOn axis (own.get "s")
  ending : (members.get "e").IsOn axis (own.get "e")
  incoming : own.get "i" = (members.get "i").handleOnAxis axis
  outgoing : own.get "o" = (members.get "o").handleOnAxis axis
  held : own.get "h" = members.get "h"

theorem get_revise_handle (axis : Nat) (members : Members R) (key : String) :
    (members.revise (some ∘ Value.handleOnAxis axis) key).get key =
      (members.get key).handleOnAxis axis := by
  rw [Members.get, Members.get?_revise_self, Members.get]
  cases members.get? key <;> rfl

section Keys

variable (axis : Nat) (members : Members R)

theorem get?_frame_keyframeOnAxis :
    (members.keyframeOnAxis axis).get? "t" = members.get? "t" := by
  rw [Members.keyframeOnAxis, Members.get?_revise_of_ne _ _ (by decide),
    Members.get?_revise_of_ne _ _ (by decide), Members.get?_revise_of_ne _ _ (by decide),
    Members.get?_revise_of_ne _ _ (by decide)]

theorem get?_start_keyframeOnAxis :
    (members.keyframeOnAxis axis).get? "s" = (members.get? "s").bind (Value.onAxis axis) := by
  rw [Members.keyframeOnAxis, Members.get?_revise_of_ne _ _ (by decide),
    Members.get?_revise_of_ne _ _ (by decide), Members.get?_revise_of_ne _ _ (by decide),
    Members.get?_revise_self]

theorem get?_end_keyframeOnAxis :
    (members.keyframeOnAxis axis).get? "e" = (members.get? "e").bind (Value.onAxis axis) := by
  rw [Members.keyframeOnAxis, Members.get?_revise_of_ne _ _ (by decide),
    Members.get?_revise_of_ne _ _ (by decide), Members.get?_revise_self,
    Members.get?_revise_of_ne _ _ (by decide)]

end Keys

theorem Members.HasPairs.keyframeOn {axis : Nat} (haxis : axis < 2) {members : Members R}
    (pairs : members.HasPairs) : KeyframeOn axis members (members.keyframeOnAxis axis) where
  start := by
    rw [get, get, get?_start_keyframeOnAxis]
    exact isOn_onAxis haxis pairs.start
  ending := by
    rw [get, get, get?_end_keyframeOnAxis]
    exact isOn_onAxis haxis pairs.ending
  incoming := by
    rw [keyframeOnAxis, get_revise_of_ne _ _ (by decide), get_revise_handle,
      get_revise_of_ne _ _ (by decide), get_revise_of_ne _ _ (by decide)]
  outgoing := by
    rw [keyframeOnAxis, get_revise_handle, get_revise_of_ne _ _ (by decide),
      get_revise_of_ne _ _ (by decide), get_revise_of_ne _ _ (by decide)]
  held := by
    rw [keyframeOnAxis, get_revise_of_ne _ _ (by decide), get_revise_of_ne _ _ (by decide),
      get_revise_of_ne _ _ (by decide), get_revise_of_ne _ _ (by decide)]

/-- A source keyframe on an axis stands at the same frame. -/
def SourceKeyframe.onAxis (axis : Nat) (source : SourceKeyframe R) : SourceKeyframe R :=
  ⟨source.members.keyframeOnAxis axis, source.frame⟩

theorem ofValue?_keyframeOnAxis (axis : Nat) (value : Value R) :
    SourceKeyframe.ofValue? (value.keyframeOnAxis axis) =
      (SourceKeyframe.ofValue? value).map (SourceKeyframe.onAxis axis) := by
  cases value with
  | object members =>
      rw [Value.keyframeOnAxis, SourceKeyframe.ofValue?, SourceKeyframe.ofValue?,
        Members.get_congr (get?_frame_keyframeOnAxis axis members)]
      cases Members.get members "t" <;> rfl
  | _ => rfl

/-! ## Easings on an axis -/

section Easing

variable {axis : Nat}

/-- The handle with which the way from a keyframe to the next one arrives. -/
def incomingHandle (members : Members R) (next? : Option (Members R)) : Value R :=
  match members.get "i", next? with
  | .null, some next => next.get "i"
  | own, _ => own

/-- The coordinates that two handles have for an axis. -/
def handleCoordinates (axis : Int) : (outgoing incoming : Value R) →
    Except Fault (Option (List (Number R)))
  | .object outgoing, .object incoming => do
    let x1 ← (Members.get outgoing "x").component axis
    let y1 ← (Members.get outgoing "y").component axis
    let x2 ← (Members.get incoming "x").component axis
    let y2 ← (Members.get incoming "y").component axis
    return do return [← x1, ← y1, ← x2, ← y2]
  | _, _ => .ok none

theorem easingCoordinates_eq (members : Members R) (next? : Option (Members R)) (axis : Int) :
    easingCoordinates members next? axis =
      handleCoordinates axis (members.get "o") (incomingHandle members next?) := rfl

theorem component_handleOnAxis (axis : Nat) (members : Members R) {key : String}
    (h : key = "x" ∨ key = "y") :
    (Members.get ((members.revise (Value.onAxis axis) "x").revise (Value.onAxis axis) "y")
      key).component 0 = (members.get key).component axis := by
  have hcomponent := component_onAxis axis (members.get? key)
  rw [Members.get]
  rcases h with rfl | rfl
  · rwa [Members.get?_revise_of_ne _ _ (by decide), Members.get?_revise_self]
  · rwa [Members.get?_revise_self, Members.get?_revise_of_ne _ _ (by decide)]

theorem handleCoordinates_onAxis (axis : Nat) (outgoing incoming : Value R) :
    handleCoordinates 0 (outgoing.handleOnAxis axis) (incoming.handleOnAxis axis) =
      handleCoordinates axis outgoing incoming := by
  cases outgoing with
  | object outgoing =>
      cases incoming with
      | object incoming =>
          simp only [Value.handleOnAxis, handleCoordinates,
            component_handleOnAxis axis _ (.inl rfl), component_handleOnAxis axis _ (.inr rfl)]
      | _ => rfl
  | _ => rfl

variable {previous next own ownNext : Members R}

theorem incomingHandle_onAxis (hprevious : KeyframeOn axis previous own)
    (hnext : KeyframeOn axis next ownNext) :
    incomingHandle own (some ownNext) =
      (incomingHandle previous (some next)).handleOnAxis axis := by
  unfold incomingHandle
  rw [hprevious.incoming]
  cases previous.get "i" with
  | null => exact hnext.incoming
  | _ => rfl

theorem easing_onAxis [Scalar R] (hprevious : KeyframeOn axis previous own)
    (hnext : KeyframeOn axis next ownNext) :
    easing own (some ownNext) 0 = easing previous (some next) axis := by
  rw [easing, easing, easingCoordinates_eq, easingCoordinates_eq, hprevious.outgoing,
    incomingHandle_onAxis hprevious hnext, handleCoordinates_onAxis]

end Easing

/-! ## Timelines on an axis -/

/-- What a keyframe without a value takes over: the end value of the one before. -/
def Progress.inherited (progress : Progress R) : Value R :=
  (progress.previous?.map (Members.get · "e")).getD .null

theorem startValue_eq_ite (progress : Progress R) (members : Members R) :
    progress.startValue members =
      if (members.get "s").isNull then
        if progress.inherited.isNull then progress.value else progress.inherited
      else members.get "s" := by
  obtain ⟨previous?, value, patch?, percent⟩ := progress
  unfold Progress.startValue
  cases members.get "s" with
  | null =>
      cases previous? with
      | none => rfl
      | some previous =>
          have hinherited : (Progress.mk (some previous) value patch? percent).inherited =
              previous.get "e" := rfl
          rw [hinherited]
          dsimp only
          cases previous.get "e" <;> rfl
  | _ => rfl

/-- Progress over keyframes and over what they are on an axis. -/
structure ProgressOn (axis : Nat) (progress own : Progress R) : Prop where
  previous : Option.Rel (KeyframeOn axis) progress.previous? own.previous?
  value : progress.value.IsOn axis own.value
  patch : own.patch? = progress.patch?
  percent : own.percent = progress.percent

variable [Scalar R]

namespace ProgressOn

theorem atStart (axis : Nat) : ProgressOn axis (.start : Progress R) .start :=
  ⟨.none, Value.isOn_null axis, rfl, rfl⟩

variable {axis : Nat} {progress own : Progress R} (on : ProgressOn axis progress own)
  {members ownMembers : Members R} (keyframe : KeyframeOn axis members ownMembers)

include on

omit [Scalar R] in
/-- There was a keyframe before on both ways or on none of them. -/
theorem previous_cases : progress.previous? = none ∧ own.previous? = none ∨
    ∃ previous ownPrevious, progress.previous? = some previous ∧
      own.previous? = some ownPrevious ∧ KeyframeOn axis previous ownPrevious := by
  obtain ⟨previous?, value, patch?, percent⟩ := progress
  obtain ⟨ownPrevious?, ownValue, ownPatch?, ownPercent⟩ := own
  cases on.previous with
  | none => exact .inl ⟨rfl, rfl⟩
  | some hkeyframe => exact .inr ⟨_, _, rfl, rfl, hkeyframe⟩

theorem isHeld : own.isHeld = progress.isHeld := by
  unfold Progress.isHeld
  obtain ⟨hnone, hown⟩ | ⟨_, _, hsome, hown, hkeyframe⟩ := on.previous_cases
  · rw [hnone, hown]
  · rw [hsome, hown]
    exact congrArg (Value.same · _) hkeyframe.held

theorem repeated (percent : R) : own.repeated percent = progress.repeated percent := by
  rw [Progress.repeated, Progress.repeated, on.isHeld, on.patch]

omit [Scalar R] in
theorem inherited : progress.inherited.IsOn axis own.inherited := by
  unfold Progress.inherited
  obtain ⟨hnone, hown⟩ | ⟨_, _, hsome, hown, hkeyframe⟩ := on.previous_cases
  · rw [hnone, hown]
    exact Value.isOn_null axis
  · rw [hsome, hown]
    exact hkeyframe.ending

include keyframe

omit [Scalar R] in
/-- What is taken over from the keyframe before is taken over on the axis, as both have a value
of their own or none. -/
theorem startValue :
    (progress.startValue members).IsOn axis (own.startValue ownMembers) := by
  rw [startValue_eq_ite, startValue_eq_ite, keyframe.start.isNull, on.inherited.isNull]
  by_cases hstart : (members.get "s").isNull = true
  · rw [if_pos hstart, if_pos hstart]
    split
    · exact on.value
    · exact on.inherited
  · rw [if_neg hstart, if_neg hstart]
    exact keyframe.start

theorem arrival : own.arrival ownMembers 0 = progress.arrival members axis := by
  unfold Progress.arrival
  rw [on.isHeld]
  cases progress.isHeld with
  | true => rfl
  | false =>
      obtain ⟨hnone, hown⟩ | ⟨_, _, hsome, hown, hprevious⟩ := on.previous_cases
      · rw [hnone, hown]
      · rw [hsome, hown]
        exact easing_onAxis hprevious keyframe

end ProgressOn

theorem patch?_axisRule {axis : Nat} {value own : Value R} (on : value.IsOn axis own)
    (target name : String) (conversion : Conversion) :
    (axisRule target name conversion 0).patch? own =
      (axisRule target name conversion axis).patch? value := by
  rw [PatchRule.patch?, PatchRule.patch?, on.isNull, axisRule, axisRule, on.component]

variable {clock : Clock R} {target name : String} {conversion : Conversion} {axis : Nat}

/-- The keyframes of an axis leave what the axis of the keyframes leaves: the induction is on
the source keyframes, with the progress of both side by side. -/
theorem emitKeyframes_onAxis (haxis : axis < 2) {progress own : Progress R}
    (on : ProgressOn axis progress own) {sources : List (SourceKeyframe R)}
    (pairs : ∀ source ∈ sources, source.members.HasPairs) :
    emitKeyframes clock (axisRule target name conversion 0) 0 own
        (sources.map (SourceKeyframe.onAxis axis)) =
      emitKeyframes clock (axisRule target name conversion axis) axis progress sources := by
  induction sources generalizing progress own with
  | nil => rfl
  | cons source rest ih =>
      obtain ⟨hsource, hrest⟩ := List.forall_mem_cons.mp pairs
      have hkeyframe : KeyframeOn axis source.members (source.onAxis axis).members :=
        hsource.keyframeOn haxis
      have hvalue := on.startValue hkeyframe
      have hframe : (source.onAxis axis).frame = source.frame := rfl
      rw [List.map_cons, emitKeyframes, emitKeyframes, patch?_axisRule hvalue, hframe, on.percent]
      refine bind_congr fun patch? => bind_congr fun percent => ?_
      cases patch? with
      | none => exact ih ⟨.some hkeyframe, hvalue, on.patch, rfl⟩ hrest
      | some patch =>
          have hnext : ProgressOn axis
              ⟨some source.members, progress.startValue source.members, some patch,
                Scalar.greatest progress.percent percent⟩
              ⟨some (source.onAxis axis).members, own.startValue (source.onAxis axis).members,
                some patch, Scalar.greatest progress.percent percent⟩ :=
            ⟨.some hkeyframe, hvalue, rfl, rfl⟩
          dsimp only
          rw [on.arrival hkeyframe, on.repeated]
          refine bind_congr fun arrival => ?_
          rw [ih hnext hrest]

/-- The keyframes of an axis build the timeline of this axis. -/
theorem buildTimeline_onAxis (haxis : axis < 2) {keyframes : List (Value R)}
    (pairs : ∀ source ∈ keyframes.filterMap SourceKeyframe.ofValue?, source.members.HasPairs) :
    buildTimeline (keyframes.map (Value.keyframeOnAxis axis)) (axisRule target name conversion 0)
        clock 0 =
      buildTimeline keyframes (axisRule target name conversion axis) clock axis := by
  have hsources : (keyframes.map (Value.keyframeOnAxis axis)).filterMap SourceKeyframe.ofValue? =
      (keyframes.filterMap SourceKeyframe.ofValue?).map (SourceKeyframe.onAxis axis) := by
    rw [List.filterMap_map, List.map_filterMap]
    exact List.filterMap_congr fun value _ => ofValue?_keyframeOnAxis axis value
  rw [buildTimeline, buildTimeline, hsources, emitKeyframes_onAxis haxis (.atStart axis) pairs]

end MotionScene
