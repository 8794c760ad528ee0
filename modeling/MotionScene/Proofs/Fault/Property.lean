import MotionScene.Proofs.Element.Placing
import MotionScene.Proofs.Fault.Ends

/-!
# Properties of any kind

Whatever stands in the place of a property, a color or a transform, writing it onto an
element fails for nothing but arithmetic.  A property that makes no sense has no effect, and
all that is written under a target finds the object there that it is written into
(`writable_under`).  Taking the anchor of a group away needs the opposites of what the
transform wrote, and these are numbers (`ends_pivot`).
-/

namespace MotionScene

variable {R : Type} {admitted : Fault → Prop}

/-! ## Values -/

section Arithmetic

variable [Scalar R] (arithmetic : AdmitsArithmetic R admitted)

omit [Scalar R] in
theorem ends_component (axis : Nat) (value : Value R) :
    FailsOnly admitted (value.component axis) := by
  obtain ⟨component?, h⟩ := exists_component axis value
  rw [h]
  trivial

include arithmetic

theorem ends_toRotation (degrees : Number R) :
    FailsOnly admitted (toRotation degrees) := by
  unfold toRotation
  split
  · trivial
  · exact (Number.ends_divide arithmetic _ fun _ => rfl).bind fun _ _ _ => trivial

theorem ends_conversion (conversion : Conversion) (n : Number R) :
    FailsOnly admitted (conversion.apply n) := by
  cases conversion with
  | none => trivial
  | rotation => exact (ends_toRotation arithmetic n).map fun _ _ => trivial
  | percent | half | turns =>
      exact (Number.ends_divide arithmetic n fun _ => rfl).map fun _ _ => trivial

theorem ends_channelByte (channel : Number R) :
    FailsOnly admitted (channelByte channel) := by
  refine (Number.ends_mul arithmetic channel _).bind fun scaled _ _ => ?_
  refine (Number.ends_add arithmetic scaled _).bind fun raised _ _ => ?_
  exact (Number.ends_floor arithmetic raised).bind fun _ _ _ => trivial

theorem ends_colorText (color : Value R) : FailsOnly admitted (colorText color) := by
  have hcomponent : ∀ (axis : Nat) (default : Number R),
      FailsOnly admitted (color.componentOr axis default) :=
    fun axis default => (ends_component axis color).bind fun _ _ _ => trivial
  refine (hcomponent 0 _).bind fun _ _ _ => (ends_channelByte arithmetic _).bind fun _ _ _ => ?_
  refine (hcomponent 1 _).bind fun _ _ _ => (ends_channelByte arithmetic _).bind fun _ _ _ => ?_
  refine (hcomponent 2 _).bind fun _ _ _ => (ends_channelByte arithmetic _).bind fun _ _ _ => ?_
  exact (hcomponent 3 _).bind fun _ _ _ => trivial

/-! ## Timelines -/

theorem ends_easing (axis : Nat) (keyframe : Members R) (next? : Option (Members R)) :
    FailsOnly admitted (easing keyframe next? axis) := by
  obtain ⟨coordinates?, hcoordinates⟩ := exists_easingCoordinates axis keyframe next?
  rw [easing, hcoordinates, ok_bind]
  cases coordinates? with
  | none => trivial
  | some coordinates =>
      refine (FailsOnly.mapM fun n _ => (Number.ends_toReal arithmetic n).failsOnly).bind fun _ _ _ => ?_
      split
      · trivial
      · exact (FailsOnly.mapM fun n _ => ends_compactNumber arithmetic n).bind fun _ _ _ => trivial

variable {clock : Clock R} {rule : PatchRule R}

theorem ends_emitKeyframes (hrule : ∀ value, FailsOnly admitted (rule value))
    (axis : Nat) (progress : Progress R) (sources : List (SourceKeyframe R)) :
    FailsOnly admitted (emitKeyframes clock rule axis progress sources) := by
  induction sources generalizing progress with
  | nil => trivial
  | cons source rest ih =>
      rw [emitKeyframes]
      have hpatch : FailsOnly admitted (rule.patch? (progress.startValue source.members)) := by
        unfold PatchRule.patch?
        split
        · trivial
        · exact hrule _
      refine hpatch.bind fun patch? _ _ => ?_
      refine (Clock.ends_percent arithmetic source.frame).bind fun percent _ _ => ?_
      cases patch? with
      | none => exact ih _
      | some patch =>
          have harrival : FailsOnly admitted (progress.arrival source.members axis) := by
            unfold Progress.arrival
            split
            · exact ends_easing arithmetic axis _ _
            · trivial
          exact harrival.bind fun _ _ _ => (ih _).bind fun _ _ _ => trivial

omit arithmetic in
/-- Patches of attributes do not hide the percent that a keyframe shows. -/
theorem exists_startsLate {keyframe : Keyframe R} (sets : SetsAttributes keyframe.patch) :
    ∃ late, keyframe.startsLate = .ok late := by
  rw [Keyframe.startsLate, sets "percent" (by decide)]
  exact ⟨_, rfl⟩

theorem ends_buildTimeline (sets : rule.Sets)
    (hrule : ∀ value, FailsOnly admitted (rule value)) (runs : clock.Runs)
    (keyframes : List (Value R)) (axis : Nat) :
    FailsOnly admitted (buildTimeline keyframes rule clock axis) := by
  refine (ends_emitKeyframes arithmetic hrule axis _ _).bind fun emitted hemitted _ => ?_
  have hsets := good_emitKeyframes sets (fun _ h => by cases h) hemitted
  split
  · trivial
  · have hstart : FailsOnly admitted (startAtOnce emitted) := by
      cases emitted with
      | nil => trivial
      | cons first rest =>
          obtain ⟨late, hlate⟩ := exists_startsLate (hsets first List.mem_cons_self)
          rw [startAtOnce, hlate, ok_bind]
          split <;> trivial
    refine hstart.bind fun _ _ _ => ?_
    refine (Clock.ends_duration arithmetic runs).bind fun _ _ _ => ?_
    exact (Clock.ends_delay arithmetic runs).bind fun _ _ _ => trivial

theorem ends_axisRule (target name : String) (conversion : Conversion) (axis : Nat)
    (value : Value R) :
    FailsOnly admitted (axisRule target name conversion axis value) := by
  refine (ends_component axis value).bind fun component? _ _ => ?_
  cases component? with
  | none => trivial
  | some n => exact (ends_conversion arithmetic conversion n).bind fun _ _ _ => trivial

theorem ends_colorRule (target name : String) (value : Value R) :
    FailsOnly admitted (colorRule target name value) :=
  (ends_colorText arithmetic value).bind fun _ _ _ => trivial

end Arithmetic

/-! ## Attributes -/

/-- Attributes can be written under a target, and what is kept about them stays so. -/
structure Writable (admitted : Fault → Prop) (target : String) (kept : Members R → Prop) :
    Prop where
  unreserved : target ∉ Keyframe.ownKeys
  reach : ∀ attributes, kept attributes → kept (withTarget target attributes)
  write : ∀ name value attributes, kept attributes →
    Ends admitted kept (writeUnder target name value attributes)

/-- Under each of some targets the attributes stand together in an object. -/
def HoldsTargets (targets : List String) (attributes : Members R) : Prop :=
  ∀ target ∈ targets, ∃ members, attributes.get target = .object members

theorem writable_own : Writable admitted "" fun _ : Members R => True where
  unreserved := by decide
  reach _ _ := trivial
  write _ _ _ _ := trivial

/-- A target that is there is found, and writing under it leaves the others there. -/
theorem writable_under {targets : List String} {target : String} (htarget : target ∈ targets)
    (hne : target ≠ "") (unreserved : target ∉ Keyframe.ownKeys) :
    Writable admitted target (HoldsTargets (R := R) targets) where
  unreserved := unreserved
  reach attributes holds := by
    obtain ⟨members, hmembers⟩ := holds target htarget
    have hthere : attributes.has target = true := by
      rw [Members.has]
      cases h : attributes.get? target with
      | some value => rfl
      | none =>
          rw [Members.get, h] at hmembers
          cases hmembers
    rwa [withTarget, hthere, Bool.or_true, if_pos rfl]
  write name value attributes holds := by
    obtain ⟨members, hmembers⟩ := holds target htarget
    rw [writeUnder, if_neg hne, hmembers]
    intro other hother
    by_cases heq : target = other
    · subst heq
      exact ⟨_, Members.get_set_self _ _ _⟩
    · obtain ⟨own, hown⟩ := holds other hother
      exact ⟨own, (Members.get_set_of_ne _ _ heq).trans hown⟩

section Resolve

variable [Scalar R] (arithmetic : AdmitsArithmetic R admitted) {target : String}
  {kept : Members R → Prop} (writable : Writable admitted target kept) {clock : Clock R}

include arithmetic writable

theorem ends_writeAxes (content : Value R) (conversion : Conversion) (axis : Nat)
    (axes : List String) {attributes : Members R} (hkept : kept attributes) :
    Ends admitted kept (writeAxes content target conversion axis axes attributes) := by
  induction axes generalizing axis attributes with
  | nil => exact hkept
  | cons name rest ih =>
      rw [writeAxes]
      refine (ends_component axis content).bind fun component? _ _ => ?_
      cases component? with
      | none => exact ih _ hkept
      | some n =>
          refine (ends_conversion arithmetic conversion n).bind fun value _ _ => ?_
          exact (writable.write name _ _ hkept).bind fun written _ hwritten => ih _ hwritten

omit kept writable in
theorem ends_axisTimelines (unreserved : target ∉ Keyframe.ownKeys) (runs : clock.Runs)
    (keyframes : List (Value R)) (conversion : Conversion) (axis : Nat) {axes : List String}
    (haxes : ∀ name ∈ axes, name ∉ Keyframe.ownKeys) :
    FailsOnly admitted (axisTimelines keyframes target conversion clock axis axes) := by
  induction axes generalizing axis with
  | nil => trivial
  | cons name rest ih =>
      rw [axisTimelines]
      obtain ⟨hname, hrest⟩ := List.forall_mem_cons.mp haxes
      refine Ends.bind (ends_buildTimeline arithmetic (axisRule_sets unreserved hname conversion axis)
        (ends_axisRule arithmetic target name conversion axis) runs keyframes axis)
        fun _ _ _ => ?_
      exact (ih _ hrest).bind fun _ _ _ => trivial

/-- Writing a property keeps what writing its attributes keeps. -/
theorem ends_resolve (runs : clock.Runs) (property : Value R) (conversion : Conversion)
    {axes : List String} (haxes : ∀ name ∈ axes, name ∉ Keyframe.ownKeys) {body : Body R}
    (hkept : kept body.attributes) :
    Ends admitted (fun result => kept result.attributes)
      (resolve property target axes conversion clock body) := by
  unfold resolve
  split
  · exact (ends_writeAxes arithmetic writable _ _ 0 axes (writable.reach _ hkept)).bind
      fun _ _ h => h
  · split
    · exact (ends_axisTimelines arithmetic writable.unreserved runs _ _ 0 haxes).bind
        fun _ _ _ => hkept
    · exact hkept

theorem ends_resolveColor (runs : clock.Runs) (property : Value R) {name : String}
    (hname : name ∉ Keyframe.ownKeys) {body : Body R} (hkept : kept body.attributes) :
    Ends admitted (fun result => kept result.attributes)
      (resolveColor property target name clock body) := by
  unfold resolveColor
  split
  · refine (ends_colorText arithmetic _).bind fun color _ _ => ?_
    exact (writable.write name _ _ (writable.reach _ hkept)).bind fun _ _ h => h
  · split
    · refine Ends.bind (ends_buildTimeline arithmetic (colorRule_sets writable.unreserved hname)
        (ends_colorRule arithmetic target name) runs _ 0) fun _ _ _ => hkept
    · exact hkept

end Resolve

/-! ## Transforms and pivots -/

section Transform

variable [Scalar R] {clock : Clock R}

theorem ends_composeTransform (arithmetic : AdmitsArithmetic R admitted) (runs : clock.Runs)
    (transform : Value R) : FailsOnly admitted (composeTransform transform clock) := by
  have hresolve : ∀ (property : Value R) (conversion : Conversion) {axes : List String}
      (body : Body R), (∀ name ∈ axes, name ∉ Keyframe.ownKeys) →
        FailsOnly admitted (resolve property "" axes conversion clock body) :=
    fun property conversion _ _ haxes =>
      ends_resolve arithmetic writable_own runs property conversion haxes trivial
  unfold composeTransform
  split
  · rename_i members
    have hposition : FailsOnly admitted
        (resolvePosition (Members.get members "p") clock Body.empty) := by
      unfold resolvePosition
      split
      · exact (hresolve _ _ _ (by decide)).bind fun _ _ _ => hresolve _ _ _ (by decide)
      · exact hresolve _ _ _ (by decide)
    refine hposition.bind fun _ _ _ => ?_
    refine (hresolve _ _ _ (by decide)).bind fun _ _ _ => ?_
    exact (hresolve _ _ _ (by decide)).bind fun _ _ _ => hresolve _ _ _ (by decide)
  · trivial

theorem ends_withTransform (arithmetic : AdmitsArithmetic R admitted) (runs : clock.Runs)
    (children : List (Element R)) (name? : Option String) (transform : Value R) :
    Ends admitted (fun placed => placed.body.Placing)
      ((Element.group children name?).withTransform transform clock) := by
  have hends : FailsOnly admitted
      ((Element.group children name?).withTransform transform clock) :=
    (ends_composeTransform arithmetic runs transform).bind fun _ _ _ => trivial
  exact hends.imp fun _ h _ => (placing_withTransform h).1

/-- Members that are all numbers. -/
def Numbers (members : Members R) : Prop :=
  ∀ entry ∈ members, ∃ n, entry.2 = .num n

theorem ends_opposite (n : Number R) :
    Ends admitted (fun moved => ∃ m, moved = .num m) (opposite (.num n)) := by
  unfold opposite
  split <;> exact ⟨_, rfl⟩

omit [Scalar R] in
theorem Numbers.move {members : Members R} (numbers : Numbers members) (anchor position : String)
    (n : Number R) : Numbers ((members.erase anchor).set position (.num n)) := by
  intro entry h
  rcases Members.mem_set h with rfl | h
  · exact ⟨n, rfl⟩
  · exact numbers entry (List.mem_of_mem_filter h)

theorem ends_retargetAttributes {attributes : Members R} (numbers : Numbers attributes) :
    Ends admitted Numbers (retargetAttributes attributes) := by
  refine Ends.foldlM numbers fun before key _ hbefore => ?_
  have hvalue : ∃ n, (before.get? key.1).getD (.num (.whole 0)) = .num n := by
    cases h : before.get? key.1 with
    | none => exact ⟨_, rfl⟩
    | some value => exact hbefore _ (Members.mem_of_get? h)
  obtain ⟨n, hn⟩ := hvalue
  rw [hn]
  refine (ends_opposite n).bind ?_
  rintro _ - ⟨m, rfl⟩
  exact hbefore.move _ _ m

theorem ends_retargetPatch {patch : Members R} (numbers : Numbers patch) :
    Ends admitted Numbers (retargetPatch patch) := by
  refine Ends.foldlM numbers fun before key _ hbefore => ?_
  split
  · exact hbefore
  · rename_i value h
    obtain ⟨n, hn⟩ := hbefore _ (Members.mem_of_get? h)
    obtain rfl : value = .num n := hn
    refine (ends_opposite n).bind ?_
    rintro _ - ⟨m, rfl⟩
    exact hbefore.move _ _ m

theorem ends_retarget {timeline : Timeline R} {key : String}
    (tracks : Tracks key timeline.keyframes) : FailsOnly admitted timeline.retarget := by
  refine (FailsOnly.mapM fun keyframe h => ?_).bind fun _ _ _ => trivial
  obtain ⟨n, hpatch⟩ := tracks.sets keyframe h
  have numbers : Numbers keyframe.patch := by
    rw [hpatch]
    exact List.forall_mem_singleton.mpr ⟨n, rfl⟩
  exact (ends_retargetPatch numbers).bind fun _ _ _ => trivial

/-- The anchor of a body that a transform wrote can be taken away. -/
theorem ends_pivot {element : Element R} (placing : element.body.Placing) :
    FailsOnly admitted element.pivot := by
  unfold Element.pivot
  split
  · have hsplit : FailsOnly admitted element.body.splitAtAnchor := by
      refine (ends_retargetAttributes fun entry h => ?_).bind fun _ _ _ => ?_
      · exact placing.numbers entry (List.mem_of_mem_filter h)
      · refine (FailsOnly.mapM fun timeline h => ?_).bind fun _ _ _ => trivial
        split
        · obtain ⟨key, -, tracks⟩ := placing.tracks timeline (List.mem_of_mem_filter h)
          exact ends_retarget tracks
        · trivial
    exact hsplit.bind fun _ _ _ => trivial
  · trivial

end Transform

end MotionScene
