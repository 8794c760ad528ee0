import MotionScene.Proofs.Fault.Compile
import MotionScene.Proofs.Timeline.Dropped

/-!
# A property writes its own axes

Whatever stands in the place of a property, writing it for some axes under a target never fails
in exact arithmetic, and leaves everything else as it is (`resolve_writes_own_axes`).  A property
that makes no sense does nothing.  A constant changes the attributes at the axes under the
target only, each of which gets the converted component, if there is one.  Keyframes keep the
attributes and all earlier timelines, and add at most one timeline for each axis, in the order
of the axes, of which every keyframe sets the attribute of that axis and no other.

A keyframe shows its patch beside its own percent and easing, so an attribute with one of these
two names would take their place.  What keyframes write is therefore not to be found under
either name (`patchKey`).
-/

namespace MotionScene

/-! ## Converted components -/

/-- The number that a value has for an axis: a number is the same for every axis. -/
def Value.axisNumber? {R : Type} (axis : Nat) : Value R → Option (Number R)
  | num n => some n
  | list items => items[axis]?.bind number?
  | _ => none

theorem component_eq_axisNumber? {R : Type} (axis : Nat) (value : Value R) :
    value.component axis = .ok (value.axisNumber? axis) := by
  cases value with
  | list items => exact Value.component_list axis items
  | _ => rfl

namespace Conversion

/-- What a conversion makes of a number in exact arithmetic. -/
noncomputable def converted : Conversion → Number ℝ → Number ℝ
  | none, n => n
  | percent, n => .real (n.value / (100 : ℤ))
  | rotation, n => .real (-n.value / (180 : ℤ) * Real.pi)
  | half, n => .real (n.value / (2 : ℤ))
  | turns, n => .real (n.value / (360 : ℤ))

theorem apply_eq (conversion : Conversion) (n : Number ℝ) :
    conversion.apply n = .ok (conversion.converted n) := by
  have hdivide : ∀ (m : Number ℝ) {k : ℤ}, k ≠ 0 →
      m.divide (.whole k) = .ok (m.value / k) := by
    intro m k hk
    rw [Number.divide_of_ne (by rw [Number.value_whole]; exact_mod_cast hk), Number.value_whole]
  cases conversion with
  | none => rfl
  | rotation =>
      rw [apply, toRotation]
      split
      · rename_i hzero
        rw [converted, (Number.isZero_iff _).mp hzero, neg_zero, zero_div, zero_mul, scalar_zero]
        rfl
      · rw [hdivide _ (by decide), Number.value_negate]
        rfl
  | percent =>
      rw [apply, hdivide _ (by decide)]
      rfl
  | half =>
      rw [apply, hdivide _ (by decide)]
      rfl
  | turns =>
      rw [apply, hdivide _ (by decide)]
      rfl

end Conversion

/-! ## One axis after the other -/

section Steps

variable {R : Type} [Scalar R]

theorem writeAxes_cons (content : Value R) (target : String) (conversion : Conversion)
    (axis : Nat) (name : String) (rest : List String) (attributes : Members R) :
    writeAxes content target conversion axis (name :: rest) attributes =
      writeAxes content target conversion axis [name] attributes >>=
        writeAxes content target conversion (axis + 1) rest := by
  rw [writeAxes, writeAxes]
  rw [bind_assoc]
  refine bind_congr fun component? => ?_
  cases component? with
  | none => rfl
  | some n => simp [writeAxes, bind_assoc]

theorem axisTimelines_cons (keyframes : List (Value R)) (target : String)
    (conversion : Conversion) (clock : Clock R) (axis : Nat) (name : String)
    (rest : List String) :
    axisTimelines keyframes target conversion clock axis (name :: rest) = do
      let timelines ← axisTimelines keyframes target conversion clock axis [name]
      return timelines ++ (← axisTimelines keyframes target conversion clock (axis + 1) rest) := by
  rw [axisTimelines, axisTimelines]
  simp [axisTimelines]

end Steps

/-! ## Constants -/

/-- The members that stand under a target: the attributes themselves if it is empty. -/
def Members.under {R : Type} (target : String) (attributes : Members R) : Members R :=
  if target = "" then attributes else (attributes.get target).members

/-- An object stands under a target, unless the target is empty. -/
def HoldsTarget (target : String) (attributes : Members ℝ) : Prop :=
  target ≠ "" → ∃ members, attributes.get? target = some (.object members)

/-- Attributes that have changed at most under a target, which is an object. -/
structure ChangesUnder (target : String) (attributes result : Members ℝ) : Prop where
  held : HoldsTarget target result
  others : target ≠ "" → ∀ key, key ≠ target → result.get? key = attributes.get? key

variable {target : String} {attributes : Members ℝ}

theorem ChangesUnder.trans {middle result : Members ℝ}
    (first : ChangesUnder target attributes middle) (second : ChangesUnder target middle result) :
    ChangesUnder target attributes result where
  held := second.held
  others htarget key hkey := (second.others htarget key hkey).trans (first.others htarget key hkey)

/-- Making sure that the target is there does not change what stands under it. -/
theorem changesUnder_withTarget (object : ∀ value, target ≠ "" →
      attributes.get? target = some value → ∃ members, value = .object members) :
    ChangesUnder target attributes (withTarget target attributes) ∧
      (withTarget target attributes).under target = attributes.under target := by
  unfold withTarget
  by_cases hempty : target = ""
  · rw [if_pos (by rw [decide_eq_true hempty, Bool.true_or])]
    exact ⟨⟨fun htarget => absurd hempty htarget, fun _ _ _ => rfl⟩, rfl⟩
  · cases hget : attributes.get? target with
    | some value =>
        obtain ⟨members, rfl⟩ := object value hempty hget
        rw [if_pos (by rw [Members.has, hget, Option.isSome_some, Bool.or_true])]
        exact ⟨⟨fun _ => ⟨members, hget⟩, fun _ _ _ => rfl⟩, rfl⟩
    | none =>
        have habsent : (decide (target = "") || attributes.has target) = false := by
          rw [Members.has, hget, decide_eq_false hempty]
          rfl
        rw [habsent, if_neg Bool.false_ne_true]
        refine ⟨⟨fun _ => ⟨[], Members.get?_set_self _ _ _⟩, fun _ key hkey => ?_⟩, ?_⟩
        · exact Members.get?_set_of_ne _ _ hkey.symm
        · rw [Members.under, Members.under, if_neg hempty, if_neg hempty, Members.get_set_self,
            Members.get, hget]
          rfl

theorem exists_writeUnder (held : HoldsTarget target attributes) (name : String)
    (value : Value ℝ) :
    ∃ result, writeUnder target name value attributes = .ok result ∧
      ChangesUnder target attributes result ∧
      result.under target = (attributes.under target).set name value := by
  unfold writeUnder
  by_cases hempty : target = ""
  · rw [if_pos hempty]
    refine ⟨_, rfl, ⟨fun htarget => absurd hempty htarget, fun htarget => absurd hempty htarget⟩, ?_⟩
    rw [Members.under, Members.under, if_pos hempty, if_pos hempty]
  · obtain ⟨members, hmembers⟩ := held hempty
    have hget : attributes.get target = .object members := by
      rw [Members.get, hmembers, Option.getD_some]
    rw [if_neg hempty, hget]
    refine ⟨_, rfl, ⟨fun _ => ⟨_, Members.get?_set_self _ _ _⟩, fun _ key hkey => ?_⟩, ?_⟩
    · exact Members.get?_set_of_ne _ _ hkey.symm
    · rw [Members.under, Members.under, if_neg hempty, if_neg hempty, Members.get_set_self, hget]
      rfl

/-- What is written for an axis, if it has a component. -/
noncomputable def axisValue? (content : Value ℝ) (conversion : Conversion) (axis : Nat) :
    Option (Value ℝ) :=
  (content.axisNumber? axis).map fun n => .num (conversion.converted n)

/-- For one axis at most one attribute is written under the target. -/
theorem exists_writeAxis (content : Value ℝ) (conversion : Conversion)
    (held : HoldsTarget target attributes) (axis : Nat) (name : String) :
    ∃ result, writeAxes content target conversion axis [name] attributes = .ok result ∧
      ChangesUnder target attributes result ∧
      ∀ other, (result.under target).get? other =
        if name = other then
          (axisValue? content conversion axis).or ((attributes.under target).get? other)
        else (attributes.under target).get? other := by
  rw [writeAxes, component_eq_axisNumber?, ok_bind]
  unfold axisValue?
  cases content.axisNumber? axis with
  | none =>
      refine ⟨attributes, rfl, ⟨held, fun _ _ _ => rfl⟩, fun other => ?_⟩
      rw [Option.map_none, Option.none_or, ite_self]
  | some n =>
      obtain ⟨result, hresult, hchanges, hunder⟩ :=
        exists_writeUnder held name (.num (conversion.converted n))
      refine ⟨result, ?_, hchanges, fun other => ?_⟩
      · dsimp only
        rw [Conversion.apply_eq, ok_bind, hresult]
        rfl
      · rw [hunder, Members.get?_set, Option.map_some, Option.some_or]

/-- What the components of a constant leave of attributes: under the target each axis that has a
component has its converted number, and everything else is as it was. -/
structure WritesAxes (content : Value ℝ) (target : String) (conversion : Conversion) (axis : Nat)
    (axes : List String) (attributes result : Members ℝ) : Prop
    extends ChangesUnder target attributes result where
  untouched : ∀ name, name ∉ axes →
    (result.under target).get? name = (attributes.under target).get? name
  written : ∀ index name, axes[index]? = some name → (result.under target).get? name =
    (axisValue? content conversion (axis + index)).or ((attributes.under target).get? name)

/-- The components of a constant are written one after the other: the induction is on the axes,
and as they are distinct, a later one does not write over an earlier one. -/
theorem exists_writeAxes (content : Value ℝ) (conversion : Conversion) {axes : List String}
    (distinct : axes.Nodup) (axis : Nat) (held : HoldsTarget target attributes) :
    ∃ result, writeAxes content target conversion axis axes attributes = .ok result ∧
      WritesAxes content target conversion axis axes attributes result := by
  induction axes generalizing axis attributes with
  | nil =>
      refine ⟨attributes, rfl, ⟨held, fun _ _ _ => rfl⟩, fun _ _ => rfl, fun index name h => ?_⟩
      cases h
  | cons name rest ih =>
      obtain ⟨hfirst, hdistinct⟩ := List.nodup_cons.mp distinct
      obtain ⟨middle, hmiddle, hchanges, hget⟩ :=
        exists_writeAxis content conversion held axis name
      obtain ⟨result, hresult, hwrites⟩ := ih hdistinct (axis + 1) hchanges.held
      refine ⟨result, ?_, hchanges.trans hwrites.toChangesUnder, fun other hother => ?_,
        fun index other h => ?_⟩
      · rw [writeAxes_cons, hmiddle, ok_bind, hresult]
      · rw [List.mem_cons, not_or] at hother
        obtain ⟨hne, hrest⟩ := hother
        rw [hwrites.untouched other hrest, hget, if_neg (Ne.symm hne)]
      · cases index with
        | zero =>
            obtain rfl : name = other := Option.some_inj.mp h
            rw [hwrites.untouched name hfirst, hget, if_pos rfl, Nat.add_zero]
        | succ index =>
            have hrest : rest[index]? = some other := h
            have hne : name ≠ other := fun heq =>
              hfirst (heq ▸ List.mem_of_getElem? hrest)
            rw [hwrites.written index other hrest, hget, if_neg hne, Nat.add_right_comm,
              Nat.add_assoc]

/-- The same where the target may have to be made first. -/
theorem exists_writeConstants (content : Value ℝ) (conversion : Conversion) {axes : List String}
    (distinct : axes.Nodup) (object : ∀ value, target ≠ "" →
      attributes.get? target = some value → ∃ members, value = .object members) :
    ∃ result, writeAxes content target conversion 0 axes (withTarget target attributes) =
        .ok result ∧
      WritesAxes content target conversion 0 axes attributes result := by
  obtain ⟨hreach, hunder⟩ := changesUnder_withTarget object
  obtain ⟨result, hresult, hwrites⟩ := exists_writeAxes content conversion distinct 0 hreach.held
  refine ⟨result, hresult, hreach.trans hwrites.toChangesUnder, fun name hname => ?_,
    fun index name hname => ?_⟩
  · rw [hwrites.untouched name hname, hunder]
  · rw [hwrites.written index name hname, hunder]

/-! ## Keyframes -/

/-- The key under which a patch is found that sets an attribute under a target. -/
def patchKey (target name : String) : String :=
  if target = "" then name else target

/-- A timeline that has keyframes, of which every one sets an attribute under a target to a
number and nothing else. -/
structure SetsUnder (target name : String) (timeline : Timeline ℝ) : Prop where
  nonempty : timeline.keyframes ≠ []
  patch : ∀ keyframe ∈ timeline.keyframes, ∃ n, keyframe.patch = underTarget target name (.num n)
  shown : ∀ keyframe ∈ timeline.keyframes, keyframe.attributes = keyframe.patch

theorem setsAttributes_of_patchKey {target name : String}
    (unreserved : patchKey target name ∉ Keyframe.ownKeys) (value : Value ℝ) :
    SetsAttributes (underTarget target name value) := by
  unfold patchKey at unreserved
  unfold underTarget
  split at unreserved
  · rename_i hempty
    rw [if_pos hempty]
    exact setsAttributes_singleton unreserved value
  · rename_i hempty
    rw [if_neg hempty]
    exact setsAttributes_singleton unreserved _

theorem axisRule_patches {name : String} {conversion : Conversion} {axis : Int}
    {value : Value ℝ} {patch : Members ℝ}
    (returned : axisRule target name conversion axis value = .ok (some patch)) :
    ∃ n, patch = underTarget target name (.num n) := by
  obtain ⟨component?, -, hrest⟩ := bind_eq_ok.mp returned
  cases component? with
  | none => cases hrest
  | some n =>
      obtain ⟨converted, -, hrest⟩ := bind_eq_ok.mp hrest
      cases hrest
      exact ⟨converted, rfl⟩

/-- Without faults that are admitted a computation returns. -/
theorem exists_ok_of_failsOnly {α : Type} {x : Except Fault α}
    (ends : FailsOnly (fun _ => False) x) : ∃ a, x = .ok a := by
  cases x with
  | ok a => exact ⟨a, rfl⟩
  | error fault => exact ends.elim

section Rate

variable {clock : Clock ℝ} (rate : 0 < clock.frameRate.value)

include rate

/-- For one axis at most one timeline is built. -/
theorem exists_axisTimeline? (keyframes : List (Value ℝ)) (conversion : Conversion)
    {name : String} (axis : Nat) (unreserved : patchKey target name ∉ Keyframe.ownKeys) :
    ∃ timeline?, buildTimeline keyframes (axisRule target name conversion axis) clock axis =
        .ok timeline? ∧
      ∀ timeline ∈ timeline?, SetsUnder target name timeline := by
  have arithmetic : AdmitsArithmetic ℝ fun _ => False :=
    fun _ _ limited => limited unlimited_real
  have runs : clock.Runs := fun _ => by
    rw [← Bool.not_eq_true, Number.isZero_iff]
    exact rate.ne'
  have hsets : (axisRule target name conversion axis : PatchRule ℝ).Sets := by
    intro value patch returned
    obtain ⟨n, rfl⟩ := axisRule_patches returned
    exact setsAttributes_of_patchKey unreserved _
  obtain ⟨timeline?, htimeline⟩ := exists_ok_of_failsOnly
    (ends_buildTimeline arithmetic hsets (ends_axisRule arithmetic target name conversion axis)
      runs keyframes axis)
  refine ⟨timeline?, htimeline, fun timeline hsome => ?_⟩
  obtain rfl := Option.mem_def.mp hsome
  obtain ⟨nonempty, hpatches⟩ :=
    good_buildTimeline hsets (fun _ _ => axisRule_patches) htimeline
  refine ⟨nonempty, hpatches, fun keyframe hkeyframe => ?_⟩
  obtain ⟨n, hn⟩ := hpatches keyframe hkeyframe
  have hattributes : SetsAttributes keyframe.patch :=
    hn ▸ setsAttributes_of_patchKey unreserved _
  exact attributes_eq hattributes keyframe.percent keyframe.easing

/-- The timelines of the axes come in their order: the induction is on the axes. -/
theorem exists_axisTimelines (keyframes : List (Value ℝ)) (conversion : Conversion)
    {axes : List String} (axis : Nat)
    (unreserved : ∀ name ∈ axes, patchKey target name ∉ Keyframe.ownKeys) :
    ∃ timelines, axisTimelines keyframes target conversion clock axis axes = .ok timelines ∧
      ∃ names, names.Sublist axes ∧ List.Forall₂ (SetsUnder target) names timelines := by
  induction axes generalizing axis with
  | nil => exact ⟨[], rfl, [], .slnil, .nil⟩
  | cons name rest ih =>
      obtain ⟨hname, hrest⟩ := List.forall_mem_cons.mp unreserved
      obtain ⟨timeline?, htimeline, hsets⟩ :=
        exists_axisTimeline? rate keyframes conversion axis hname
      obtain ⟨later, hlater, names, hnames, hforall⟩ := ih (axis + 1) hrest
      refine ⟨timeline?.toList ++ later, ?_, ?_⟩
      · rw [axisTimelines, htimeline, ok_bind, hlater]
        rfl
      · cases timeline? with
        | none => exact ⟨names, hnames.cons name, hforall⟩
        | some timeline =>
            exact ⟨name :: names, hnames.cons_cons name, .cons (hsets timeline rfl) hforall⟩

/-- **A property writes its own axes only.**  Written for distinct axes under a target, below
which there is an object or nothing, any property returns.  If it makes no sense the body stays
as it is.  If it is constant the timelines stay, and the attributes get the converted components
at the axes under the target.  If it has keyframes the attributes and the timelines stay, and at
most one timeline is added for each axis, in their order, whose keyframes set the attribute of
the axis and nothing else; then the target, or without one the axes, must not be the names under
which keyframes show their percent and easing. -/
theorem resolve_writes_own_axes (property : Value ℝ) {axes : List String}
    (distinct : axes.Nodup) (conversion : Conversion) {body : Body ℝ}
    (object : ∀ value, target ≠ "" → body.attributes.get? target = some value →
      ∃ members, value = .object members)
    (unreserved : property.propertyKind.isAnimated = true →
      ∀ name ∈ axes, patchKey target name ∉ Keyframe.ownKeys) :
    ∃ result, resolve property target axes conversion clock body = .ok result ∧
      (property.propertyKind = .none → result = body) ∧
      (property.propertyKind.isStatic = true → result.timelines = body.timelines ∧
        WritesAxes property.content target conversion 0 axes body.attributes result.attributes) ∧
      (property.propertyKind.isAnimated = true → result.attributes = body.attributes ∧
        ∃ timelines, result.timelines = body.timelines ++ timelines ∧
          ∃ names, names.Sublist axes ∧ List.Forall₂ (SetsUnder target) names timelines) := by
  unfold resolve
  cases hkind : property.propertyKind with
  | none => exact ⟨body, rfl, fun _ => rfl, nofun, nofun⟩
  | scalar | vector =>
      obtain ⟨attributes, hattributes, hwrites⟩ :=
        exists_writeConstants property.content conversion distinct object
      refine ⟨{ body with attributes }, ?_, nofun, fun _ => ⟨rfl, hwrites⟩, nofun⟩
      exact congrArg (· >>= fun attributes => .ok { body with attributes }) hattributes
  | scalarKeyframes | vectorKeyframes =>
      rw [hkind] at unreserved
      obtain ⟨timelines, htimelines, hadded⟩ :=
        exists_axisTimelines rate property.content.items conversion 0 (unreserved rfl)
      refine ⟨{ body with timelines := body.timelines ++ timelines }, ?_, nofun, nofun,
        fun _ => ⟨rfl, timelines, rfl, hadded⟩⟩
      exact congrArg (· >>= fun timelines => .ok { body with
        timelines := body.timelines ++ timelines }) htimelines

end Rate

/-! ## Properties of three axes and of two -/

/-- A keyframe in the middle of a clock of fifty frames. -/
def middleSource : SourceKeyframe ℝ :=
  ⟨[("t", .num (.whole 25)), ("s", .list [.num (.whole 1)])], .whole 25⟩

/-- A property with this keyframe only. -/
def middleProperty : Value ℝ :=
  .object [("k", .list [.object middleSource.members])]

/-- A constant of which the second axis is no number. -/
def mixedConstant : Value ℝ :=
  .object [("k", .list [.num (.whole 1), .text "a", .num (.whole 3)])]

/-- A body that has two of three axes already. -/
def halfWritten : Body ℝ :=
  ⟨[("name", .text "a"), ("shape", .object [("x", .num (.whole 8)), ("y", .num (.whole 9))])], []⟩

theorem frameRate_steady_pos : 0 < Clock.steady.frameRate.value := by
  rw [Clock.steady, Number.value_whole]
  norm_num

theorem resolve_mixedConstant :
    0 < Clock.steady.frameRate.value ∧ ["x", "y", "z"].Nodup ∧
      (∃ result, resolve mixedConstant "shape" ["x", "y", "z"] .half Clock.steady halfWritten =
          .ok result ∧ result.timelines = [] ∧
        result.attributes.get? "name" = some (.text "a") ∧
        (result.attributes.under "shape").get? "x" = some (.num (.real (1 / 2))) ∧
        (result.attributes.under "shape").get? "y" = some (.num (.whole 9)) ∧
        (result.attributes.under "shape").get? "z" = some (.num (.real (3 / 2)))) ∧
      ∃ result, resolve middleProperty "shape" ["x", "y"] .none Clock.steady halfWritten =
          .ok result ∧ result.attributes = halfWritten.attributes ∧
        ∃ names, names.Sublist ["x", "y"] ∧
          List.Forall₂ (SetsUnder "shape") names result.timelines := by
  have hdistinct : ["x", "y", "z"].Nodup := by decide
  have hobject : ∀ value, "shape" ≠ "" → halfWritten.attributes.get? "shape" = some value →
      ∃ members, value = .object members :=
    fun value _ hvalue => ⟨_, (Option.some_inj.mp hvalue).symm⟩
  have hhalf : ∀ n : ℤ, Conversion.half.converted (.whole n) = .real (n / 2) := fun _ => rfl
  have hfirst : axisValue? mixedConstant.content .half (0 + 0) = some (.num (.real (1 / 2))) := by
    rw [← Int.cast_one, ← hhalf]
    rfl
  have hthird : axisValue? mixedConstant.content .half (0 + 2) = some (.num (.real (3 / 2))) := by
    rw [← Int.cast_ofNat 3, ← hhalf]
    rfl
  refine ⟨frameRate_steady_pos, hdistinct, ?_, ?_⟩
  · obtain ⟨result, hresult, -, hstatic, -⟩ :=
      resolve_writes_own_axes frameRate_steady_pos mixedConstant hdistinct .half hobject
        fun h => by cases h
    obtain ⟨htimelines, hwrites⟩ := hstatic rfl
    refine ⟨result, hresult, htimelines, hwrites.others (by decide) "name" (by decide), ?_, ?_, ?_⟩
    · rw [hwrites.written 0 "x" rfl, hfirst, Option.some_or]
    · rw [hwrites.written 1 "y" rfl]
      rfl
    · rw [hwrites.written 2 "z" rfl, hthird, Option.some_or]
  · obtain ⟨result, hresult, -, -, hanimated⟩ :=
      resolve_writes_own_axes frameRate_steady_pos middleProperty
        (by decide : ["x", "y"].Nodup) .none hobject fun _ => by decide
    obtain ⟨hattributes, timelines, htimelines, hadded⟩ := hanimated rfl
    rw [show halfWritten.timelines = [] from rfl, List.nil_append] at htimelines
    exact ⟨result, hresult, hattributes, htimelines ▸ hadded⟩

/-! ## Names that keyframes have for themselves -/

/-- The keyframe that is shown in the middle, with the value under some target. -/
noncomputable def middleKeyframe (target name : String) : Keyframe ℝ :=
  ⟨.real (25 / 50), none, underTarget target name (.num (.whole 1))⟩

theorem emitKeyframes_middleSource (target name : String) :
    emitKeyframes Clock.steady (axisRule target name .none 0) 0 .start [middleSource] =
      .ok [middleKeyframe target name] := by
  have hpatch : axisRule target name .none 0 (middleSource.members.get "s") =
      .ok (some (underTarget target name (.num (.whole 1)))) := rfl
  have hpercent : Clock.steady.percent middleSource.frame = .ok (25 / 50) := by
    rw [middleSource, Clock.percent_steady 25 (by norm_num), Int.cast_ofNat]
  have hstart : (Progress.start : Progress ℝ).percent = 0 := Nat.cast_zero
  rw [emitKeyframes_patched rfl hpatch, hpercent, ok_bind, hstart, greatest_eq_max,
    max_eq_right (by norm_num)]
  rfl

theorem exists_resolve_middleProperty (target name : String) : ∃ duration delay : Number ℝ,
    resolve middleProperty target [name] .none Clock.steady Body.empty = (do
      let keyframes ← startAtOnce [middleKeyframe target name]
      return ⟨[], [⟨duration, delay, keyframes, Clock.steady.options.loop⟩]⟩) := by
  have hrate : Clock.steady.frameRate.value ≠ 0 := frameRate_steady_pos.ne'
  have hsources : middleProperty.content.items.filterMap SourceKeyframe.ofValue? =
      [middleSource] := rfl
  refine ⟨.real (Clock.steady.span.value * (1000 / Clock.steady.frameRate.value)),
    .real (-Clock.steady.inFrame.value * (1000 / Clock.steady.frameRate.value)), ?_⟩
  show axisTimelines middleProperty.content.items target .none Clock.steady 0 [name] >>= _ = _
  rw [axisTimelines, buildTimeline, hsources, Nat.cast_zero, emitKeyframes_middleSource, ok_bind,
    List.isEmpty_cons, if_neg Bool.false_ne_true, Clock.duration_eq _ hrate,
    Clock.delay_eq _ hrate, bind_assoc, bind_assoc]
  rfl

/-- Where it is shown to start late, a keyframe in the middle gets one before it that sets
nothing under a name that keyframes have for themselves. -/
theorem exists_resolve_late {target name : String}
    (late : (middleKeyframe target name).startsLate = .ok true)
    (hidden : (middleKeyframe target name).attributes = []) :
    ∃ result, resolve middleProperty target [name] .none Clock.steady Body.empty = .ok result ∧
      ∃ timeline ∈ result.timelines, ∃ keyframe ∈ timeline.keyframes, keyframe.patch = [] := by
  obtain ⟨duration, delay, hresolve⟩ := exists_resolve_middleProperty target name
  rw [hresolve, startAtOnce, late, hidden]
  exact ⟨_, rfl, _, List.mem_cons_self, _, List.mem_cons_self, rfl⟩

/-- Under the name of its percent a keyframe shows no number, and the property fails; under that
of its easing, or for an axis with one of the two names, a keyframe is left with nothing to set. -/
theorem resolve_under_own_names :
    0 < Clock.steady.frameRate.value ∧ middleProperty.propertyKind = .vectorKeyframes ∧
      resolve middleProperty "percent" ["x"] .none Clock.steady Body.empty = .error .wrongKind ∧
      ∀ slot ∈ [("easing", "x"), ("", "percent"), ("", "easing")], ∃ result,
        resolve middleProperty slot.1 [slot.2] .none Clock.steady Body.empty = .ok result ∧
          ∃ timeline ∈ result.timelines, ∃ keyframe ∈ timeline.keyframes, keyframe.patch = [] := by
  have hmiddle : (Number.real (25 / 50) : Number ℝ).isPositive = true := by
    rw [Number.isPositive_iff, Number.value_real]
    norm_num
  have htarget : (middleKeyframe "easing" "x").startsLate = .ok true := congrArg Except.ok hmiddle
  have haxis : (middleKeyframe "" "easing").startsLate = .ok true := congrArg Except.ok hmiddle
  have hone : (middleKeyframe "" "percent").startsLate = .ok true := rfl
  refine ⟨frameRate_steady_pos, rfl, ?_, ?_⟩
  · obtain ⟨duration, delay, hresolve⟩ := exists_resolve_middleProperty "percent" "x"
    rw [hresolve]
    rfl
  · refine List.forall_mem_cons.mpr ⟨exists_resolve_late htarget rfl, ?_⟩
    refine List.forall_mem_cons.mpr ⟨exists_resolve_late hone rfl, ?_⟩
    exact List.forall_mem_singleton.mpr (exists_resolve_late haxis rfl)

end MotionScene
