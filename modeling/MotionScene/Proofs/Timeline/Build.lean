import MotionScene.Proofs.Timeline.Rules

/-!
# Timelines play their source keyframes

Building a timeline reads source keyframes one by one.  Where all of them have values that
leave patches, and stand in order on the clock, the timeline plays the script that the
source keyframes write (`buildTimeline_plays_back`).
-/

namespace MotionScene

/-! ## Steps of building -/

section Steps

variable {R : Type} [Scalar R] {keyframes : List (Value R)} {rule : PatchRule R}
  {clock : Clock R} {axis : Int}

theorem buildTimeline_eq_none : buildTimeline keyframes rule clock axis = .ok none ↔
    emitKeyframes clock rule axis .start (keyframes.filterMap SourceKeyframe.ofValue?) =
      .ok [] := by
  rw [buildTimeline, bind_eq_ok]
  constructor
  · rintro ⟨emitted, hemitted, hrest⟩
    cases emitted with
    | nil => exact hemitted
    | cons first rest =>
        obtain ⟨started, -, hrest⟩ := bind_eq_ok.mp hrest
        obtain ⟨duration, -, hrest⟩ := bind_eq_ok.mp hrest
        obtain ⟨delay, -, hrest⟩ := bind_eq_ok.mp hrest
        cases hrest
  · intro h
    exact ⟨[], h, rfl⟩

theorem buildTimeline_eq_some {timeline : Timeline R} :
    buildTimeline keyframes rule clock axis = .ok (some timeline) ↔
      ∃ first rest started duration delay,
        emitKeyframes clock rule axis .start (keyframes.filterMap SourceKeyframe.ofValue?) =
          .ok (first :: rest) ∧
        startAtOnce (first :: rest) = .ok started ∧ clock.duration = .ok duration ∧
        clock.delay = .ok delay ∧
        timeline = ⟨.real duration, .real delay, started, clock.options.loop⟩ := by
  rw [buildTimeline, bind_eq_ok]
  constructor
  · rintro ⟨emitted, hemitted, hrest⟩
    cases emitted with
    | nil => cases hrest
    | cons first rest =>
        obtain ⟨started, hstarted, hrest⟩ := bind_eq_ok.mp hrest
        obtain ⟨duration, hduration, hrest⟩ := bind_eq_ok.mp hrest
        obtain ⟨delay, hdelay, hrest⟩ := bind_eq_ok.mp hrest
        cases hrest
        exact ⟨first, rest, started, duration, delay, hemitted, hstarted, hduration, hdelay, rfl⟩
  · rintro ⟨first, rest, started, duration, delay, hemitted, hstarted, hduration, hdelay, rfl⟩
    refine ⟨first :: rest, hemitted, bind_eq_ok.mpr ⟨started, hstarted, bind_eq_ok.mpr ?_⟩⟩
    exact ⟨duration, hduration, bind_eq_ok.mpr ⟨delay, hdelay, rfl⟩⟩

end Steps

/-! ## Scripts of source keyframes -/

/-- A value, or another one in the place of null. -/
def Value.ifNull {R : Type} (value other : Value R) : Value R :=
  if value.isNull then other else value

/-- The value of a source keyframe: its start value, else the end value of the one before
it, else the value of the one before it. -/
def valueAt {R : Type} (members : Nat → Members R) : (index : Nat) → Value R
  | 0 => (members 0).get "s"
  | index + 1 =>
    ((members (index + 1)).get "s").ifNull
      (((members index).get "e").ifNull (valueAt members index))

/-- The script that source keyframes write, with the patches of their values. -/
noncomputable def scriptOf (clock : Clock ℝ) (sources : List (SourceKeyframe ℝ))
    (patch : Nat → Members ℝ) : Script where
  count := sources.length
  members index := (sources[index]?.map (·.members)).getD []
  position index := (sources[index]?.map fun source => clock.position source.frame).getD 0
  patch := patch

/-- Source keyframes in order on the clock, each with a value that leaves a patch. -/
structure Resolves (clock : Clock ℝ) (rule : PatchRule ℝ) (sources : List (SourceKeyframe ℝ))
    (patch : Nat → Members ℝ) : Prop where
  increasing : sources.Pairwise fun source later => source.frame.value < later.frame.value
  within : ∀ source ∈ sources, clock.position source.frame ∈ Set.Icc 0 1
  present : ∀ index < sources.length,
    (valueAt (scriptOf clock sources patch).members index).isNull = false
  patched : ∀ index < sources.length,
    rule (valueAt (scriptOf clock sources patch).members index) = .ok (some (patch index))

variable {clock : Clock ℝ} {rule : PatchRule ℝ} {axis : Int}

section Step

variable {sources : List (SourceKeyframe ℝ)} {patch : Nat → Members ℝ}

theorem members_scriptOf {index : Nat} {source : SourceKeyframe ℝ}
    (h : sources[index]? = some source) :
    (scriptOf clock sources patch).members index = source.members := by
  simp only [scriptOf, h, Option.map_some, Option.getD_some]

theorem position_scriptOf {index : Nat} {source : SourceKeyframe ℝ}
    (h : sources[index]? = some source) :
    (scriptOf clock sources patch).position index = clock.position source.frame := by
  simp only [scriptOf, h, Option.map_some, Option.getD_some]

theorem Resolves.position_lt (resolves : Resolves clock rule sources patch) {index : Nat}
    (h : index + 1 < sources.length) :
    (scriptOf clock sources patch).position index <
      (scriptOf clock sources patch).position (index + 1) := by
  rw [position_scriptOf (List.getElem?_eq_getElem (Nat.lt_of_succ_lt h)),
    position_scriptOf (List.getElem?_eq_getElem h)]
  refine clock.position_lt ?_
  exact List.pairwise_iff_getElem.mp resolves.increasing index (index + 1) _ h (Nat.lt_succ_self _)

theorem Resolves.ordered (resolves : Resolves clock rule sources patch)
    (sets : ∀ index < sources.length, SetsAttributes (patch index)) :
    (scriptOf clock sources patch).Ordered where
  increasing _ h := resolves.position_lt h
  sets := sets

/-- One step over a source keyframe whose value leaves a patch. -/
theorem emitKeyframes_cons {progress : Progress ℝ} {source : SourceKeyframe ℝ}
    {rest : List (SourceKeyframe ℝ)} {patch : Members ℝ}
    (present : (progress.startValue source.members).isNull = false)
    (patched : rule (progress.startValue source.members) = .ok (some patch))
    (within : clock.position source.frame ∈ Set.Icc 0 1)
    (hpercent : progress.percent ≤ clock.position source.frame) :
    emitKeyframes clock rule axis progress (source :: rest) = (do
      let arrival ← progress.arrival source.members axis
      let later ← emitKeyframes clock rule axis ⟨some source.members,
        progress.startValue source.members, some patch, clock.position source.frame⟩ rest
      return progress.repeated (clock.position source.frame) ++
        ⟨.real (clock.position source.frame), arrival, patch⟩ :: later) := by
  have hpatch : rule.patch? (progress.startValue source.members) = .ok (some patch) := by
    rw [PatchRule.patch?, present, patched]
    rfl
  rw [emitKeyframes, hpatch, clock.percent_of_mem within]
  simp only [ok_bind, greatest_eq_max, max_eq_right hpercent]

theorem startValue_eq (progress : Progress ℝ) (keyframe : Members ℝ) :
    progress.startValue keyframe = (keyframe.get "s").ifNull
      ((progress.previous?.elim .null (·.get "e")).ifNull progress.value) := by
  unfold Progress.startValue
  cases progress.previous? with
  | none => cases keyframe.get "s" <;> rfl
  | some previous =>
      cases keyframe.get "s" <;> cases hending : previous.get "e" <;>
        simp [hending, Value.ifNull, Value.isNull]

/-- What the source keyframes up to one leave for the next. -/
noncomputable def progressAt (clock : Clock ℝ) (sources : List (SourceKeyframe ℝ))
    (patch : Nat → Members ℝ) (index : Nat) : Progress ℝ :=
  let script := scriptOf clock sources patch
  ⟨some (script.members index), valueAt script.members index, some (patch index),
    script.position index⟩

variable (resolves : Resolves clock rule sources patch)

include resolves

theorem emitKeyframes_start (h : 0 < sources.length) :
    emitKeyframes clock rule axis .start sources = (do
      let later ← emitKeyframes clock rule axis (progressAt clock sources patch 0) (sources.drop 1)
      return (scriptOf clock sources patch).keyframe none 0 :: later) := by
  obtain ⟨source, rest, rfl⟩ : ∃ source rest, sources = source :: rest :=
    List.exists_cons_of_length_pos h
  have hmem := resolves.within source List.mem_cons_self
  have hvalue : Progress.start.startValue source.members =
      valueAt (scriptOf clock (source :: rest) patch).members 0 := by
    rw [startValue_eq, valueAt, members_scriptOf rfl]
    cases source.members.get "s" <;> rfl
  rw [emitKeyframes_cons (hvalue ▸ resolves.present 0 h) (hvalue ▸ resolves.patched 0 h) hmem]
  · rw [hvalue]
    rfl
  · show (Scalar.literal 0 : OfNat ℝ 0).ofNat ≤ _
    rw [scalar_literal, Nat.cast_zero]
    exact hmem.1

theorem emitKeyframes_next {index : Nat} (h : index + 1 < sources.length) :
    emitKeyframes clock rule axis (progressAt clock sources patch index)
        (sources.drop (index + 1)) = (do
      let script := scriptOf clock sources patch
      let arrival ← (progressAt clock sources patch index).arrival (script.members (index + 1)) axis
      let later ← emitKeyframes clock rule axis (progressAt clock sources patch (index + 1))
        (sources.drop (index + 2))
      return (progressAt clock sources patch index).repeated (script.position (index + 1)) ++
        script.keyframe arrival (index + 1) :: later) := by
  have hsource := List.getElem?_eq_getElem h
  have hmem := resolves.within _ (List.getElem_mem h)
  have hvalue : (progressAt clock sources patch index).startValue sources[index + 1].members =
      valueAt (scriptOf clock sources patch).members (index + 1) := by
    rw [startValue_eq, valueAt, members_scriptOf hsource]
    rfl
  -- the percent reached so far does not hold the next keyframe back
  have hposition := resolves.position_lt h
  rw [position_scriptOf hsource] at hposition
  rw [List.drop_eq_getElem_cons h, emitKeyframes_cons (hvalue ▸ resolves.present (index + 1) h)
    (hvalue ▸ resolves.patched (index + 1) h) hmem hposition.le, hvalue]
  simp only [progressAt, Script.keyframe, members_scriptOf hsource, position_scriptOf hsource]
  rfl

/-- The keyframes after the one of an index: the induction is on the source keyframes
that are left. -/
theorem emittedAfter_of_emitKeyframes {index : Nat} (hlt : index < sources.length)
    {later : List (Keyframe ℝ)}
    (returned : emitKeyframes clock rule axis (progressAt clock sources patch index)
      (sources.drop (index + 1)) = .ok later) :
    (scriptOf clock sources patch).EmittedAfter axis index later := by
  induction hleft : sources.length - index generalizing index later with
  | zero => omega
  | succ left ih =>
      rcases Nat.lt_or_ge (index + 1) sources.length with hnext | hend
      · rw [emitKeyframes_next resolves hnext] at returned
        obtain ⟨arrival, harrival, hrest⟩ := bind_eq_ok.mp returned
        obtain ⟨rest, hrest, hlater⟩ := bind_eq_ok.mp hrest
        have hemitted := ih hnext hrest (by omega)
        obtain rfl := pure_eq_ok.mp hlater
        by_cases hheld : (scriptOf clock sources patch).IsHeld index
        · -- a held value jumps, and is repeated where it ends
          have hisHeld : (progressAt clock sources patch index).isHeld = true := hheld
          simp only [Progress.arrival, hisHeld] at harrival
          cases harrival
          simp only [Progress.repeated, hisHeld]
          exact .held hnext hheld hemitted
        · have hisHeld : (progressAt clock sources patch index).isHeld = false :=
            Bool.eq_false_iff.mpr hheld
          simp only [Progress.arrival, hisHeld] at harrival
          simp only [Progress.repeated, hisHeld]
          exact .eased hnext hheld harrival hemitted
      · rw [List.drop_eq_nil_of_le hend, emitKeyframes] at returned
        cases returned
        exact .last (show sources.length = index + 1 by omega)

theorem exists_emitted (easings : ∀ keyframe next : Members ℝ, ∃ arrival,
    easing keyframe (some next) axis = .ok arrival) {index : Nat} (hlt : index < sources.length) :
    ∃ later, emitKeyframes clock rule axis (progressAt clock sources patch index)
      (sources.drop (index + 1)) = .ok later := by
  induction hleft : sources.length - index generalizing index with
  | zero => omega
  | succ left ih =>
      rcases Nat.lt_or_ge (index + 1) sources.length with hnext | hend
      · obtain ⟨later, hlater⟩ := ih hnext (by omega)
        obtain ⟨arrival, harrival⟩ : ∃ arrival, (progressAt clock sources patch index).arrival
            ((scriptOf clock sources patch).members (index + 1)) axis = .ok arrival := by
          unfold Progress.arrival
          split
          · exact easings _ _
          · exact ⟨none, rfl⟩
        rw [emitKeyframes_next resolves hnext]
        exact ⟨_, bind_eq_ok.mpr ⟨arrival, harrival, bind_eq_ok.mpr ⟨later, hlater, rfl⟩⟩⟩
      · rw [List.drop_eq_nil_of_le hend, emitKeyframes]
        exact ⟨[], rfl⟩

end Step

/-! ## Easings -/

theorem exists_component {R : Type} (axis : Nat) (value : Value R) :
    ∃ component?, value.component axis = .ok component? := by
  cases value with
  | list items => exact ⟨_, Value.component_list axis items⟩
  | _ => exact ⟨_, rfl⟩

theorem exists_easingCoordinates {R : Type} (axis : Nat) (keyframe : Members R)
    (next? : Option (Members R)) :
    ∃ coordinates?, easingCoordinates keyframe next? axis = .ok coordinates? := by
  unfold easingCoordinates
  dsimp only
  split
  · rename_i outgoing incoming _ _
    obtain ⟨x1, hx1⟩ := exists_component axis (Members.get outgoing "x")
    obtain ⟨y1, hy1⟩ := exists_component axis (Members.get outgoing "y")
    obtain ⟨x2, hx2⟩ := exists_component axis (Members.get incoming "x")
    obtain ⟨y2, hy2⟩ := exists_component axis (Members.get incoming "y")
    rw [hx1, hy1, hx2, hy2]
    exact ⟨_, rfl⟩
  · exact ⟨none, rfl⟩

theorem exists_easing (axis : Nat) (keyframe : Members ℝ) (next? : Option (Members ℝ)) :
    ∃ arrival, easing keyframe next? axis = .ok arrival := by
  obtain ⟨coordinates?, hcoordinates⟩ := exists_easingCoordinates axis keyframe next?
  rw [easing, hcoordinates, ok_bind]
  cases coordinates? with
  | none => exact ⟨none, rfl⟩
  | some coordinates =>
      have hreals : coordinates.mapM Number.toReal = .ok (coordinates.map Number.value) := by
        rw [← mapM_ok]
        exact congrArg (coordinates.mapM ·) (funext Number.toReal_eq)
      have htexts : coordinates.mapM Text.compactNumber =
          .ok (coordinates.map fun n => Text.compact n.value) := by
        rw [← mapM_ok]
        refine congrArg (coordinates.mapM ·) (funext fun n => ?_)
        rw [Text.compactNumber, Number.toReal_eq]
        rfl
      dsimp only
      rw [hreals, ok_bind, htexts]
      split
      · exact ⟨none, rfl⟩
      · exact ⟨_, rfl⟩

/-! ## Built timelines -/

theorem startAtOnce_cons (script : Script) (sets : SetsAttributes (script.patch 0))
    (later : List (Keyframe ℝ)) :
    startAtOnce (script.keyframe none 0 :: later) =
      if 0 < script.position 0 then
        .ok (⟨.real 0, none, script.patch 0⟩ :: script.keyframe none 0 :: later)
      else .ok (script.keyframe none 0 :: later) := by
  have hnone : (script.patch 0).get? "percent" = none := sets "percent" (by decide)
  have hlate : (script.keyframe none 0).startsLate = .ok (decide (0 < script.position 0)) := by
    rw [Keyframe.startsLate, Script.keyframe, hnone]
    exact congrArg Except.ok (Bool.eq_iff_iff.mpr
      ((Number.isPositive_iff _).trans decide_eq_true_iff.symm))
  rw [startAtOnce, hlate, ok_bind, Script.keyframe, attributes_eq sets]
  by_cases hstart : 0 < script.position 0
  · rw [if_pos hstart, if_pos (decide_eq_true hstart), scalar_literal, Nat.cast_zero]
    rfl
  · rw [if_neg hstart, if_neg (by simpa using hstart)]
    rfl

section Built

variable {keyframes : List (Value ℝ)} {patch : Nat → Members ℝ}
  (nonempty : keyframes.filterMap SourceKeyframe.ofValue? ≠ [])
  (resolves : Resolves clock rule (keyframes.filterMap SourceKeyframe.ofValue?) patch)
  (sets : rule.Sets)

include nonempty resolves sets

theorem exists_buildTimeline (hrate : clock.frameRate.value ≠ 0) (axis : Nat) :
    ∃ timeline, buildTimeline keyframes rule clock axis = .ok (some timeline) := by
  have hpos := List.length_pos_of_ne_nil nonempty
  obtain ⟨later, hlater⟩ := exists_emitted resolves
    (fun keyframe next => exists_easing axis keyframe (some next)) hpos
  obtain ⟨started, hstarted⟩ : ∃ started, startAtOnce ((scriptOf clock
      (keyframes.filterMap SourceKeyframe.ofValue?) patch).keyframe none 0 :: later) =
        .ok started := by
    rw [startAtOnce_cons _ (sets _ _ (resolves.patched 0 hpos))]
    split <;> exact ⟨_, rfl⟩
  refine ⟨_, buildTimeline_eq_some.mpr ⟨_, _, started, _, _, ?_, hstarted,
    clock.duration_eq hrate, clock.delay_eq hrate, rfl⟩⟩
  rw [emitKeyframes_start resolves hpos, hlater]
  rfl

/-- A timeline shows what its script asks for, also where it was given a keyframe at the
start. -/
theorem playsBack_of_buildTimeline {blend : Blend} {timeline : Timeline ℝ}
    (blend_self : ∀ arrival fraction patch, blend arrival fraction patch patch = patch)
    (returned : buildTimeline keyframes rule clock axis = .ok (some timeline)) :
    (scriptOf clock (keyframes.filterMap SourceKeyframe.ofValue?) patch).PlaysBack axis blend
      (sample blend timeline.keyframes) := by
  have hpos := List.length_pos_of_ne_nil nonempty
  have hsets : ∀ index < (keyframes.filterMap SourceKeyframe.ofValue?).length,
      SetsAttributes (patch index) :=
    fun index h => sets _ _ (resolves.patched index h)
  obtain ⟨first, rest, started, duration, delay, hemitted, hstarted, -, -, rfl⟩ :=
    buildTimeline_eq_some.mp returned
  rw [emitKeyframes_start resolves hpos] at hemitted
  obtain ⟨later, hlater, hemitted⟩ := bind_eq_ok.mp hemitted
  cases hemitted
  have hafter := emittedAfter_of_emitKeyframes resolves hpos hlater
  have hordered := resolves.ordered hsets
  have hplays := Script.plays_emitted hordered hafter blend_self none
  rw [startAtOnce_cons _ (hsets 0 hpos)] at hstarted
  split at hstarted
  · cases hstarted
    rwa [funext (Script.sample_startAtOnce hordered hafter blend_self)]
  · cases hstarted
    exact hplays

omit sets in
theorem buildTimeline_ne_none : buildTimeline keyframes rule clock axis ≠ .ok none := by
  intro returned
  rw [buildTimeline_eq_none,
    emitKeyframes_start resolves (List.length_pos_of_ne_nil nonempty)] at returned
  obtain ⟨later, -, hemitted⟩ := bind_eq_ok.mp returned
  cases hemitted

end Built

/-- **Timelines play their source keyframes.**  Where the source keyframes stand in order on
the clock and all of their values leave patches, a timeline is built as soon as there is a
frame rate, and sampling it gives at every percent what the source keyframes ask for. -/
theorem buildTimeline_plays_back (axis : Int) {keyframes : List (Value ℝ)}
    {patch : Nat → Members ℝ} {blend : Blend}
    (nonempty : keyframes.filterMap SourceKeyframe.ofValue? ≠ [])
    (resolves : Resolves clock rule (keyframes.filterMap SourceKeyframe.ofValue?) patch)
    (sets : rule.Sets)
    (blend_self : ∀ arrival fraction patch, blend arrival fraction patch patch = patch) :
    (clock.frameRate.value ≠ 0 → 0 ≤ axis →
      ∃ timeline, buildTimeline keyframes rule clock axis = .ok (some timeline)) ∧
    ∀ timeline?, buildTimeline keyframes rule clock axis = .ok timeline? →
      ∃ timeline, timeline? = some timeline ∧
        (scriptOf clock (keyframes.filterMap SourceKeyframe.ofValue?) patch).PlaysBack axis blend
          (sample blend timeline.keyframes) := by
  refine ⟨fun hrate haxis => ?_, fun timeline? returned => ?_⟩
  · obtain ⟨natural, rfl⟩ := Int.eq_ofNat_of_zero_le haxis
    exact exists_buildTimeline nonempty resolves sets hrate natural
  · cases timeline? with
    | none => exact absurd returned (buildTimeline_ne_none nonempty resolves)
    | some timeline =>
        exact ⟨timeline, rfl,
          playsBack_of_buildTimeline nonempty resolves sets blend_self returned⟩

/-! ## A timeline that plays -/

/-- A target that blends numbers at an even pace. -/
noncomputable def evenBlend : Blend := fun _ fraction =>
  List.zipWith fun before after =>
    match before, after with
    | (key, .num a), (_, .num b) =>
      (key, if a.value = b.value then .num a
        else .num (.real (a.value + fraction * (b.value - a.value))))
    | before, _ => before

theorem evenBlend_self (arrival : Option String) (fraction : ℝ) (patch : Members ℝ) :
    evenBlend arrival fraction patch patch = patch := by
  induction patch with
  | nil => rfl
  | cons entry rest ih =>
      obtain ⟨key, value⟩ := entry
      refine congrArg₂ List.cons ?_ ih
      cases value with
      | num n => exact congrArg (Prod.mk key) (if_pos rfl)
      | _ => rfl

/-- A keyframe that goes to an end value, one that takes that value over and keeps it, and
one that it jumps to. -/
def threeKeyframes : List (Value ℝ) :=
  [.object [("t", .num (.whole 5)), ("s", .num (.whole 0)), ("e", .num (.whole 10))],
    .object [("t", .num (.whole 10)), ("h", .num (.whole 1))],
    .object [("t", .num (.whole 20)), ("s", .num (.whole 30))]]

/-- The patches of the three keyframes. -/
def threePatches (index : Nat) : Members ℝ :=
  [("x", .num (.whole ([0, 10, 30].getD index 0)))]

/-- The three keyframes with their frames. -/
def threeSources : List (SourceKeyframe ℝ) :=
  [⟨[("t", .num (.whole 5)), ("s", .num (.whole 0)), ("e", .num (.whole 10))], .whole 5⟩,
    ⟨[("t", .num (.whole 10)), ("h", .num (.whole 1))], .whole 10⟩,
    ⟨[("t", .num (.whole 20)), ("s", .num (.whole 30))], .whole 20⟩]

theorem resolves_threeSources :
    Resolves Clock.steady (axisRule "" "x" .none 0) threeSources threePatches where
  increasing := by
    rw [threeSources]
    norm_num
  within := by
    intro source hsource
    have hframe : source.frame ∈ [.whole 5, .whole 10, .whole 20] := List.mem_map_of_mem hsource
    simp only [List.mem_cons, List.not_mem_nil, or_false] at hframe
    rcases hframe with h | h | h <;> rw [h, Clock.position_steady] <;> norm_num
  present := by
    intro index h
    match index, h with
    | 0, _ => rfl
    | 1, _ => rfl
    | 2, _ => rfl
  patched := by
    intro index h
    match index, h with
    | 0, _ => rfl
    | 1, _ => rfl
    | 2, _ => rfl

theorem buildTimeline_threeKeyframes : ∃ timeline,
    buildTimeline threeKeyframes (axisRule "" "x" .none 0) Clock.steady 0 = .ok (some timeline) ∧
      (scriptOf Clock.steady threeSources threePatches).PlaysBack 0 evenBlend
        (sample evenBlend timeline.keyframes) := by
  have hsources : threeKeyframes.filterMap SourceKeyframe.ofValue? = threeSources := rfl
  have hrate : Clock.steady.frameRate.value ≠ 0 := by
    rw [Clock.steady, Number.value_whole]
    norm_num
  have hresolves : Resolves Clock.steady (axisRule "" "x" .none 0)
      (threeKeyframes.filterMap SourceKeyframe.ofValue?) threePatches :=
    hsources ▸ resolves_threeSources
  obtain ⟨hbuilt, hplays⟩ := buildTimeline_plays_back 0 (hsources ▸ List.cons_ne_nil _ _)
    hresolves (axisRule_sets (by decide) (by decide) .none 0) evenBlend_self
  obtain ⟨timeline, hbuilt⟩ := hbuilt hrate le_rfl
  obtain ⟨played, hplayed, hplays⟩ := hplays _ hbuilt
  cases hplayed
  exact ⟨timeline, hbuilt, hplays⟩

end MotionScene
