import MotionScene.Compile
import MotionScene.Proofs.Layer.Timelines
import MotionScene.Proofs.Timeline.Steady

/-!
# All timelines run on one clock

Compiling a document gives every element, wherever it stands, timelines of one duration
and one delay, which start at zero and run steadily to one at most
(`compile_timelines_run_on_clock`).
-/

namespace MotionScene

/-- Fitting a clock does not depend on where its frames start. -/
theorem kept_fits (root : Clock ℝ) : Kept root (Timeline.Fits root) where
  built offset keyframes rule axis timeline sets returned := by
    obtain ⟨hsteady, hstart, hduration, hdelay, hloop⟩ := fits_buildTimeline sets returned
    exact ⟨hsteady, hstart, hduration, hdelay, hloop⟩
  retargeted _ _ fits returned := fits.retarget returned

/-! ## The clock of a document -/

theorem documentFrameRate_pos {members : Members ℝ} {options : Options ℝ} {frameRate : Number ℝ}
    (positive : 0 < options.defaultFrameRate.value)
    (returned : (documentFrameRate members options).outcome = .ok frameRate) :
    0 < frameRate.value := by
  unfold documentFrameRate at returned
  dsimp only at returned
  split at returned
  · obtain ⟨-, -, hpure⟩ := Traced.outcome_bind_eq_ok.mp returned
    cases hpure
    exact positive
  · rename_i habove
    cases returned
    rw [Number.atMost_iff, Number.value_whole, Int.cast_zero, not_le] at habove
    exact habove

/-- The in-frame of a document, zero where it has none. -/
def inFrameOf (members : Members ℝ) : ℝ :=
  (numberOr members "ip" (.whole 0)).value

/-- What the clock of a document takes from the document and from the options. -/
structure ClockOf (members : Members ℝ) (options : Options ℝ) (clock : Clock ℝ) : Prop where
  frameRate_pos : 0 < clock.frameRate.value
  inFrame : clock.inFrame.value = inFrameOf members
  options : clock.options = options

theorem clockOf_documentClock {members : Members ℝ} {options : Options ℝ} {clock : Clock ℝ}
    (positive : 0 < options.defaultFrameRate.value)
    (returned : (documentClock members options).outcome = .ok clock) :
    ClockOf members options clock := by
  obtain ⟨frameRate, hframeRate, hrest⟩ := Traced.outcome_bind_eq_ok.mp returned
  have hpos := documentFrameRate_pos positive hframeRate
  obtain ⟨outFrame, offset, rfl⟩ : ∃ outFrame offset, clock = ⟨frameRate,
      numberOr members "ip" (.real (Scalar.ofNat 0)), outFrame, offset, options⟩ := by
    dsimp only at hrest
    split at hrest
    -- the notices about unusual frames change nothing
    · obtain ⟨-, -, hpure⟩ := Traced.outcome_bind_eq_ok.mp hrest
      cases hpure
      exact ⟨_, _, rfl⟩
    · split at hrest
      · obtain ⟨-, -, hpure⟩ := Traced.outcome_bind_eq_ok.mp hrest
        cases hpure
        exact ⟨_, _, rfl⟩
      · cases hrest
        exact ⟨_, _, rfl⟩
  refine ⟨hpos, ?_, rfl⟩
  show (numberOr members "ip" _).value = _
  unfold inFrameOf numberOr
  cases (members.get "ip").number? with
  | none => exact Nat.cast_zero.trans Int.cast_zero.symm
  | some n => rfl

/-! ## Compiled scenes -/

/-- A timeline that shows keyframes from zero on, in order and up to one at most, and that
has the duration of a scene and the delay of an in-frame. -/
structure Timeline.RunsOn (scene : Scene ℝ) (inFrame : ℝ) (loop : Bool)
    (timeline : Timeline ℝ) : Prop where
  nonempty : timeline.keyframes ≠ []
  startsAtZero : timeline.keyframes.head?.map Keyframe.shownPercent = some 0
  nondecreasing : (timeline.keyframes.map Keyframe.shownPercent).Pairwise (· ≤ ·)
  within : ∀ keyframe ∈ timeline.keyframes, keyframe.shownPercent ∈ Set.Icc 0 1
  duration : timeline.duration.value = scene.duration
  delay : timeline.delay.value = -inFrame * 1000 / scene.frameRate.value
  loop : timeline.loop = loop

theorem shownPercent_of_steady {start : ℝ} {keyframes : List (Keyframe ℝ)}
    (steady : Steady start keyframes) {keyframe : Keyframe ℝ} (h : keyframe ∈ keyframes) :
    keyframe.shownPercent = keyframe.percent.value :=
  shownPercent_eq (steady.sets_of_mem h) _ _

theorem Timeline.Fits.runsOn {clock : Clock ℝ} {members : Members ℝ} {options : Options ℝ}
    (hclock : ClockOf members options clock) {scene : Scene ℝ}
    (hduration : clock.duration = .ok scene.duration) (hrate : scene.frameRate = clock.frameRate)
    {timeline : Timeline ℝ} (fits : timeline.Fits clock) :
    timeline.RunsOn scene (inFrameOf members) options.loop := by
  have hshown : timeline.keyframes.map Keyframe.shownPercent =
      timeline.keyframes.map (·.percent.value) :=
    List.map_congr_left fun _ h => shownPercent_of_steady fits.steady h
  have hhead : timeline.keyframes.head?.map Keyframe.shownPercent = some 0 := by
    rw [← List.head?_map, hshown, List.head?_map, fits.startsAtZero]
  refine ⟨?_, hhead, hshown ▸ fits.steady.pairwise, fun keyframe h => ?_, ?_, ?_, ?_⟩
  · intro hnil
    rw [hnil] at hhead
    cases hhead
  · rw [shownPercent_of_steady fits.steady h]
    exact fits.steady.percent_mem h
  · exact Except.ok.inj (fits.duration.symm.trans hduration)
  · have hdelay := clock.delay_eq hclock.frameRate_pos.ne'
    rw [Except.ok.inj (fits.delay.symm.trans hdelay), hclock.inFrame, hrate, mul_div_assoc]
  · rw [fits.loop, hclock.options]

/-- **All timelines run on one clock.**  Whatever frames the keyframes of a document have,
every timeline of a compiled scene starts at zero, runs steadily, and has the duration of
the scene, the delay of the in-frame and the loop flag of the options. -/
theorem compile_timelines_run_on_clock {value : Value ℝ} {options : Options ℝ} {scene : Scene ℝ}
    (positive : 0 < options.defaultFrameRate.value)
    (returned : (compile value options).outcome = .ok scene) :
    0 < scene.duration ∧ ∃ document, (migrate value).outcome = .ok document ∧
      ∀ element ∈ scene.all, ∀ timeline ∈ element.body.timelines,
        timeline.RunsOn scene (inFrameOf document.members) options.loop := by
  obtain ⟨document, hdocument, hrest⟩ := Traced.outcome_bind_eq_ok.mp returned
  obtain ⟨clock, hclock, hrest⟩ := Traced.outcome_bind_eq_ok.mp hrest
  obtain ⟨elements, helements, hrest⟩ := Traced.outcome_bind_eq_ok.mp hrest
  obtain ⟨duration, hduration, hrest⟩ := Traced.outcome_bind_eq_ok.mp hrest
  obtain ⟨-, -, hpure⟩ := Traced.outcome_bind_eq_ok.mp hrest
  cases hpure
  rw [Traced.outcome_lift] at hduration
  have hclockOf := clockOf_documentClock positive hclock
  refine ⟨?_, document, hdocument, fun element helement timeline htimeline => ?_⟩
  · rw [clock.duration_eq hclockOf.frameRate_pos.ne'] at hduration
    obtain rfl := Except.ok.inj hduration
    have hspan := clock.value_span_pos
    have hrate := hclockOf.frameRate_pos
    positivity
  · -- every clock of a nested list differs from this one by its offset only
    have hcarries := assembleLayers_carries (kept_fits clock) clock.shifts_self _ helements
    exact (hcarries element helement timeline htimeline).runsOn hclockOf hduration rfl

/-- A document whose layers assemble on a clock that has a duration is compiled to their
elements. -/
theorem exists_compile_of_assembled {R : Type} [Scalar R] {value : Value R} {options : Options R}
    {document : MigratedDocument R} {clock : Clock R} {elements : List (Element R)} {duration : R}
    (migrated : (migrate value).outcome = .ok document)
    (timed : (documentClock document.members options).outcome = .ok clock)
    (assembled : (assembleLayers clock (document.members.get "layers")).outcome = .ok elements)
    (lasts : clock.duration = .ok duration) :
    ∃ scene, (compile value options).outcome = .ok scene ∧ scene.elements = elements := by
  refine ⟨⟨numberOr document.members "w" (.whole 0), numberOr document.members "h" (.whole 0),
    clock.frameRate, duration, elements⟩, ?_, rfl⟩
  refine Traced.outcome_bind_eq_ok.mpr ⟨document, migrated, Traced.outcome_bind_eq_ok.mpr ?_⟩
  refine ⟨clock, timed, Traced.outcome_bind_eq_ok.mpr ⟨elements, assembled, ?_⟩⟩
  exact Traced.outcome_bind_eq_ok.mpr ⟨duration, lasts, rfl⟩

/-! ## A layer that turns -/

/-- A keyframe that turns an element. -/
def turnAt (frame degrees : ℤ) : Value ℝ :=
  .object [("t", .num (.whole frame)), ("s", .num (.whole degrees))]

/-- Two such keyframes in the wrong order, the later one off the clock. -/
def turns : List (Value ℝ) := [turnAt 10 90, turnAt (-5) 180]

/-- A layer that turns. -/
def turningLayer : Members ℝ :=
  [("ty", .text "null"), ("ks", .object [("r", .object [("k", .list turns)])])]

/-- A document with that layer. -/
def turningDocument : Members ℝ :=
  [("fr", .num (.whole 25)), ("ip", .num (.whole 5)), ("op", .num (.whole 50)),
    ("layers", .list [.object turningLayer])]

/-- Options that ask for a loop. -/
def loopOptions : Options ℝ := ⟨true, .whole 30, true⟩

/-- The clock of the document. -/
noncomputable def turningClock : Clock ℝ :=
  ⟨.whole 25, .whole 5, .whole 50, .real (Scalar.ofNat 0), loopOptions⟩

/-- A patch that turns an element clockwise. -/
noncomputable def turned (degrees : ℤ) : Members ℝ :=
  [("rotation", .num (.real (((-degrees : ℤ) : ℝ) / ((180 : ℤ) : ℝ) * Real.pi)))]

/-- The timeline of the layer. -/
noncomputable def turningTimeline : Timeline ℝ :=
  ⟨.real 2000, .real (-200), [⟨.real 0, none, turned 90⟩, ⟨.real (1 / 5), none, turned 90⟩,
    ⟨.real (1 / 5), none, turned 180⟩], true⟩

theorem percent_turningClock (frame : ℤ) :
    turningClock.percent (.whole frame) = .ok (min 1 (max 0 ((frame : ℝ) / 50))) := by
  have hoffset : turningClock.offset.value = 0 := Nat.cast_zero
  rw [Clock.percent_eq, clampUnit_eq, Clock.position, Clock.value_span, hoffset]
  norm_num [turningClock]

theorem emitKeyframes_turning : emitKeyframes turningClock (axisRule "" "rotation" .rotation 0) 0
    .start (turns.filterMap SourceKeyframe.ofValue?) =
      .ok [⟨.real (1 / 5), none, turned 90⟩, ⟨.real (1 / 5), none, turned 180⟩] := by
  have hfirst : max (Progress.start : Progress ℝ).percent (min 1 (max 0 (((10 : ℤ) : ℝ) / 50))) =
      1 / 5 := by
    have hzero : (Progress.start : Progress ℝ).percent = 0 := Nat.cast_zero
    rw [hzero]
    norm_num
  have hsecond : max (1 / 5 : ℝ) (min 1 (max 0 (((-5 : ℤ) : ℝ) / 50))) = 1 / 5 := by norm_num
  have hpatch : (axisRule "" "rotation" .rotation 0 : PatchRule ℝ).patch?
      (.num (.whole 90)) = .ok (some (turned 90)) := rfl
  have hlater : (axisRule "" "rotation" .rotation 0 : PatchRule ℝ).patch?
      (.num (.whole 180)) = .ok (some (turned 180)) := rfl
  have hrest : emitKeyframes turningClock (axisRule "" "rotation" .rotation 0) 0
      ⟨some [("t", .num (.whole 10)), ("s", .num (.whole 90))], .num (.whole 90),
        some (turned 90), 1 / 5⟩
      [⟨[("t", .num (.whole (-5))), ("s", .num (.whole 180))], .whole (-5)⟩] =
        .ok [⟨.real (1 / 5), none, turned 180⟩] := by
    rw [emitKeyframes, percent_turningClock]
    show (PatchRule.patch? _ (.num (.whole 180)) >>= _) = _
    rw [hlater, ok_bind, ok_bind, greatest_eq_max, hsecond]
    rfl
  show emitKeyframes turningClock _ 0 .start [⟨_, .whole 10⟩, ⟨_, .whole (-5)⟩] = _
  rw [emitKeyframes, percent_turningClock]
  show (PatchRule.patch? _ (.num (.whole 90)) >>= _) = _
  rw [hpatch, ok_bind, ok_bind, greatest_eq_max, hfirst]
  show (Progress.arrival _ _ _ >>= fun arrival => emitKeyframes _ _ _
    ⟨some [("t", .num (.whole 10)), ("s", .num (.whole 90))], .num (.whole 90),
        some (turned 90), 1 / 5⟩ _ >>= _) = _
  rw [hrest]
  rfl

theorem buildTimeline_turning : buildTimeline turns (axisRule "" "rotation" .rotation 0)
    turningClock 0 = .ok (some turningTimeline) := by
  have hrate : turningClock.frameRate.value ≠ 0 := by
    rw [turningClock, Number.value_whole]
    norm_num
  refine buildTimeline_eq_some.mpr ⟨_, _, turningTimeline.keyframes, 2000, -200,
    emitKeyframes_turning, ?_, ?_, ?_, rfl⟩
  · have hlate : Keyframe.startsLate ⟨.real (1 / 5), none, turned 90⟩ = .ok true := by
      refine congrArg Except.ok ((Number.isPositive_iff _).mpr ?_)
      rw [Number.value_real]
      norm_num
    rw [startAtOnce, hlate, ok_bind, if_pos rfl, scalar_literal, Nat.cast_zero]
    rfl
  · rw [Clock.duration_eq _ hrate, Clock.value_span]
    norm_num [turningClock]
  · rw [Clock.delay_eq _ hrate]
    norm_num [turningClock]

/-- The layer of the document as an element. -/
noncomputable def turningElement : Element ℝ :=
  ⟨.group, ⟨[], [turningTimeline]⟩, some [], none⟩

theorem finishLayer_turning :
    finishLayer turningLayer [] turningClock = .ok ⟨none, turningElement⟩ := by
  have hturn : resolve (.object [("k", .list turns)]) "" ["rotation"] .rotation turningClock
      Body.empty = .ok ⟨[], [turningTimeline]⟩ := by
    show (axisTimelines turns _ _ _ 0 ["rotation"] >>= _) = _
    rw [axisTimelines]
    show (buildTimeline turns (axisRule "" "rotation" .rotation 0) turningClock 0 >>= _) >>= _ = _
    rw [buildTimeline_turning]
    rfl
  show ((resolve (.object [("k", .list turns)]) "" ["rotation"] .rotation turningClock
    Body.empty >>= _) >>= _) >>= _ = _
  rw [hturn]
  rfl

theorem assembleLayers_turning :
    (assembleLayers turningClock (.list [.object turningLayer])).outcome =
      .ok [turningElement] := by
  have hbuilt : (buildMembers turningClock turningLayer turningLayer).outcome =
      .ok (some ⟨none, turningElement⟩) := by
    rw [buildMembers]
    exact Traced.outcome_bind_eq_ok.mpr ⟨_, finishLayer_turning, rfl⟩
  exact assembleLayers_alone hbuilt rfl rfl

theorem exists_compile_turning : ∃ scene,
    (compile (.object turningDocument) loopOptions).outcome = .ok scene ∧
      scene.elements = [turningElement] := by
  have hmigrated : (migrate (.object turningDocument)).outcome = .ok ⟨turningDocument, .unknown⟩ :=
    rfl
  have hclock : (documentClock turningDocument loopOptions).outcome = .ok turningClock := rfl
  obtain ⟨duration, hduration⟩ : ∃ duration, turningClock.duration = .ok duration := by
    refine ⟨_, Clock.duration_eq _ ?_⟩
    rw [turningClock, Number.value_whole]
    norm_num
  exact exists_compile_of_assembled hmigrated hclock assembleLayers_turning hduration

theorem compile_turningDocument : 0 < loopOptions.defaultFrameRate.value ∧ ∃ scene,
    (compile (.object turningDocument) loopOptions).outcome = .ok scene ∧
      0 < scene.duration ∧ turningTimeline.RunsOn scene (inFrameOf turningDocument) true := by
  have positive : 0 < loopOptions.defaultFrameRate.value := by
    rw [loopOptions, Number.value_whole]
    norm_num
  obtain ⟨scene, returned, helements⟩ := exists_compile_turning
  obtain ⟨hduration, document, hdocument, hruns⟩ :=
    compile_timelines_run_on_clock positive returned
  have hmigrated : (migrate (.object turningDocument)).outcome = .ok ⟨turningDocument, .unknown⟩ :=
    rfl
  obtain rfl := Except.ok.inj (hdocument.symm.trans hmigrated)
  refine ⟨positive, scene, returned, hduration, hruns turningElement ?_ turningTimeline ?_⟩
  · rw [Scene.all, helements]
    exact List.mem_singleton_self _
  · exact List.mem_singleton_self _

end MotionScene
