import MotionScene.Proofs.Timeline.Clock
import MotionScene.Property.Resolve

/-!
# Dropped keyframes

A source keyframe whose value sets no attribute leaves no keyframe of its own.  It still
stands before the next one, which takes its hold flag and its handles for those of the way
there.  A timeline is therefore that of the kept source keyframes alone
(`buildTimeline_of_kept`) where each of these is reached from the one before it as from the
last kept one (`ReachedAsKept`); where a dropped keyframe ends a held value, it is not
(`buildTimeline_ends_hold`).
-/

namespace MotionScene

variable {R : Type}

/-! ## Kept keyframes -/

namespace SourceKeyframe

variable [Scalar R]

/-- Whether a source keyframe keeps its value until the next one. -/
def isHeld (source : SourceKeyframe R) : Bool :=
  (source.members.get "h").same (.num (.whole 1))

/-- Whether a source keyframe is kept: the rule does not pass its value over. -/
def isKept (rule : PatchRule R) (source : SourceKeyframe R) : Bool :=
  match rule (source.members.get "s") with
  | .ok none => false
  | _ => true

/-- The easing along which a source keyframe is reached from another one, if there is one;
a held value jumps. -/
def easingFrom (axis : Int) (previous? : Option (SourceKeyframe R)) (next : SourceKeyframe R) :
    Except Fault (Option String) :=
  match previous? with
  | some previous =>
    if previous.isHeld then .ok none else easing previous.members (some next.members) axis
  | none => .ok none

end SourceKeyframe

open SourceKeyframe

variable [Scalar R]

omit [Scalar R] in
theorem isKept_eq_false {rule : PatchRule R} {source : SourceKeyframe R} :
    source.isKept rule = false ↔ rule (source.members.get "s") = .ok none := by
  unfold isKept
  split <;> simp_all

/-- Whether a value is a source keyframe that is kept. -/
def isKeptKeyframe (rule : PatchRule R) (value : Value R) : Bool :=
  (SourceKeyframe.ofValue? value).any (·.isKept rule)

/-- A source keyframe is reached from one as it is from another, the last one that was kept:
both hold their values or neither does, and the easings are the same. -/
structure ReachedAlike (axis : Int) (previous? last? : Option (SourceKeyframe R))
    (next : SourceKeyframe R) : Prop where
  held : last?.isSome → previous?.any isHeld = last?.any isHeld
  easing : next.easingFrom axis previous? = next.easingFrom axis last?

/-- Every kept source keyframe is reached from the one just before it as from the last kept
one before it, and the frames of the others stand on the clock. -/
structure ReachedAsKept (clock : Clock R) (rule : PatchRule R) (axis : Int)
    (sources : List (SourceKeyframe R)) : Prop where
  timed : ∀ source ∈ sources, source.isKept rule = false →
    ∃ percent, clock.percent source.frame = .ok percent
  reached : ∀ place next, sources[place]? = some next → next.isKept rule = true →
    ReachedAlike axis (sources.take place).getLast?
      ((sources.take place).filter (·.isKept rule)).getLast? next

/-! ## Two runs side by side -/

section Runs

variable {clock : Clock R} {rule : PatchRule R} {axis : Int}

omit [Scalar R] in
theorem startValue_of_own {progress : Progress R} {source : SourceKeyframe R}
    (own : (source.members.get "s").isNull = false) :
    progress.startValue source.members = source.members.get "s" := by
  unfold Progress.startValue
  dsimp only
  split
  · rename_i hnull _
    rw [hnull] at own
    cases own
  · rename_i hnull _
    rw [hnull] at own
    cases own
  · rfl

omit [Scalar R] in
theorem patch?_of_own {progress : Progress R} {source : SourceKeyframe R}
    (own : (source.members.get "s").isNull = false) :
    rule.patch? (progress.startValue source.members) = rule (source.members.get "s") := by
  rw [startValue_of_own own, PatchRule.patch?, own]
  rfl

/-- What a run over all source keyframes and one over the kept ones have in common behind
the same source keyframes. -/
structure SideBySide (rule : PatchRule R) (seen : List (SourceKeyframe R))
    (all kept : Progress R) : Prop where
  previous : all.previous? = seen.getLast?.map (·.members)
  last : kept.previous? = (seen.filter (·.isKept rule)).getLast?.map (·.members)
  patch : all.patch? = kept.patch?
  percent : all.percent = kept.percent
  patched : kept.patch?.isSome → (seen.filter (·.isKept rule)).getLast?.isSome

theorem isHeld_of_previous {progress : Progress R} {previous? : Option (SourceKeyframe R)}
    (h : progress.previous? = previous?.map (·.members)) :
    progress.isHeld = previous?.any isHeld := by
  rw [Progress.isHeld, h]
  cases previous? <;> rfl

theorem arrival_of_previous {progress : Progress R} {previous? : Option (SourceKeyframe R)}
    (h : progress.previous? = previous?.map (·.members)) (next : SourceKeyframe R) :
    progress.arrival next.members axis = next.easingFrom axis previous? := by
  rw [Progress.arrival, isHeld_of_previous h, h]
  cases previous? with
  | none => rfl
  | some previous =>
      rw [easingFrom, Option.any_some]
      cases previous.isHeld <;> rfl

theorem SideBySide.repeated {seen : List (SourceKeyframe R)} {all kept : Progress R}
    (sideBySide : SideBySide rule seen all kept) {next : SourceKeyframe R}
    (alike : ReachedAlike axis seen.getLast? (seen.filter (·.isKept rule)).getLast? next)
    (percent : R) : all.repeated percent = kept.repeated percent := by
  unfold Progress.repeated
  rw [sideBySide.patch]
  cases hpatch : kept.patch? with
  | none => cases all.isHeld <;> cases kept.isHeld <;> rfl
  | some patch =>
      have hsome := sideBySide.patched (by rw [hpatch]; rfl)
      rw [isHeld_of_previous sideBySide.previous, isHeld_of_previous sideBySide.last,
        alike.held hsome]

omit [Scalar R] in
/-- Behind a dropped source keyframe the two runs are still side by side. -/
theorem SideBySide.drop {seen : List (SourceKeyframe R)} {all kept : Progress R}
    (sideBySide : SideBySide rule seen all kept) {source : SourceKeyframe R}
    (dropped : source.isKept rule = false) (value : Value R) :
    SideBySide rule (seen ++ [source]) { all with previous? := some source.members, value }
      kept where
  previous := by rw [List.getLast?_concat, Option.map_some]
  last := by
    rw [List.filter_append, List.filter_cons_of_neg (Bool.eq_false_iff.mp dropped),
      List.filter_nil, List.append_nil, sideBySide.last]
  patch := sideBySide.patch
  percent := sideBySide.percent
  patched h := by
    rw [List.filter_append, List.filter_cons_of_neg (Bool.eq_false_iff.mp dropped),
      List.filter_nil, List.append_nil]
    exact sideBySide.patched h

omit [Scalar R] in
/-- A kept source keyframe brings the two runs together. -/
theorem sideBySide_keep {seen : List (SourceKeyframe R)} {source : SourceKeyframe R}
    (kept : source.isKept rule = true) (value : Value R) (patch : Members R) (percent : R) :
    SideBySide rule (seen ++ [source]) ⟨some source.members, value, some patch, percent⟩
      ⟨some source.members, value, some patch, percent⟩ := by
  have hfilter : ((seen ++ [source]).filter (·.isKept rule)).getLast? = some source := by
    rw [List.filter_append, List.filter_cons_of_pos kept, List.filter_nil, List.getLast?_concat]
  refine ⟨by rw [List.getLast?_concat, Option.map_some], by rw [hfilter, Option.map_some], rfl, rfl,
    fun _ => by rw [hfilter]; rfl⟩

theorem emitKeyframes_dropped {source : SourceKeyframe R} {rest : List (SourceKeyframe R)}
    (own : (source.members.get "s").isNull = false) (dropped : source.isKept rule = false)
    {percent : R} (timed : clock.percent source.frame = .ok percent) (all : Progress R) :
    emitKeyframes clock rule axis all (source :: rest) = emitKeyframes clock rule axis
      { all with previous? := some source.members, value := source.members.get "s" } rest := by
  rw [emitKeyframes]
  dsimp only
  rw [patch?_of_own own, startValue_of_own own, isKept_eq_false.mp dropped, timed]
  rfl

theorem emitKeyframes_failed {source : SourceKeyframe R} {rest : List (SourceKeyframe R)}
    (own : (source.members.get "s").isNull = false) {fault : Fault}
    (failed : rule (source.members.get "s") = .error fault) (progress : Progress R) :
    emitKeyframes clock rule axis progress (source :: rest) = .error fault := by
  rw [emitKeyframes]
  dsimp only
  rw [patch?_of_own own, failed]
  rfl

theorem emitKeyframes_patched {source : SourceKeyframe R} {rest : List (SourceKeyframe R)}
    (own : (source.members.get "s").isNull = false) {patch : Members R}
    (patched : rule (source.members.get "s") = .ok (some patch)) (progress : Progress R) :
    emitKeyframes clock rule axis progress (source :: rest) = (do
      let percent ← clock.percent source.frame
      let arrival ← progress.arrival source.members axis
      let later ← emitKeyframes clock rule axis ⟨some source.members, source.members.get "s",
        some patch, Scalar.greatest progress.percent percent⟩ rest
      return progress.repeated (Scalar.greatest progress.percent percent) ++
        ⟨.real (Scalar.greatest progress.percent percent), arrival, patch⟩ :: later) := by
  rw [emitKeyframes]
  dsimp only
  rw [patch?_of_own own, startValue_of_own own, patched]
  rfl

/-- A run over the kept source keyframes that is side by side with one over all of them emits
the same keyframes; the induction is on what is still to come. -/
theorem emitKeyframes_of_kept {sources : List (SourceKeyframe R)}
    (own : ∀ source ∈ sources, (source.members.get "s").isNull = false)
    (alike : ReachedAsKept clock rule axis sources) {seen rest : List (SourceKeyframe R)}
    (hsources : sources = seen ++ rest) {all kept : Progress R}
    (sideBySide : SideBySide rule seen all kept) :
    emitKeyframes clock rule axis kept (rest.filter (·.isKept rule)) =
      emitKeyframes clock rule axis all rest := by
  induction rest generalizing seen all kept with
  | nil => rfl
  | cons source rest ih =>
      have hmem : source ∈ sources := hsources ▸ List.mem_append_right _ List.mem_cons_self
      have hown := own source hmem
      have hnext : sources = (seen ++ [source]) ++ rest := by
        rw [hsources, List.append_assoc, List.singleton_append]
      cases hkept : source.isKept rule with
      | false =>
          obtain ⟨percent, timed⟩ := alike.timed source hmem hkept
          rw [List.filter_cons_of_neg (Bool.eq_false_iff.mp hkept),
            emitKeyframes_dropped hown hkept timed]
          exact ih hnext (sideBySide.drop hkept _)
      | true =>
          have hreached : ReachedAlike axis seen.getLast?
              (seen.filter (·.isKept rule)).getLast? source := by
            have hplace := alike.reached seen.length source
            rw [hsources, List.take_left, List.getElem?_append_right (Nat.le_refl _),
              Nat.sub_self] at hplace
            exact hplace rfl hkept
          rw [List.filter_cons_of_pos hkept]
          cases hrule : rule (source.members.get "s") with
          | error fault => rw [emitKeyframes_failed hown hrule, emitKeyframes_failed hown hrule]
          | ok patch? =>
              obtain _ | patch := patch?
              · rw [isKept_eq_false.mpr hrule] at hkept
                cases hkept
              · rw [emitKeyframes_patched hown hrule, emitKeyframes_patched hown hrule,
                  arrival_of_previous sideBySide.previous, arrival_of_previous sideBySide.last,
                  hreached.easing, sideBySide.percent]
                refine bind_congr fun percent => bind_congr fun arrival => ?_
                rw [ih hnext (sideBySide_keep hkept _ patch _), sideBySide.repeated hreached]

end Runs

/-! ## Built timelines -/

omit [Scalar R] in
theorem filterMap_isKeptKeyframe (rule : PatchRule R) (keyframes : List (Value R)) :
    (keyframes.filter (isKeptKeyframe rule)).filterMap SourceKeyframe.ofValue? =
      (keyframes.filterMap SourceKeyframe.ofValue?).filter (·.isKept rule) := by
  rw [List.filterMap_filter, List.filter_filterMap]
  congr 1
  funext value
  rw [isKeptKeyframe]
  cases SourceKeyframe.ofValue? value with
  | none => rfl
  | some source => rw [Option.any_some, Option.filter_some]

/-- **A dropped keyframe leaves no trace** where the way to the next keyframe does not depend on
it.  Keyframes with values of their own become the same timeline as those of them alone whose
values set an attribute, and no timeline where there are none, if every kept keyframe is reached
from the one before it as from the last kept one and the dropped ones stand on the clock. -/
theorem buildTimeline_of_kept {keyframes : List (Value R)} {rule : PatchRule R} {clock : Clock R}
    {axis : Int}
    (own : ∀ source ∈ keyframes.filterMap SourceKeyframe.ofValue?,
      (source.members.get "s").isNull = false)
    (alike : ReachedAsKept clock rule axis (keyframes.filterMap SourceKeyframe.ofValue?)) :
    buildTimeline (keyframes.filter (isKeptKeyframe rule)) rule clock axis =
        buildTimeline keyframes rule clock axis ∧
      (keyframes.filter (isKeptKeyframe rule) = [] →
        buildTimeline keyframes rule clock axis = .ok none) := by
  have hstart : SideBySide rule [] .start .start := ⟨rfl, rfl, rfl, rfl, nofun⟩
  have hsame : buildTimeline (keyframes.filter (isKeptKeyframe rule)) rule clock axis =
      buildTimeline keyframes rule clock axis := by
    rw [buildTimeline, filterMap_isKeptKeyframe,
      emitKeyframes_of_kept own alike (List.nil_append _).symm hstart, ← buildTimeline]
  refine ⟨hsame, fun hnone => ?_⟩
  rw [← hsame, hnone]
  rfl

/-! ## A hold that ends at a dropped keyframe -/

/-- The rule for the second axis. -/
noncomputable def secondAxis : PatchRule ℝ := axisRule "" "x" .none 1

/-- A keyframe of two axes that is held. -/
def heldSource : SourceKeyframe ℝ :=
  ⟨[("t", .num (.whole 0)), ("s", .list [.num (.whole 1), .num (.whole 2)]),
    ("h", .num (.whole 1))], .whole 0⟩

/-- A keyframe of one axis with further members. -/
def shortSource (further : Members ℝ) : SourceKeyframe ℝ :=
  ⟨("t", .num (.whole 25)) :: ("s", .list [.num (.whole 5)]) :: further, .whole 25⟩

/-- Another keyframe of two axes. -/
def lastSource : SourceKeyframe ℝ :=
  ⟨[("t", .num (.whole 50)), ("s", .list [.num (.whole 3), .num (.whole 4)])], .whole 50⟩

/-- The three keyframes of which the second has no second axis. -/
def mixedKeyframes (further : Members ℝ) : List (Value ℝ) :=
  [.object heldSource.members, .object (shortSource further).members, .object lastSource.members]

theorem percent_heldSource : Clock.steady.percent heldSource.frame = .ok 0 := by
  rw [heldSource, Clock.percent_steady 0 (by norm_num), Int.cast_zero, zero_div]

theorem percent_shortSource (further : Members ℝ) :
    Clock.steady.percent (shortSource further).frame = .ok (25 / 50) := by
  rw [shortSource, Clock.percent_steady 25 (by norm_num), Int.cast_ofNat]

theorem percent_lastSource : Clock.steady.percent lastSource.frame = .ok 1 := by
  rw [lastSource, Clock.percent_steady 50 (by norm_num), Int.cast_ofNat, div_self (by norm_num)]

/-- Behind the held keyframe and some others, the last one is the next to be emitted. -/
theorem emitKeyframes_lastSource {progress : Progress ℝ} (hpercent : progress.percent = 0) :
    emitKeyframes Clock.steady secondAxis 1 progress [lastSource] = (do
      let arrival ← progress.arrival lastSource.members 1
      return progress.repeated 1 ++ [⟨.real 1, arrival, [("x", .num (.whole 4))]⟩]) := by
  have hpatch : secondAxis (lastSource.members.get "s") =
      .ok (some [("x", .num (.whole 4))]) := rfl
  rw [emitKeyframes_patched rfl hpatch, percent_lastSource, ok_bind, hpercent, greatest_eq_max,
    max_eq_right zero_le_one]
  rfl

theorem emitKeyframes_heldSource (rest : List (SourceKeyframe ℝ)) :
    emitKeyframes Clock.steady secondAxis 1 .start (heldSource :: rest) = (do
      let later ← emitKeyframes Clock.steady secondAxis 1 ⟨some heldSource.members,
        heldSource.members.get "s", some [("x", .num (.whole 2))], 0⟩ rest
      return ⟨.real 0, none, [("x", .num (.whole 2))]⟩ :: later) := by
  have hpatch : secondAxis (heldSource.members.get "s") =
      .ok (some [("x", .num (.whole 2))]) := rfl
  have hstart : (Progress.start : Progress ℝ).percent = 0 := Nat.cast_zero
  rw [emitKeyframes_patched rfl hpatch, percent_heldSource, ok_bind, hstart, greatest_eq_max,
    max_self]
  rfl

theorem startAtOnce_of_zero (easing : Option String) {patch : Members ℝ}
    (hpatch : patch.get? "percent" = none) (rest : List (Keyframe ℝ)) :
    startAtOnce (⟨.real 0, easing, patch⟩ :: rest) = .ok (⟨.real 0, easing, patch⟩ :: rest) := by
  have hstart : Keyframe.startsLate (⟨.real 0, easing, patch⟩ : Keyframe ℝ) = .ok false := by
    rw [Keyframe.startsLate, hpatch]
    refine congrArg Except.ok (Bool.eq_false_iff.mpr fun h => ?_)
    exact lt_irrefl _ ((Number.isPositive_iff _).mp h)
  rw [startAtOnce, hstart]
  rfl

theorem buildTimeline_steady {keyframes : List (Value ℝ)} {patch : Members ℝ}
    (hpatch : patch.get? "percent" = none) {later : List (Keyframe ℝ)}
    (emitted : emitKeyframes Clock.steady secondAxis 1 .start
      (keyframes.filterMap SourceKeyframe.ofValue?) = .ok (⟨.real 0, none, patch⟩ :: later)) :
    ∃ timeline, buildTimeline keyframes secondAxis Clock.steady 1 = .ok (some timeline) ∧
      timeline.keyframes = ⟨.real 0, none, patch⟩ :: later := by
  have hrate : Clock.steady.frameRate.value ≠ 0 := by
    rw [Clock.steady, Number.value_whole]
    norm_num
  rw [buildTimeline, emitted, ok_bind, startAtOnce_of_zero none hpatch, ok_bind,
    Clock.duration_eq _ hrate, ok_bind, Clock.delay_eq _ hrate]
  exact ⟨_, rfl, rfl⟩

/-- Where the dropped keyframe is held as well, the jump stays where it is. -/
theorem buildTimeline_keeps_hold :
    let keyframes := mixedKeyframes [("h", .num (.whole 1))]
    keyframes.filter (isKeptKeyframe secondAxis) =
        [.object heldSource.members, .object lastSource.members] ∧
      buildTimeline [.object heldSource.members, .object lastSource.members] secondAxis
          Clock.steady 1 = buildTimeline keyframes secondAxis Clock.steady 1 := by
  intro keyframes
  have hkept : keyframes.filter (isKeptKeyframe secondAxis) =
      [.object heldSource.members, .object lastSource.members] := rfl
  have own : ∀ source ∈ keyframes.filterMap SourceKeyframe.ofValue?,
      (source.members.get "s").isNull = false :=
    List.forall_mem_cons.mpr ⟨rfl, List.forall_mem_cons.mpr
      ⟨rfl, List.forall_mem_singleton.mpr rfl⟩⟩
  have alike : ReachedAsKept Clock.steady secondAxis 1
      (keyframes.filterMap SourceKeyframe.ofValue?) := by
    refine ⟨fun source _ _ => ⟨_, Clock.percent_eq _ _⟩, fun place next hplace hnext => ?_⟩
    match place, hplace with
    | 0, _ => exact ⟨nofun, rfl⟩
    | 1, hplace =>
        -- the second keyframe is dropped
        obtain rfl : shortSource [("h", .num (.whole 1))] = next := Option.some_inj.mp hplace
        cases hnext
    | 2, _ => exact ⟨fun _ => rfl, rfl⟩
  exact ⟨hkept, hkept ▸ (buildTimeline_of_kept own alike).1⟩

/-- A held value that should last until the last keyframe glides to it instead, for the dropped
keyframe between them is not held. -/
theorem buildTimeline_ends_hold :
    (∀ source ∈ (mixedKeyframes []).filterMap SourceKeyframe.ofValue?,
      (source.members.get "s").isNull = false) ∧
    ∃ whole part : Timeline ℝ,
      buildTimeline (mixedKeyframes []) secondAxis Clock.steady 1 = .ok (some whole) ∧
      buildTimeline ((mixedKeyframes []).filter (isKeptKeyframe secondAxis)) secondAxis
        Clock.steady 1 = .ok (some part) ∧
      whole.keyframes = [⟨.real 0, none, [("x", .num (.whole 2))]⟩,
        ⟨.real 1, none, [("x", .num (.whole 4))]⟩] ∧
      part.keyframes = [⟨.real 0, none, [("x", .num (.whole 2))]⟩,
        ⟨.real 1, none, [("x", .num (.whole 2))]⟩, ⟨.real 1, none, [("x", .num (.whole 4))]⟩] := by
  have own : ∀ source ∈ (mixedKeyframes []).filterMap SourceKeyframe.ofValue?,
      (source.members.get "s").isNull = false :=
    List.forall_mem_cons.mpr ⟨rfl, List.forall_mem_cons.mpr
      ⟨rfl, List.forall_mem_singleton.mpr rfl⟩⟩
  have hall : (mixedKeyframes []).filterMap SourceKeyframe.ofValue? =
      [heldSource, shortSource [], lastSource] := rfl
  have hkept : ((mixedKeyframes []).filter (isKeptKeyframe secondAxis)).filterMap
      SourceKeyframe.ofValue? = [heldSource, lastSource] := rfl
  have hwhole : emitKeyframes Clock.steady secondAxis 1 .start
      ((mixedKeyframes []).filterMap SourceKeyframe.ofValue?) =
        .ok [⟨.real 0, none, [("x", .num (.whole 2))]⟩,
          ⟨.real 1, none, [("x", .num (.whole 4))]⟩] := by
    rw [hall, emitKeyframes_heldSource, emitKeyframes_dropped rfl rfl (percent_shortSource []),
      emitKeyframes_lastSource rfl]
    rfl
  have hpart : emitKeyframes Clock.steady secondAxis 1 .start
      (((mixedKeyframes []).filter (isKeptKeyframe secondAxis)).filterMap
        SourceKeyframe.ofValue?) =
        .ok [⟨.real 0, none, [("x", .num (.whole 2))]⟩,
          ⟨.real 1, none, [("x", .num (.whole 2))]⟩,
          ⟨.real 1, none, [("x", .num (.whole 4))]⟩] := by
    rw [hkept, emitKeyframes_heldSource, emitKeyframes_lastSource rfl]
    rfl
  obtain ⟨whole, hwhole, hshown⟩ := buildTimeline_steady rfl hwhole
  obtain ⟨part, hpart, hpartShown⟩ := buildTimeline_steady rfl hpart
  exact ⟨own, whole, part, hwhole, hpart, hshown, hpartShown⟩

end MotionScene
