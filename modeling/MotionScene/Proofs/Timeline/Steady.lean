import MotionScene.Element.Pivot
import MotionScene.Proofs.Timeline.Build

/-!
# Timelines run steadily

Source keyframes may come in any order and lie anywhere on the clock or off it.  The
keyframes that they leave never step back and never leave the unit interval
(`steady_emitKeyframes`), and the first one stands at zero, so every timeline that is built
fits its clock (`fits_buildTimeline`).
-/

namespace MotionScene

/-- Keyframes at percents that never fall below the one before, the first not below a given
percent, and never rise above one; their patches set attributes only. -/
inductive Steady : ℝ → List (Keyframe ℝ) → Prop
  | nil {start : ℝ} : Steady start []
  | cons {start percent : ℝ} {arrival : Option String} {patch : Members ℝ}
      {rest : List (Keyframe ℝ)} (hstart : start ≤ percent) (hone : percent ≤ 1)
      (sets : SetsAttributes patch) (steady : Steady percent rest) :
      Steady start (⟨.real percent, arrival, patch⟩ :: rest)

namespace Steady

variable {start : ℝ} {keyframes : List (Keyframe ℝ)}

theorem sets_of_mem (steady : Steady start keyframes) {keyframe : Keyframe ℝ}
    (h : keyframe ∈ keyframes) : SetsAttributes keyframe.patch := by
  induction steady with
  | nil => cases h
  | cons _ _ sets _ ih =>
      rcases List.mem_cons.mp h with rfl | h
      · exact sets
      · exact ih h

theorem percent_mem (steady : Steady start keyframes) {keyframe : Keyframe ℝ}
    (h : keyframe ∈ keyframes) : keyframe.percent.value ∈ Set.Icc start 1 := by
  induction steady with
  | nil => cases h
  | cons hstart hone _ _ ih =>
      rcases List.mem_cons.mp h with rfl | h
      · exact ⟨hstart, hone⟩
      · obtain ⟨hlow, hhigh⟩ := ih h
        exact ⟨hstart.trans hlow, hhigh⟩

theorem pairwise (steady : Steady start keyframes) :
    (keyframes.map (·.percent.value)).Pairwise (· ≤ ·) := by
  induction steady with
  | nil => exact .nil
  | cons _ _ _ steady ih =>
      refine List.pairwise_cons.mpr ⟨fun later hlater => ?_, ih⟩
      obtain ⟨keyframe, hkeyframe, rfl⟩ := List.mem_map.mp hlater
      exact (steady.percent_mem hkeyframe).1

end Steady

/-! ## Emitted keyframes -/

/-- The percent reached lies in the unit interval and the last patch sets attributes. -/
structure Progress.Steady (progress : Progress ℝ) : Prop where
  percent : progress.percent ∈ Set.Icc 0 1
  sets : ∀ patch, progress.patch? = some patch → SetsAttributes patch

theorem steady_start : Progress.start.Steady where
  percent := by
    show (Scalar.literal 0 : OfNat ℝ 0).ofNat ∈ Set.Icc 0 1
    rw [scalar_literal, Nat.cast_zero]
    exact ⟨le_rfl, zero_le_one⟩
  sets _ h := by cases h

theorem steady_repeated {progress : Progress ℝ} (steady : progress.Steady) {percent start : ℝ}
    (hstart : start ≤ percent) (hone : percent ≤ 1) {later : List (Keyframe ℝ)}
    (hlater : Steady percent later) (hstartLater : Steady start later) :
    Steady start (progress.repeated percent ++ later) := by
  unfold Progress.repeated
  split
  · rename_i before _ hbefore
    exact .cons hstart hone (steady.sets before hbefore) hlater
  · exact hstartLater

/-- The induction is on the source keyframes; the percent reached only rises. -/
theorem steady_emitKeyframes {clock : Clock ℝ} {rule : PatchRule ℝ} (sets : rule.Sets)
    {axis : Int} {progress : Progress ℝ} (steady : progress.Steady)
    {sources : List (SourceKeyframe ℝ)} {emitted : List (Keyframe ℝ)}
    (returned : emitKeyframes clock rule axis progress sources = .ok emitted) :
    Steady progress.percent emitted := by
  induction sources generalizing progress emitted with
  | nil =>
      cases returned
      exact .nil
  | cons source rest ih =>
      rw [emitKeyframes, clock.percent_eq] at returned
      obtain ⟨patch?, hpatch, hrest⟩ := bind_eq_ok.mp returned
      rw [ok_bind, greatest_eq_max] at hrest
      -- frames off the clock are moved to its ends
      have hclamp := clampUnit_mem (clock.position source.frame)
      have hone : max progress.percent (Scalar.clampUnit (clock.position source.frame)) ≤ 1 :=
        max_le steady.percent.2 hclamp.2
      cases patch? with
      | none =>
          -- no keyframe is emitted, so the percent reached stays
          have hkept : Progress.Steady ⟨some source.members,
              progress.startValue source.members, progress.patch?, progress.percent⟩ :=
            ⟨steady.percent, steady.sets⟩
          exact ih hkept hrest
      | some patch =>
          obtain ⟨arrival, -, hrest⟩ := bind_eq_ok.mp hrest
          obtain ⟨later, hlater, hemitted⟩ := bind_eq_ok.mp hrest
          obtain rfl := pure_eq_ok.mp hemitted
          have hpatchSets : SetsAttributes patch := by
            unfold PatchRule.patch? at hpatch
            split at hpatch
            · cases hpatch
            · exact sets _ _ hpatch
          have hreached : Progress.Steady ⟨some source.members,
              progress.startValue source.members, some patch,
              max progress.percent (Scalar.clampUnit (clock.position source.frame))⟩ := by
            refine ⟨⟨le_max_of_le_left steady.percent.1, hone⟩, fun other hother => ?_⟩
            cases hother
            exact hpatchSets
          have hsteady := ih hreached hlater
          -- a repeated value stands where the keyframe after it does
          exact steady_repeated steady (le_max_left _ _) hone (.cons le_rfl hone hpatchSets hsteady)
            (.cons (le_max_left _ _) hone hpatchSets hsteady)

/-! ## Built timelines -/

/-- A timeline that starts at zero, runs steadily and keeps the time of a clock. -/
structure Timeline.Fits (clock : Clock ℝ) (timeline : Timeline ℝ) : Prop where
  steady : Steady 0 timeline.keyframes
  startsAtZero : timeline.keyframes.head?.map (·.percent.value) = some 0
  duration : clock.duration = .ok timeline.duration.value
  delay : clock.delay = .ok timeline.delay.value
  loop : timeline.loop = clock.options.loop

theorem steady_startAtOnce {keyframes started : List (Keyframe ℝ)} (steady : Steady 0 keyframes)
    (nonempty : keyframes ≠ []) (returned : startAtOnce keyframes = .ok started) :
    Steady 0 started ∧ started.head?.map (·.percent.value) = some 0 := by
  cases steady with
  | nil => exact absurd rfl nonempty
  | @cons _ percent arrival patch rest hstart hone sets hrest =>
      have hnone : patch.get? "percent" = none := sets "percent" (by decide)
      have hlate : Keyframe.startsLate ⟨.real percent, arrival, patch⟩ =
          .ok (Number.real percent).isPositive := by
        rw [Keyframe.startsLate, hnone]
      rw [startAtOnce, hlate, ok_bind, attributes_eq sets, scalar_literal, Nat.cast_zero] at returned
      split at returned
      · cases returned
        exact ⟨.cons le_rfl zero_le_one sets (.cons hstart hone sets hrest), rfl⟩
      · rename_i hzero
        cases returned
        have hle : percent ≤ 0 := not_lt.mp fun h => hzero ((Number.isPositive_iff _).mpr h)
        exact ⟨.cons hstart hone sets hrest, congrArg some (le_antisymm hle hstart)⟩

theorem fits_buildTimeline {keyframes : List (Value ℝ)} {rule : PatchRule ℝ} (sets : rule.Sets)
    {clock : Clock ℝ} {axis : Int} {timeline : Timeline ℝ}
    (returned : buildTimeline keyframes rule clock axis = .ok (some timeline)) :
    timeline.Fits clock := by
  obtain ⟨first, rest, started, duration, delay, hemitted, hstarted, hduration, hdelay, rfl⟩ :=
    buildTimeline_eq_some.mp returned
  have hsteady := steady_emitKeyframes sets steady_start hemitted
  have hzero : Progress.start.percent = (0 : ℝ) := (scalar_literal 0).trans Nat.cast_zero
  rw [hzero] at hsteady
  obtain ⟨hrun, hhead⟩ := steady_startAtOnce hsteady (List.cons_ne_nil _ _) hstarted
  exact ⟨hrun, hhead, hduration, hdelay, rfl⟩

/-! ## Timelines of an anchor -/

section Retarget

variable {R : Type} {patch : Members R}

theorem SetsAttributes.erase (sets : SetsAttributes patch) (key : String) :
    SetsAttributes (patch.erase key) := by
  intro own hown
  by_cases h : key = own
  · rw [h, Members.get?_erase_self]
  · rw [Members.get?_erase_of_ne _ h]
    exact sets own hown

theorem SetsAttributes.set (sets : SetsAttributes patch) {key : String}
    (h : key ∉ Keyframe.ownKeys) (value : Value R) : SetsAttributes (patch.set key value) := by
  intro own hown
  have hne : key ≠ own := by
    rintro rfl
    exact h hown
  rw [Members.get?_set_of_ne _ _ hne]
  exact sets own hown

theorem retargetPatch_sets [Scalar R] {result : Members R} (sets : SetsAttributes patch)
    (returned : retargetPatch patch = .ok result) : SetsAttributes result := by
  refine foldlM_induction returned sets fun key hkey before after hbefore hafter => ?_
  have hown : key.2 ∉ Keyframe.ownKeys := by
    have hcases : ∀ key ∈ anchorKeys, key.2 ∉ Keyframe.ownKeys := by decide
    exact hcases key hkey
  split at hafter
  · cases hafter
    exact hbefore
  · obtain ⟨opposed, -, hafter⟩ := bind_eq_ok.mp hafter
    cases hafter
    exact (hbefore.erase key.1).set hown _

end Retarget

theorem Steady.retarget {start : ℝ} {keyframes results : List (Keyframe ℝ)}
    (steady : Steady start keyframes)
    (returned : List.Forall₂ (fun keyframe result => ∃ patch,
      retargetPatch keyframe.patch = .ok patch ∧ result = { keyframe with patch })
      keyframes results) :
    Steady start results ∧ results.head?.map (·.percent) = keyframes.head?.map (·.percent) := by
  induction returned generalizing start with
  | nil => exact ⟨.nil, rfl⟩
  | cons hfirst _ ih =>
      cases steady with
      | cons hstart hone sets hrest =>
          obtain ⟨patch, hpatch, rfl⟩ := hfirst
          exact ⟨.cons hstart hone (retargetPatch_sets sets hpatch) (ih hrest).1, rfl⟩

theorem Timeline.Fits.retarget {clock : Clock ℝ} {timeline result : Timeline ℝ}
    (fits : timeline.Fits clock) (returned : timeline.retarget = .ok result) :
    result.Fits clock := by
  obtain ⟨keyframes, hkeyframes, hresult⟩ := bind_eq_ok.mp returned
  cases hresult
  have hsteps : List.Forall₂ (fun keyframe result => ∃ patch,
      retargetPatch keyframe.patch = .ok patch ∧ result = { keyframe with patch })
      timeline.keyframes keyframes := by
    refine (mapM_eq_ok.mp hkeyframes).imp fun keyframe result h => ?_
    obtain ⟨patch, hpatch, hpure⟩ := bind_eq_ok.mp h
    exact ⟨patch, hpatch, (pure_eq_ok.mp hpure).symm⟩
  obtain ⟨hsteady, hhead⟩ := fits.steady.retarget hsteps
  refine ⟨hsteady, ?_, fits.duration, fits.delay, fits.loop⟩
  rw [← fits.startsAtZero, ← Function.comp_def Number.value, ← Option.map_map, hhead,
    Option.map_map]

end MotionScene
