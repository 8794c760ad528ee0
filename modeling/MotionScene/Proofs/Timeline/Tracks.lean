import MotionScene.Proofs.Timeline.Animated
import MotionScene.Proofs.Timeline.Steady

/-!
# Tracks

The timeline of an axis sets one attribute to numbers (`tracks_buildTimeline`).  Playing
such a track blends its numbers, and where all numbers of a track are a multiple of those
of another one, so is every number that it shows (`sample_rescaled`).  Retargeting the
track of an anchor turns it into the opposite track of a position (`exists_retarget`).
-/

namespace MotionScene

/-! ## Tracks -/

section Tracks

variable {R : Type}

/-- A patch that sets one attribute to a number. -/
def SetsNumber (key : String) (patch : Members R) : Prop :=
  ∃ n, patch = [(key, .num n)]

theorem SetsNumber.sets {key : String} (hkey : key ∉ Keyframe.ownKeys) {patch : Members R}
    (h : SetsNumber key patch) : SetsAttributes patch := by
  obtain ⟨n, rfl⟩ := h
  exact setsAttributes_singleton hkey _

/-- Keyframes, at least one, that all set one attribute to a number. -/
structure Tracks (key : String) (keyframes : List (Keyframe R)) : Prop where
  nonempty : keyframes ≠ []
  sets : ∀ keyframe ∈ keyframes, SetsNumber key keyframe.patch

theorem axisRule_setsNumber [Scalar R] {key : String} {conversion : Conversion} {axis : Int}
    {value : Value R} {patch : Members R}
    (returned : axisRule "" key conversion axis value = .ok (some patch)) :
    SetsNumber key patch := by
  obtain ⟨component?, -, hrest⟩ := bind_eq_ok.mp returned
  cases component? with
  | none => cases hrest
  | some n =>
      obtain ⟨converted, -, hrest⟩ := bind_eq_ok.mp hrest
      cases hrest
      exact ⟨converted, rfl⟩

theorem tracks_buildTimeline [Scalar R] {key : String} (hkey : key ∉ Keyframe.ownKeys)
    {keyframes : List (Value R)} {conversion : Conversion} {clock : Clock R} {axis own : Int}
    {timeline : Timeline R}
    (returned : buildTimeline keyframes (axisRule "" key conversion axis) clock own =
      .ok (some timeline)) : Tracks key timeline.keyframes := by
  have hrule : (axisRule "" key conversion axis : PatchRule R).Sets :=
    axisRule_sets (by decide) hkey conversion axis
  obtain ⟨nonempty, hsets⟩ :=
    good_buildTimeline hrule (fun _ _ => axisRule_setsNumber) returned
  exact ⟨nonempty, hsets⟩

/-- A track touches its attribute and no other. -/
theorem Tracks.touches {key : String} {timeline : Timeline R}
    (tracks : Tracks key timeline.keyframes) (hkey : key ∉ Keyframe.ownKeys) (keys : List String) :
    timeline.touches keys = keys.contains key := by
  refine Timeline.touches_eq (Timeline.touchedKeys_eq hkey tracks.nonempty fun keyframe h => ?_) keys
  obtain ⟨n, hpatch⟩ := tracks.sets keyframe h
  rw [hpatch]
  rfl

end Tracks

/-! ## Playing tracks -/

/-- Numbers approach each other along a curve; all other values jump. -/
noncomputable def blendNumbers (curve : Option String → ℝ → ℝ) : Blend :=
  fun easing fraction before after => after.map fun entry =>
    match before.get? entry.1, entry.2 with
    | some (.num a), .num b =>
      (entry.1, .num (.real (a.value + (b.value - a.value) * curve easing fraction)))
    | _, value => (entry.1, value)

theorem blendNumbers_singleton (curve : Option String → ℝ → ℝ) (easing : Option String)
    (fraction : ℝ) (key : String) (a b : Number ℝ) :
    blendNumbers curve easing fraction [(key, .num a)] [(key, .num b)] =
      [(key, .num (.real (a.value + (b.value - a.value) * curve easing fraction)))] := by
  simp [blendNumbers, Members.get?_cons]

/-- A keyframe that sets an attribute to a multiple of the number to which another keyframe
sets another one, at the same percent and along the same easing. -/
structure Rescaled (factor : ℝ) (key other : String) (keyframe result : Keyframe ℝ) : Prop where
  percent : result.percent = keyframe.percent
  easing : result.easing = keyframe.easing
  patch : ∃ n m : Number ℝ, keyframe.patch = [(key, .num n)] ∧ result.patch = [(other, .num m)] ∧
    m.value = factor * n.value

section Rescaled

variable {factor : ℝ} {key other : String}

theorem Rescaled.shown {keyframe result : Keyframe ℝ} (hkey : key ∉ Keyframe.ownKeys)
    (hother : other ∉ Keyframe.ownKeys) (h : Rescaled factor key other keyframe result) :
    result.shownPercent = keyframe.shownPercent ∧ result.shownEasing = keyframe.shownEasing ∧
      keyframe.attributes = keyframe.patch ∧ result.attributes = result.patch := by
  obtain ⟨n, m, hpatch, hresult, -⟩ := h.patch
  have hsets : SetsAttributes keyframe.patch := SetsNumber.sets hkey ⟨n, hpatch⟩
  have hsets' : SetsAttributes result.patch := SetsNumber.sets hother ⟨m, hresult⟩
  obtain ⟨percent, easing, patch⟩ := keyframe
  obtain ⟨percent', easing', patch'⟩ := result
  obtain rfl : percent' = percent := h.percent
  obtain rfl : easing' = easing := h.easing
  refine ⟨?_, ?_, attributes_eq hsets _ _, attributes_eq hsets' _ _⟩
  · rw [shownPercent_eq hsets, shownPercent_eq hsets']
  · rw [shownEasing_eq hsets, shownEasing_eq hsets']

/-- Playing keyframes with multiples of numbers shows multiples of the numbers shown; the
induction is on the keyframes that are passed. -/
theorem sample_rescaled (hkey : key ∉ Keyframe.ownKeys) (hother : other ∉ Keyframe.ownKeys)
    {keyframes results : List (Keyframe ℝ)}
    (rescaled : List.Forall₂ (Rescaled factor key other) keyframes results)
    (nonempty : keyframes ≠ []) (curve : Option String → ℝ → ℝ) (percent : ℝ) :
    ∃ n m : Number ℝ, sample (blendNumbers curve) keyframes percent = [(key, .num n)] ∧
      sample (blendNumbers curve) results percent = [(other, .num m)] ∧
      m.value = factor * n.value := by
  induction rescaled with
  | nil => exact absurd rfl nonempty
  | @cons first first' keyframes results hfirst rest ih =>
      obtain ⟨hpercent, -, hown, hown'⟩ := hfirst.shown hkey hother
      obtain ⟨n, m, hpatch, hpatch', hvalue⟩ := hfirst.patch
      cases rest with
      | nil => exact ⟨n, m, hown.trans hpatch, hown'.trans hpatch', hvalue⟩
      | @cons next next' keyframes results hnext rest =>
          obtain ⟨hpercent', heasing, hnextOwn, hnextOwn'⟩ := hnext.shown hkey hother
          obtain ⟨later, later', hlater, hlater', hvalue'⟩ := hnext.patch
          rw [sample, sample, hpercent, hpercent', heasing]
          split
          · exact ih (List.cons_ne_nil _ _)
          · split
            · exact ⟨n, m, hown.trans hpatch, hown'.trans hpatch', hvalue⟩
            · rw [hown, hpatch, hown', hpatch', hnextOwn, hlater, hnextOwn', hlater',
                blendNumbers_singleton, blendNumbers_singleton]
              refine ⟨_, _, rfl, rfl, ?_⟩
              rw [Number.value_real, Number.value_real, hvalue, hvalue']
              ring

/-- A track shows its attribute as a number at every moment. -/
theorem sample_tracks (hkey : key ∉ Keyframe.ownKeys) {keyframes : List (Keyframe ℝ)}
    (tracks : Tracks key keyframes) (curve : Option String → ℝ → ℝ) (percent : ℝ) :
    ∃ n : Number ℝ, sample (blendNumbers curve) keyframes percent = [(key, .num n)] := by
  have hself : List.Forall₂ (Rescaled 1 key key) keyframes keyframes := by
    refine List.forall₂_same.mpr fun keyframe h => ?_
    obtain ⟨n, hpatch⟩ := tracks.sets keyframe h
    exact ⟨rfl, rfl, n, n, hpatch, hpatch, (one_mul _).symm⟩
  obtain ⟨n, -, hsample, -⟩ :=
    sample_rescaled hkey hkey hself tracks.nonempty curve percent
  exact ⟨n, hsample⟩

end Rescaled

/-! ## Retargeted tracks -/

theorem exists_opposite (n : Number ℝ) :
    ∃ m : Number ℝ, opposite (.num n) = .ok (.num m) ∧ m.value = -n.value := by
  by_cases hzero : n.isZero = true
  · have hvalue : n.value = 0 := (Number.isZero_iff n).mp hzero
    refine ⟨.whole 0, ?_, ?_⟩
    · rw [opposite, if_neg]
      simp [Value.holds, hzero]
    · rw [hvalue, neg_zero, Number.value_whole, Int.cast_zero]
  · refine ⟨n.negate, ?_, Number.value_negate n⟩
    rw [opposite, if_pos]
    · rfl
    · simp [Value.holds, hzero]

theorem exists_retargetPatch {key : String × String} (hkey : key ∈ anchorKeys) (n : Number ℝ) :
    ∃ m : Number ℝ, retargetPatch [(key.1, .num n)] = .ok [(key.2, .num m)] ∧
      m.value = -n.value := by
  obtain ⟨m, hopposite, hvalue⟩ := exists_opposite n
  refine ⟨m, ?_, hvalue⟩
  rcases List.mem_cons.mp hkey with rfl | hkey
  · simp [retargetPatch, anchorKeys, Members.get?_cons, hopposite, Members.erase, Members.set]
  · rw [List.mem_singleton.mp hkey]
    simp [retargetPatch, anchorKeys, Members.get?_cons, hopposite, Members.erase, Members.set]

/-- A timeline that shows under the second of two keys the opposite of what another one
shows under the first, at the same time and for as long. -/
structure Opposes (key : String × String) (timeline result : Timeline ℝ) : Prop where
  nonempty : timeline.keyframes ≠ []
  opposed : List.Forall₂ (Rescaled (-1) key.1 key.2) timeline.keyframes result.keyframes
  duration : result.duration = timeline.duration
  delay : result.delay = timeline.delay
  loop : result.loop = timeline.loop

/-- The track of an anchor can be turned into the opposite one of a position. -/
theorem exists_retarget {key : String × String} (hkey : key ∈ anchorKeys) {timeline : Timeline ℝ}
    (tracks : Tracks key.1 timeline.keyframes) :
    ∃ result, timeline.retarget = .ok result ∧ Opposes key timeline result := by
  obtain ⟨keyframes, hkeyframes, hrescaled⟩ : ∃ keyframes,
      (timeline.keyframes.mapM fun keyframe => do
        let patch ← retargetPatch keyframe.patch
        return { keyframe with patch }) = .ok keyframes ∧
      List.Forall₂ (Rescaled (-1) key.1 key.2) timeline.keyframes keyframes := by
    refine exists_mapM_eq_ok fun keyframe h => ?_
    obtain ⟨n, hpatch⟩ := tracks.sets keyframe h
    obtain ⟨m, hretarget, hvalue⟩ := exists_retargetPatch hkey n
    refine ⟨{ keyframe with patch := [(key.2, .num m)] }, ?_, rfl, rfl, n, m, hpatch, rfl, ?_⟩
    · rw [hpatch, hretarget]
      rfl
    · rw [hvalue, neg_one_mul]
  refine ⟨{ timeline with keyframes }, ?_, tracks.nonempty, hrescaled, rfl, rfl, rfl⟩
  rw [Timeline.retarget, hkeyframes]
  rfl

theorem Opposes.tracks {key : String × String} {timeline result : Timeline ℝ}
    (opposes : Opposes key timeline result) : Tracks key.2 result.keyframes where
  nonempty h := by
    have hempty := opposes.opposed
    rw [h] at hempty
    exact opposes.nonempty (List.forall₂_nil_right_iff.mp hempty)
  sets keyframe h := by
    obtain ⟨before, -, hrescaled⟩ := exists_of_mem_right opposes.opposed h
    obtain ⟨-, m, -, hpatch, -⟩ := hrescaled.patch
    exact ⟨m, hpatch⟩

end MotionScene
