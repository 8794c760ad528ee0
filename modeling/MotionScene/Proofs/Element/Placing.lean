import MotionScene.Proofs.Timeline.Tracks

/-!
# What a body shows

A transform writes numbers and tracks (`placing_composeTransform`).  What such a body shows
under a key at some percent is the number of the last track of that key, else that of its
attribute (`get?_shown`).
-/

namespace MotionScene

/-! ## Placing bodies -/

/-- The attributes that a transform writes. -/
def placingKeys : List String := transformKeys ++ anchorKeys.map (·.1)

theorem notMem_ownKeys {key : String} (h : key ∈ placingKeys) : key ∉ Keyframe.ownKeys := by
  have hall : ∀ key ∈ placingKeys, key ∉ Keyframe.ownKeys := by decide
  exact hall key h

/-- A body whose attributes are numbers and whose timelines are tracks of placing keys. -/
structure Body.Placing {R : Type} (body : Body R) : Prop where
  numbers : ∀ entry ∈ body.attributes, ∃ n, entry.2 = .num n
  tracks : ∀ timeline ∈ body.timelines, ∃ key ∈ placingKeys, Tracks key timeline.keyframes

section Placing

variable {R : Type} [Scalar R] {clock : Clock R}

omit [Scalar R] in
theorem placing_empty : (Body.empty : Body R).Placing where
  numbers _ h := by cases h
  tracks _ h := by cases h

theorem numbers_writeAxes {content : Value R} {conversion : Conversion} {axis : Nat}
    {axes : List String} {attributes result : Members R}
    (numbers : ∀ entry ∈ attributes, ∃ n, entry.2 = .num n)
    (returned : writeAxes content "" conversion axis axes attributes = .ok result) :
    ∀ entry ∈ result, ∃ n, entry.2 = .num n := by
  induction axes generalizing axis attributes with
  | nil =>
      cases returned
      exact numbers
  | cons name rest ih =>
      obtain ⟨component?, -, hrest⟩ := bind_eq_ok.mp returned
      cases component? with
      | none => exact ih numbers hrest
      | some n =>
          obtain ⟨value, -, hrest⟩ := bind_eq_ok.mp hrest
          obtain ⟨written, hwritten, hrest⟩ := bind_eq_ok.mp hrest
          cases hwritten
          refine ih (fun entry h => ?_) hrest
          rcases Members.mem_set h with rfl | h
          · exact ⟨value, rfl⟩
          · exact numbers entry h

theorem tracks_axisTimelines {keyframes : List (Value R)} {conversion : Conversion} {axis : Nat}
    {axes : List String} (haxes : ∀ name ∈ axes, name ∈ placingKeys)
    {timelines : List (Timeline R)}
    (returned : axisTimelines keyframes "" conversion clock axis axes = .ok timelines) :
    ∀ timeline ∈ timelines, ∃ key ∈ placingKeys, Tracks key timeline.keyframes := by
  induction axes generalizing axis timelines with
  | nil =>
      cases returned
      exact fun _ h => nomatch h
  | cons name rest ih =>
      obtain ⟨timeline?, htimeline, hrest⟩ := bind_eq_ok.mp returned
      obtain ⟨later, hlater, hpure⟩ := bind_eq_ok.mp hrest
      obtain rfl := pure_eq_ok.mp hpure
      have hname := haxes name List.mem_cons_self
      refine List.forall_mem_append.mpr ⟨fun timeline h => ?_, ?_⟩
      · obtain rfl := Option.mem_toList.mp h
        exact ⟨name, hname, tracks_buildTimeline (notMem_ownKeys hname) htimeline⟩
      · exact ih (fun name h => haxes name (List.mem_cons_of_mem _ h)) hlater

theorem placing_resolve {property : Value R} {axes : List String} {conversion : Conversion}
    {body result : Body R} (placing : body.Placing) (haxes : ∀ name ∈ axes, name ∈ placingKeys)
    (returned : resolve property "" axes conversion clock body = .ok result) :
    result.Placing := by
  unfold resolve at returned
  split at returned
  · obtain ⟨attributes, hattributes, hpure⟩ := bind_eq_ok.mp returned
    obtain rfl := pure_eq_ok.mp hpure
    exact ⟨numbers_writeAxes placing.numbers hattributes, placing.tracks⟩
  · split at returned
    · obtain ⟨timelines, htimelines, hpure⟩ := bind_eq_ok.mp returned
      obtain rfl := pure_eq_ok.mp hpure
      refine ⟨placing.numbers, List.forall_mem_append.mpr ⟨placing.tracks, ?_⟩⟩
      exact tracks_axisTimelines haxes htimelines
    · cases returned
      exact placing

theorem placing_composeTransform {transform : Value R} {body : Body R}
    (returned : composeTransform transform clock = .ok body) : body.Placing := by
  unfold composeTransform at returned
  split at returned
  · obtain ⟨placed, hplaced, hrest⟩ := bind_eq_ok.mp returned
    obtain ⟨scaled, hscaled, hrest⟩ := bind_eq_ok.mp hrest
    obtain ⟨turned, hturned, hrest⟩ := bind_eq_ok.mp hrest
    have hplaced : placed.Placing := by
      unfold resolvePosition at hplaced
      split at hplaced
      · obtain ⟨middle, hmiddle, hplaced⟩ := bind_eq_ok.mp hplaced
        exact placing_resolve (placing_resolve placing_empty (by decide) hmiddle) (by decide)
          hplaced
      · exact placing_resolve placing_empty (by decide) hplaced
    have hscaled := placing_resolve hplaced (by decide) hscaled
    have hturned := placing_resolve hscaled (by decide) hturned
    exact placing_resolve hturned (by decide) hrest
  · cases returned
    exact placing_empty

theorem placing_withTransform {children : List (Element R)} {name? : Option String}
    {transform : Value R} {placed : Element R}
    (returned : (Element.group children name?).withTransform transform clock = .ok placed) :
    placed.body.Placing ∧ placed.children? = some children ∧ placed.name? = name? := by
  obtain ⟨body, hbody, hpure⟩ := bind_eq_ok.mp returned
  obtain rfl := pure_eq_ok.mp hpure
  have placing := placing_composeTransform hbody
  refine ⟨⟨fun entry h => ?_, placing.tracks⟩, rfl, rfl⟩
  rcases Members.mem_merge h with h | h
  · exact placing.numbers entry h
  · cases h

end Placing

/-! ## Shown attributes -/

/-- The attributes that a body shows at a percent: those of its timelines over its own. -/
noncomputable def Body.shown (curve : Option String → ℝ → ℝ) (body : Body ℝ) (percent : ℝ) :
    Members ℝ :=
  body.timelines.foldl (fun shown timeline =>
    shown.merge (sample (blendNumbers curve) timeline.keyframes percent)) body.attributes

/-- What timelines show under a key at a percent, over what is shown before. -/
noncomputable def showing (curve : Option String → ℝ → ℝ) (percent : ℝ) (key : String)
    (timelines : List (Timeline ℝ)) (before? : Option (Value ℝ)) : Option (Value ℝ) :=
  timelines.foldl (fun shown? timeline =>
    (Members.get? (sample (blendNumbers curve) timeline.keyframes percent) key).or shown?) before?

section Showing

variable {curve : Option String → ℝ → ℝ} {percent : ℝ} {key : String}
  {timelines : List (Timeline ℝ)} {before? : Option (Value ℝ)}

theorem get?_sample_of_ne {own : String} (hown : own ∈ placingKeys) {timeline : Timeline ℝ}
    (tracks : Tracks own timeline.keyframes) (hne : own ≠ key) :
    Members.get? (sample (blendNumbers curve) timeline.keyframes percent) key = none := by
  obtain ⟨n, hsample⟩ := sample_tracks (notMem_ownKeys hown) tracks curve percent
  rw [hsample, Members.get?_cons, if_neg hne, Members.get?_nil]

/-- What is shown under a key comes from the last timeline that shows something there. -/
theorem get?_shown {body : Body ℝ} (placing : body.Placing) :
    (body.shown curve percent).get? key =
      showing curve percent key body.timelines (Members.get? body.attributes key) := by
  obtain ⟨attributes, timelines⟩ := body
  have htracks := placing.tracks
  rw [Body.shown, showing]
  clear placing
  induction timelines generalizing attributes with
  | nil => rfl
  | cons timeline rest ih =>
      obtain ⟨hfirst, hrest⟩ := List.forall_mem_cons.mp htracks
      obtain ⟨own, hown, tracks⟩ := hfirst
      obtain ⟨n, hsample⟩ := sample_tracks (notMem_ownKeys hown) tracks curve percent
      rw [List.foldl_cons, List.foldl_cons, ih _ hrest]
      congr 1
      rw [hsample, Members.get?_cons]
      show (attributes.set own (.num n)).get? key = _
      by_cases hkey : own = key
      · rw [hkey, Members.get?_set_self, if_pos rfl, Option.some_or]
      · rw [Members.get?_set_of_ne _ _ hkey, if_neg hkey, Members.get?_nil, Option.none_or]

theorem showing_of_none (hnone : ∀ timeline ∈ timelines,
    Members.get? (sample (blendNumbers curve) timeline.keyframes percent) key = none) :
    showing curve percent key timelines before? = before? := by
  rw [showing]
  induction timelines with
  | nil => rfl
  | cons timeline rest ih =>
      obtain ⟨hfirst, hrest⟩ := List.forall_mem_cons.mp hnone
      rw [List.foldl_cons, hfirst, Option.none_or, ih hrest]

/-- Timelines that show nothing under a key may be left out. -/
theorem showing_filter (keep : Timeline ℝ → Bool)
    (hnone : ∀ timeline ∈ timelines, keep timeline = false →
      Members.get? (sample (blendNumbers curve) timeline.keyframes percent) key = none) :
    showing curve percent key (timelines.filter keep) before? =
      showing curve percent key timelines before? := by
  rw [showing, showing]
  induction timelines generalizing before? with
  | nil => rfl
  | cons timeline rest ih =>
      obtain ⟨hfirst, hrest⟩ := List.forall_mem_cons.mp hnone
      rw [List.foldl_cons]
      by_cases hkeep : keep timeline = true
      · rw [List.filter_cons_of_pos hkeep, List.foldl_cons, ih hrest]
      · rw [List.filter_cons_of_neg hkeep, hfirst (Bool.eq_false_iff.mpr hkeep), Option.none_or,
          ih hrest]

end Showing

end MotionScene
