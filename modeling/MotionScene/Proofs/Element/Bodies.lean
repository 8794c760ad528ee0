import MotionScene.Element.Pivot
import MotionScene.Proofs.Outcome
import MotionScene.Proofs.Timeline.Rules

/-!
# Timelines of bodies

A property of timelines is `Kept` by a clock if all timelines that are built have it, with
the frames of the clock shifted in any way, and taking an anchor apart does not lose it.
Whatever is written onto a body, all its timelines then have the property (`Carries`).
-/

namespace MotionScene

variable {R : Type} [Scalar R] {root clock : Clock R} {good : Timeline R → Prop}

/-- A property of timelines that holds of all that are built and is not lost later. -/
structure Kept (root : Clock R) (good : Timeline R → Prop) : Prop where
  built : ∀ offset keyframes (rule : PatchRule R) axis timeline, rule.Sets →
    buildTimeline keyframes rule { root with offset } axis = .ok (some timeline) → good timeline
  retargeted : ∀ timeline result, good timeline → Timeline.retarget timeline = .ok result →
    good result

/-- A clock that differs from another one by its offset only. -/
def Clock.Shifts (root clock : Clock R) : Prop :=
  ∃ offset, clock = { root with offset }

omit [Scalar R] in
theorem Clock.shifts_self (root : Clock R) : root.Shifts root :=
  ⟨root.offset, rfl⟩

theorem Clock.Shifts.shifted (shifts : root.Shifts clock) {frames : Number R} {later : Clock R}
    (returned : clock.shifted frames = .ok later) : root.Shifts later := by
  obtain ⟨offset, rfl⟩ := shifts
  obtain ⟨total, -, hlater⟩ := bind_eq_ok.mp returned
  cases hlater
  exact ⟨total, rfl⟩

theorem Kept.buildTimeline (kept : Kept root good) (shifts : root.Shifts clock)
    {keyframes : List (Value R)} {rule : PatchRule R} (sets : rule.Sets) {axis : Int}
    {timeline : Timeline R}
    (returned : MotionScene.buildTimeline keyframes rule clock axis = .ok (some timeline)) :
    good timeline := by
  obtain ⟨offset, rfl⟩ := shifts
  exact kept.built _ _ _ _ _ sets returned

/-- All timelines of a body have a property. -/
def Body.Carries (good : Timeline R → Prop) (body : Body R) : Prop :=
  ∀ timeline ∈ body.timelines, good timeline

namespace Body

omit [Scalar R] in
theorem carries_empty : Carries good empty := by
  intro timeline h
  cases h

omit [Scalar R] in
theorem Carries.append {body : Body R} (carries : body.Carries good)
    {more : List (Timeline R)} (hmore : ∀ timeline ∈ more, good timeline) :
    Carries good { body with timelines := body.timelines ++ more } := by
  intro timeline h
  rcases List.mem_append.mp h with h | h
  · exact carries timeline h
  · exact hmore timeline h

end Body

/-! ## Properties -/

section Properties

variable (kept : Kept root good) (shifts : root.Shifts clock)

include kept shifts

theorem axisTimelines_carry {keyframes : List (Value R)} {target : String}
    {conversion : Conversion} {axis : Nat} {axes : List String} {timelines : List (Timeline R)}
    (htarget : target ∉ Keyframe.ownKeys) (haxes : ∀ name ∈ axes, name ∉ Keyframe.ownKeys)
    (returned : axisTimelines keyframes target conversion clock axis axes = .ok timelines) :
    ∀ timeline ∈ timelines, good timeline := by
  induction axes generalizing axis timelines with
  | nil =>
      cases returned
      exact fun _ h => nomatch h
  | cons name rest ih =>
      obtain ⟨timeline?, htimeline, hrest⟩ := bind_eq_ok.mp returned
      obtain ⟨later, hlater, hpure⟩ := bind_eq_ok.mp hrest
      obtain rfl := pure_eq_ok.mp hpure
      intro timeline h
      rcases List.mem_append.mp h with h | h
      · obtain rfl := Option.mem_toList.mp h
        have hname := haxes name List.mem_cons_self
        exact kept.buildTimeline shifts (axisRule_sets htarget hname conversion axis) htimeline
      · exact ih (fun name hname => haxes name (List.mem_cons_of_mem _ hname)) hlater timeline h

theorem resolve_carries {property : Value R} {target : String} {axes : List String}
    {conversion : Conversion} {body result : Body R} (carries : body.Carries good)
    (htarget : target ∉ Keyframe.ownKeys) (haxes : ∀ name ∈ axes, name ∉ Keyframe.ownKeys)
    (returned : resolve property target axes conversion clock body = .ok result) :
    result.Carries good := by
  unfold resolve at returned
  split at returned
  · obtain ⟨attributes, -, hpure⟩ := bind_eq_ok.mp returned
    obtain rfl := pure_eq_ok.mp hpure
    exact carries
  · split at returned
    · obtain ⟨timelines, htimelines, hpure⟩ := bind_eq_ok.mp returned
      obtain rfl := pure_eq_ok.mp hpure
      exact carries.append (axisTimelines_carry kept shifts htarget haxes htimelines)
    · cases returned
      exact carries

theorem resolveColor_carries {property : Value R} {target name : String}
    {body result : Body R} (carries : body.Carries good)
    (htarget : target ∉ Keyframe.ownKeys) (hname : name ∉ Keyframe.ownKeys)
    (returned : resolveColor property target name clock body = .ok result) :
    result.Carries good := by
  unfold resolveColor at returned
  split at returned
  · obtain ⟨color, -, hrest⟩ := bind_eq_ok.mp returned
    obtain ⟨attributes, -, hpure⟩ := bind_eq_ok.mp hrest
    obtain rfl := pure_eq_ok.mp hpure
    exact carries
  · split at returned
    · obtain ⟨timeline?, htimeline, hpure⟩ := bind_eq_ok.mp returned
      obtain rfl := pure_eq_ok.mp hpure
      refine carries.append fun timeline h => ?_
      obtain rfl := Option.mem_toList.mp h
      exact kept.buildTimeline shifts (colorRule_sets htarget hname) htimeline
    · cases returned
      exact carries

theorem pathBody_carries {property : Value R} {result : Body R}
    (returned : pathBody property clock = .ok result) : result.Carries good := by
  unfold pathBody at returned
  split at returned
  · cases returned
    exact fun _ h => nomatch h
  · obtain ⟨timeline?, htimeline, hrest⟩ := bind_eq_ok.mp returned
    cases timeline? with
    | none =>
        cases hrest
        exact fun _ h => nomatch h
    | some timeline =>
        cases hrest
        intro other hother
        obtain rfl := List.mem_singleton.mp hother
        unfold pathTimeline at htimeline
        split at htimeline
        · exact kept.buildTimeline shifts pathRule_sets htimeline
        · cases htimeline

theorem resolvePosition_carries {position : Value R} {body result : Body R}
    (carries : body.Carries good) (returned : resolvePosition position clock body = .ok result) :
    result.Carries good := by
  unfold resolvePosition at returned
  split at returned
  · obtain ⟨middle, hmiddle, hrest⟩ := bind_eq_ok.mp returned
    have hcarries := resolve_carries kept shifts carries (by decide) (by decide) hmiddle
    exact resolve_carries kept shifts hcarries (by decide) (by decide) hrest
  · exact resolve_carries kept shifts carries (by decide) (by decide) returned

theorem composeTransform_carries {transform : Value R} {result : Body R}
    (returned : composeTransform transform clock = .ok result) : result.Carries good := by
  unfold composeTransform at returned
  split at returned
  · obtain ⟨placed, hplaced, hrest⟩ := bind_eq_ok.mp returned
    obtain ⟨scaled, hscaled, hrest⟩ := bind_eq_ok.mp hrest
    obtain ⟨turned, hturned, hrest⟩ := bind_eq_ok.mp hrest
    have hplaced := resolvePosition_carries kept shifts Body.carries_empty hplaced
    have hscaled := resolve_carries kept shifts hplaced (by decide) (by decide) hscaled
    have hturned := resolve_carries kept shifts hscaled (by decide) (by decide) hturned
    exact resolve_carries kept shifts hturned (by decide) (by decide) hrest
  · cases returned
    exact Body.carries_empty

theorem withTransform_carries {element result : Element R} {transform : Value R}
    (carries : element.body.Carries good)
    (returned : element.withTransform transform clock = .ok result) :
    result.body.Carries good ∧ result.children? = element.children? := by
  obtain ⟨body, hbody, hpure⟩ := bind_eq_ok.mp returned
  obtain rfl := pure_eq_ok.mp hpure
  refine ⟨?_, rfl⟩
  exact carries.append (composeTransform_carries kept shifts hbody)

end Properties

/-! ## Anchors -/

theorem splitAtAnchor_carries (kept : Kept root good) {body wrapper inner : Body R}
    (carries : body.Carries good) (returned : body.splitAtAnchor = .ok (wrapper, inner)) :
    wrapper.Carries good ∧ inner.Carries good := by
  obtain ⟨attributes, -, hrest⟩ := bind_eq_ok.mp returned
  obtain ⟨timelines, htimelines, hpure⟩ := bind_eq_ok.mp hrest
  cases hpure
  refine ⟨fun timeline h => carries timeline (List.mem_of_mem_filter h), fun timeline h => ?_⟩
  -- inside the anchor a timeline is one of the body, retargeted if it moves the anchor
  obtain ⟨before, hbefore, hstep⟩ := exists_of_mem_right (mapM_eq_ok.mp htimelines) h
  have hgood := carries before (List.mem_of_mem_filter hbefore)
  split at hstep
  · exact kept.retargeted before timeline hgood hstep
  · cases hstep
    exact hgood

end MotionScene
