import MotionScene.Proofs.Members
import MotionScene.Proofs.Timeline.Clock
import MotionScene.Timeline.Build

/-!
# Playing a timeline

A target that plays a timeline passes from one keyframe to the next along the easing of
the one that it arrives at; of keyframes at one percent the last one counts.  How it
blends two patches is its own affair (`sample` takes that as a parameter).

A `Script` is what source keyframes ask for.  `EmittedAfter` says which keyframes a
script leaves, and `plays_emitted` that sampling them gives what the script asks for.
-/

namespace MotionScene

/-! ## Sampling -/

namespace Keyframe

variable {R : Type}

/-- The number that a keyframe shows as its percent. -/
noncomputable def shownPercent (keyframe : Keyframe ℝ) : ℝ :=
  match keyframe.toMembers.get "percent" with
  | .num percent => percent.value
  | _ => 0

/-- The text that a keyframe shows as its easing. -/
def shownEasing (keyframe : Keyframe R) : Option String :=
  (keyframe.toMembers.get "easing").text?

end Keyframe

/-- How a target passes between two patches: along an easing, by the fraction of the way. -/
abbrev Blend := Option String → ℝ → Members ℝ → Members ℝ → Members ℝ

open scoped Classical in
/-- The attributes that a target shows for a list of keyframes at a percent. -/
noncomputable def sample (blend : Blend) : List (Keyframe ℝ) → ℝ → Members ℝ
  | [], _ => []
  | [last], _ => last.attributes
  | first :: next :: rest, percent =>
    if next.shownPercent ≤ percent then sample blend (next :: rest) percent
    else if percent ≤ first.shownPercent then first.attributes
    else
      blend next.shownEasing
        ((percent - first.shownPercent) / (next.shownPercent - first.shownPercent))
        first.attributes next.attributes

/-- No member of a patch stands where a keyframe shows its own. -/
def SetsAttributes {R : Type} (patch : Members R) : Prop :=
  ∀ key ∈ Keyframe.ownKeys, patch.get? key = none

/-- The patches of a rule set attributes only. -/
def PatchRule.Sets {R : Type} (rule : PatchRule R) : Prop :=
  ∀ value patch, rule value = .ok (some patch) → SetsAttributes patch

section Shown

variable {R : Type} {patch : Members R} (sets : SetsAttributes patch)

include sets

theorem attributes_eq (percent : Number R) (easing : Option String) :
    Keyframe.attributes ⟨percent, easing, patch⟩ = patch := by
  refine List.filter_eq_self.mpr fun entry hentry => ?_
  rw [Bool.not_eq_true', List.contains_eq_mem, decide_eq_false_iff_not]
  intro hown
  exact Members.ne_of_get?_eq_none (sets entry.1 hown) hentry rfl

theorem shownEasing_eq (percent : Number R) (easing : Option String) :
    Keyframe.shownEasing ⟨percent, easing, patch⟩ = easing := by
  have hnone : patch.get? "easing" = none := sets "easing" (by decide)
  rw [Keyframe.shownEasing, Keyframe.toMembers, Members.get,
    Members.get?_merge_of_none hnone]
  cases easing <;> rfl

omit sets in
theorem shownPercent_eq {patch : Members ℝ} (sets : SetsAttributes patch) (percent : Number ℝ)
    (easing : Option String) : Keyframe.shownPercent ⟨percent, easing, patch⟩ = percent.value := by
  have hnone : patch.get? "percent" = none := sets "percent" (by decide)
  rw [Keyframe.shownPercent, Keyframe.toMembers, Members.get,
    Members.get?_merge_of_none hnone]
  cases easing <;> rfl

end Shown

section Sample

variable {blend : Blend} {first second percent : ℝ} {patch next : Members ℝ}
  {easing before : Option String} {rest : List (Keyframe ℝ)}

theorem sample_last (sets : SetsAttributes patch) :
    sample blend [⟨.real first, before, patch⟩] percent = patch :=
  attributes_eq sets _ _

theorem sample_after (sets : SetsAttributes next) (h : second ≤ percent)
    (keyframe : Keyframe ℝ) :
    sample blend (keyframe :: ⟨.real second, easing, next⟩ :: rest) percent =
      sample blend (⟨.real second, easing, next⟩ :: rest) percent := by
  rw [sample, shownPercent_eq sets, Number.value_real, if_pos h]

theorem sample_before (sets : SetsAttributes patch) (hnext : SetsAttributes next)
    (hfirst : percent ≤ first) (hsecond : percent < second) :
    sample blend (⟨.real first, before, patch⟩ :: ⟨.real second, easing, next⟩ :: rest) percent =
      patch := by
  rw [sample, shownPercent_eq sets, shownPercent_eq hnext, Number.value_real, Number.value_real,
    if_neg hsecond.not_ge, if_pos hfirst, attributes_eq sets]

theorem sample_between (sets : SetsAttributes patch) (hnext : SetsAttributes next)
    (hfirst : first < percent) (hsecond : percent < second) :
    sample blend (⟨.real first, before, patch⟩ :: ⟨.real second, easing, next⟩ :: rest) percent =
      blend easing ((percent - first) / (second - first)) patch next := by
  rw [sample, shownPercent_eq sets, shownPercent_eq hnext, Number.value_real, Number.value_real,
    if_neg hsecond.not_ge, if_neg hfirst.not_ge, attributes_eq sets, attributes_eq hnext,
    shownEasing_eq hnext]

end Sample

/-! ## Scripts -/

/-- What resolved source keyframes ask for, by their index: their members, where they stand
on the clock, and the patches of their values. -/
structure Script where
  count : Nat
  members : Nat → Members ℝ
  position : Nat → ℝ
  patch : Nat → Members ℝ

namespace Script

/-- Whether a source keyframe keeps its value until the next one. -/
def IsHeld (script : Script) (index : Nat) : Prop :=
  (script.members index).get "h" |>.same (.num (.whole 1))

/-- Keyframes in order, with patches that leave the members of keyframes alone. -/
structure Ordered (script : Script) : Prop where
  increasing : ∀ index, index + 1 < script.count →
    script.position index < script.position (index + 1)
  sets : ∀ index < script.count, SetsAttributes (script.patch index)

/-- The keyframe of an index, which its values reach along an easing. -/
def keyframe (script : Script) (easing : Option String) (index : Nat) : Keyframe ℝ :=
  ⟨.real (script.position index), easing, script.patch index⟩

/-- The keyframes that a script leaves after the one of an index.  A held value is repeated
where the next one stands. -/
inductive EmittedAfter (script : Script) (axis : Int) : Nat → List (Keyframe ℝ) → Prop
  | last {index : Nat} (h : script.count = index + 1) : EmittedAfter script axis index []
  | held {index : Nat} {later : List (Keyframe ℝ)} (hlt : index + 1 < script.count)
      (held : script.IsHeld index) (rest : EmittedAfter script axis (index + 1) later) :
      EmittedAfter script axis index
        (⟨.real (script.position (index + 1)), none, script.patch index⟩ ::
          script.keyframe none (index + 1) :: later)
  | eased {index : Nat} {later : List (Keyframe ℝ)} {arrival : Option String}
      (hlt : index + 1 < script.count) (free : ¬ script.IsHeld index)
      (heasing : easing (script.members index) (some (script.members (index + 1))) axis =
        .ok arrival)
      (rest : EmittedAfter script axis (index + 1) later) :
      EmittedAfter script axis index (script.keyframe arrival (index + 1) :: later)

/-- What is shown at every percent is what a script asks for. -/
structure PlaysBack (script : Script) (axis : Int) (blend : Blend)
    (shown : ℝ → Members ℝ) : Prop where
  start : ∀ percent ≤ script.position 0, shown percent = script.patch 0
  exact : ∀ index < script.count, shown (script.position index) = script.patch index
  held : ∀ index, index + 1 < script.count → script.IsHeld index →
    ∀ percent, script.position index ≤ percent → percent < script.position (index + 1) →
      shown percent = script.patch index
  eased : ∀ index, index + 1 < script.count → ¬ script.IsHeld index →
    ∃ arrival, easing (script.members index) (some (script.members (index + 1))) axis =
        .ok arrival ∧
      ∀ percent, script.position index < percent → percent < script.position (index + 1) →
        shown percent =
          blend arrival ((percent - script.position index) /
              (script.position (index + 1) - script.position index))
            (script.patch index) (script.patch (index + 1))
  finish : ∀ percent, script.position (script.count - 1) ≤ percent →
    shown percent = script.patch (script.count - 1)

section Playing

variable {script : Script} {axis : Int} {blend : Blend} {index : Nat}
  {later : List (Keyframe ℝ)}

theorem EmittedAfter.lt_count (emitted : script.EmittedAfter axis index later) :
    index < script.count := by
  cases emitted <;> omega

variable (ordered : script.Ordered)

include ordered

theorem position_le {target : Nat} (hle : index ≤ target) (hlt : target < script.count) :
    script.position index ≤ script.position target := by
  induction target, hle using Nat.le_induction with
  | base => exact le_rfl
  | succ target _ ih =>
      exact (ih (Nat.lt_of_succ_lt hlt)).trans (ordered.increasing target hlt).le

/-- From where a source keyframe stands on, only the keyframes after it count: the
induction is on the keyframes that are passed. -/
theorem sample_from {target : Nat} (emitted : script.EmittedAfter axis index later)
    (hle : index ≤ target) (hlt : target < script.count) (blend : Blend)
    (before : Option String) :
    ∃ arrival rest, script.EmittedAfter axis target rest ∧
      ∀ percent, script.position target ≤ percent →
        sample blend (script.keyframe before index :: later) percent =
          sample blend (script.keyframe arrival target :: rest) percent := by
  induction emitted generalizing before with
  | @last index h =>
      obtain rfl : index = target := by omega
      exact ⟨before, [], .last h, fun _ _ => rfl⟩
  | @held index later hnext hheld rest ih =>
      rcases Nat.eq_or_lt_of_le hle with rfl | hpassed
      · exact ⟨before, _, .held hnext hheld rest, fun _ _ => rfl⟩
      · obtain ⟨arrival, tail, htail, hsample⟩ := ih hpassed none
        refine ⟨arrival, tail, htail, fun percent hpercent => ?_⟩
        -- the repeated value and the next keyframe stand at one percent: both are passed
        have hreached := (position_le ordered hpassed hlt).trans hpercent
        rw [sample_after (ordered.sets index (by omega)) hreached, ← hsample percent hpercent]
        exact sample_after (ordered.sets (index + 1) hnext) hreached _
  | @eased index later own hnext hfree heasing rest ih =>
      rcases Nat.eq_or_lt_of_le hle with rfl | hpassed
      · exact ⟨before, _, .eased hnext hfree heasing rest, fun _ _ => rfl⟩
      · obtain ⟨arrival, tail, htail, hsample⟩ := ih hpassed own
        refine ⟨arrival, tail, htail, fun percent hpercent => ?_⟩
        have hreached := (position_le ordered hpassed hlt).trans hpercent
        rw [← hsample percent hpercent]
        exact sample_after (ordered.sets (index + 1) hnext) hreached _

variable {before : Option String} (emitted : script.EmittedAfter axis index later)

include emitted

theorem sample_upTo {percent : ℝ} (h : percent ≤ script.position index) :
    sample blend (script.keyframe before index :: later) percent = script.patch index := by
  have hsets := ordered.sets index emitted.lt_count
  cases emitted with
  | last => exact sample_last hsets
  | held hlt _ _ => exact sample_before hsets hsets h (h.trans_lt (ordered.increasing index hlt))
  | eased hlt _ _ _ =>
      exact sample_before hsets (ordered.sets _ hlt) h (h.trans_lt (ordered.increasing index hlt))

theorem sample_whileHeld (blend_self : ∀ arrival fraction patch,
    blend arrival fraction patch patch = patch) (hlt : index + 1 < script.count)
    (hheld : script.IsHeld index) {percent : ℝ} (h : percent < script.position (index + 1)) :
    sample blend (script.keyframe before index :: later) percent = script.patch index := by
  have hsets := ordered.sets index emitted.lt_count
  rcases le_or_gt percent (script.position index) with hle | hgt
  · exact sample_upTo ordered emitted hle
  · cases emitted with
    | last hlast => omega
    -- between a keyframe and the repetition of its value there is nothing to blend
    | held => exact (sample_between hsets hsets hgt h).trans (blend_self _ _ _)
    | eased _ hfree => exact absurd hheld hfree

theorem sample_eased (blend : Blend) (before : Option String) (hlt : index + 1 < script.count)
    (hfree : ¬ script.IsHeld index) :
    ∃ arrival, easing (script.members index) (some (script.members (index + 1))) axis =
        .ok arrival ∧
      ∀ percent, script.position index < percent → percent < script.position (index + 1) →
        sample blend (script.keyframe before index :: later) percent =
          blend arrival ((percent - script.position index) /
              (script.position (index + 1) - script.position index))
            (script.patch index) (script.patch (index + 1)) := by
  have hsets := ordered.sets index emitted.lt_count
  cases emitted with
  | last hlast => omega
  | held _ hheld => exact absurd hheld hfree
  | eased _ _ heasing =>
      refine ⟨_, heasing, fun percent hfirst hsecond => ?_⟩
      exact sample_between hsets (ordered.sets _ hlt) hfirst hsecond

end Playing

section Playing

variable {script : Script} {axis : Int} {blend : Blend} {later : List (Keyframe ℝ)}
  (ordered : script.Ordered) (emitted : script.EmittedAfter axis 0 later)
  (blend_self : ∀ arrival fraction patch, blend arrival fraction patch patch = patch)

include ordered emitted blend_self

/-- The keyframes of a script play it. -/
theorem plays_emitted (before : Option String) :
    script.PlaysBack axis blend (sample blend (script.keyframe before 0 :: later)) where
  start _ h := sample_upTo ordered emitted h
  exact index hlt := by
    obtain ⟨arrival, rest, hrest, hsample⟩ :=
      sample_from ordered emitted (Nat.zero_le index) hlt blend before
    rw [hsample _ le_rfl]
    exact sample_upTo ordered hrest le_rfl
  held index hlt hheld percent hfirst hsecond := by
    obtain ⟨arrival, rest, hrest, hsample⟩ :=
      sample_from ordered emitted (Nat.zero_le index) (Nat.lt_of_succ_lt hlt) blend before
    rw [hsample _ hfirst]
    exact sample_whileHeld ordered hrest blend_self hlt hheld hsecond
  eased index hlt hfree := by
    obtain ⟨arrival, rest, hrest, hsample⟩ :=
      sample_from ordered emitted (Nat.zero_le index) (Nat.lt_of_succ_lt hlt) blend before
    obtain ⟨own, heasing, hblend⟩ := sample_eased ordered hrest blend arrival hlt hfree
    refine ⟨own, heasing, fun percent hfirst hsecond => ?_⟩
    rw [hsample _ hfirst.le]
    exact hblend percent hfirst hsecond
  finish percent h := by
    have hpos := emitted.lt_count
    obtain ⟨arrival, rest, hrest, hsample⟩ :=
      sample_from ordered emitted (Nat.zero_le (script.count - 1)) (by omega) blend before
    rw [hsample _ h]
    cases hrest with
    | last => exact sample_last (ordered.sets _ (by omega))
    | held hlt => omega
    | eased hlt => omega

/-- A keyframe at the very start that has the values of the first one shows nothing new. -/
theorem sample_startAtOnce (percent : ℝ) :
    sample blend (⟨.real 0, none, script.patch 0⟩ :: script.keyframe none 0 :: later) percent =
      sample blend (script.keyframe none 0 :: later) percent := by
  have hsets := ordered.sets 0 emitted.lt_count
  rcases le_or_gt (script.position 0) percent with hle | hgt
  · exact sample_after hsets hle _
  · rw [sample_upTo ordered emitted hgt.le]
    rcases le_or_gt percent 0 with hstart | hstart
    · exact sample_before hsets hsets hstart hgt
    · exact (sample_between hsets hsets hstart hgt).trans (blend_self _ _ _)

end Playing

end Script

end MotionScene
