import MotionScene.Element.Pivot
import MotionScene.Proofs.Members
import MotionScene.Proofs.Timeline.Build

/-!
# Animated attributes

The attributes of a shape and of its style stand together under one key each; all others
stand with the element.  A timeline animates attributes if each of its keyframes patches
them and nothing else.  Every timeline that is built animates those that its rule names
(`animates_buildTimeline`), so it touches one key only (`Timeline.touchedKeys_eq`), and
retargeting it turns an anchor into a position (`Animates.retarget`).
-/

namespace MotionScene

/-! ## Attributes -/

/-- Where attributes stand: with the element, with its shape or with its style. -/
inductive Target where
  | own
  | shape
  | style
  deriving DecidableEq

/-- The key under which the attributes of a target stand together. -/
def Target.key : Target → String
  | own => ""
  | shape => "shape"
  | style => "style"

/-- The keys of an element that name targets, not attributes. -/
def targetKeys : List String := ["shape", "style"]

/-- An attribute by its target and its name. -/
structure Slot where
  target : Target
  name : String
  deriving DecidableEq

/-- The key of an element under which an attribute is found. -/
def Slot.key : Slot → String
  | ⟨.own, name⟩ => name
  | ⟨target, _⟩ => target.key

section Attributes

variable {R : Type} {members : Members R} {target : Target} {name key : String}
  {value : Value R} {slot : Slot}

namespace Members

/-- The value of an attribute among the members of an element or of a patch. -/
def slot? (members : Members R) : Slot → Option (Value R)
  | ⟨.own, name⟩ => if name ∈ targetKeys then none else members.get? name
  | ⟨target, name⟩ => (members.get target.key).members.get? name

theorem slot?_own (h : name ∉ targetKeys) :
    members.slot? ⟨.own, name⟩ = members.get? name :=
  if_neg h

theorem slot?_under (h : target ≠ .own) :
    members.slot? ⟨target, name⟩ = (members.get target.key).members.get? name := by
  cases target with
  | own => exact absurd rfl h
  | shape | style => rfl

theorem key_mem_of_slot? (h : (members.slot? slot).isSome) : slot.key ∈ members.keys := by
  rw [← isSome_get?_iff]
  obtain ⟨target, name⟩ := slot
  cases target with
  | own =>
      rw [slot?] at h
      split at h
      · cases h
      · exact h
  | shape | style =>
      rw [slot?_under (by decide), get] at h
      cases hget : members.get? (Target.key _) with
      | none =>
          rw [hget] at h
          cases h
      | some found => exact Option.isSome_iff_exists.mpr ⟨found, hget⟩

/-- Writing an attribute of the element leaves all others. -/
theorem slot?_set_own (members : Members R) (h : name ∉ targetKeys) (value : Value R)
    (slot : Slot) : (members.set name value).slot? slot =
      if ⟨.own, name⟩ = slot then some value else members.slot? slot := by
  obtain ⟨target, other⟩ := slot
  have hne : ∀ key ∈ targetKeys, name ≠ key := by
    rintro key hkey rfl
    exact h hkey
  cases target with
  | own =>
      by_cases hother : other ∈ targetKeys
      · simp [slot?, hother, hne other hother]
      · simp [slot?, hother, get?_set]
  | shape =>
      have hkey := get_set_of_ne members value (hne "shape" (by decide))
      simp [slot?, Target.key, hkey]
  | style =>
      have hkey := get_set_of_ne members value (hne "style" (by decide))
      simp [slot?, Target.key, hkey]

/-- Writing the members of a target leaves all attributes elsewhere. -/
theorem slot?_set_target (members : Members R) (h : target ≠ .own) (values : Members R)
    (slot : Slot) : (members.set target.key (.object values)).slot? slot =
      if target = slot.target then values.get? slot.name
      else members.slot? slot := by
  obtain ⟨other, name⟩ := slot
  have hkey : target.key ∈ targetKeys := by
    cases target with
    | own => exact absurd rfl h
    | shape | style => decide
  cases other with
  | own =>
      rw [if_neg h]
      by_cases hname : name ∈ targetKeys
      · simp [slot?, hname]
      · have hne : target.key ≠ name := fun heq => hname (heq ▸ hkey)
        simp [slot?, hname, get?_set_of_ne members _ hne]
  | shape | style =>
      cases target <;>
        simp_all [slot?, Target.key, get, get?_set, Value.members, Value.members?]

theorem slot?_nil : slot? ([] : Members R) slot = none := by
  obtain ⟨target, name⟩ := slot
  cases target with
  | own => exact ite_self none
  | shape | style => rfl

/-- A patch under a target sets one attribute. -/
theorem slot?_underTarget (h : target = .own → name ∉ targetKeys) :
    (underTarget target.key name value).slot? slot =
      if ⟨target, name⟩ = slot then some value else none := by
  by_cases hown : target = .own
  · subst hown
    have hset := slot?_set_own [] (h rfl) value slot
    rwa [slot?_nil] at hset
  · have hset := slot?_set_target [] hown [(name, value)] slot
    have hpatch : underTarget target.key name value =
        set [] target.key (.object [(name, value)]) := by
      cases target with
      | own => exact absurd rfl hown
      | shape | style => rfl
    obtain ⟨other, second⟩ := slot
    rw [hpatch, hset, slot?_nil]
    simp only [Slot.mk.injEq, ite_and, get?_cons, get?_nil]

end Members

end Attributes

/-! ## Patches of emitted keyframes -/

section Emitted

variable {R : Type} [Scalar R] {clock : Clock R} {rule : PatchRule R} {axis : Int}
  {good : Members R → Prop}

theorem good_of_mem_repeated {progress : Progress R} {percent : R}
    (hprogress : ∀ patch, progress.patch? = some patch → good patch) :
    ∀ keyframe ∈ progress.repeated percent, good keyframe.patch := by
  intro keyframe h
  unfold Progress.repeated at h
  split at h
  · rename_i before _ hbefore
    rw [List.mem_singleton.mp h]
    exact hprogress before hbefore
  · cases h

/-- What holds of all patches of a rule holds of all that are emitted; the induction is on
the source keyframes. -/
theorem good_emitKeyframes (hrule : ∀ value patch, rule value = .ok (some patch) → good patch)
    {progress : Progress R} (hprogress : ∀ patch, progress.patch? = some patch → good patch)
    {sources : List (SourceKeyframe R)} {emitted : List (Keyframe R)}
    (returned : emitKeyframes clock rule axis progress sources = .ok emitted) :
    ∀ keyframe ∈ emitted, good keyframe.patch := by
  induction sources generalizing progress emitted with
  | nil =>
      cases returned
      exact fun _ h => nomatch h
  | cons source rest ih =>
      obtain ⟨patch?, hpatch, hrest⟩ := bind_eq_ok.mp returned
      obtain ⟨percent, -, hrest⟩ := bind_eq_ok.mp hrest
      cases patch? with
      | none =>
          refine ih ?_ hrest
          exact hprogress
      | some patch =>
          obtain ⟨arrival, -, hrest⟩ := bind_eq_ok.mp hrest
          obtain ⟨later, hlater, hemitted⟩ := bind_eq_ok.mp hrest
          obtain rfl := pure_eq_ok.mp hemitted
          have hgood : good patch := by
            unfold PatchRule.patch? at hpatch
            split at hpatch
            · cases hpatch
            · exact hrule _ _ hpatch
          refine List.forall_mem_append.mpr
            ⟨good_of_mem_repeated hprogress, List.forall_mem_cons.mpr ⟨hgood, ih ?_ hlater⟩⟩
          intro other hother
          cases hother
          exact hgood

theorem good_startAtOnce {keyframes started : List (Keyframe R)}
    (sets : ∀ keyframe ∈ keyframes, SetsAttributes keyframe.patch)
    (hgood : ∀ keyframe ∈ keyframes, good keyframe.patch)
    (returned : startAtOnce keyframes = .ok started) :
    ∀ keyframe ∈ started, good keyframe.patch := by
  cases keyframes with
  | nil =>
      cases returned
      exact hgood
  | cons first rest =>
      obtain ⟨late, -, hrest⟩ := bind_eq_ok.mp returned
      split at hrest
      · cases hrest
        refine List.forall_mem_cons.mpr ⟨?_, hgood⟩
        show good (Keyframe.attributes first)
        rw [attributes_eq (sets first List.mem_cons_self)]
        exact hgood first List.mem_cons_self
      · cases hrest
        exact hgood

/-- What holds of all patches of a rule holds of those of the timeline, which has some. -/
theorem good_buildTimeline (sets : rule.Sets)
    (hrule : ∀ value patch, rule value = .ok (some patch) → good patch)
    {keyframes : List (Value R)} {timeline : Timeline R}
    (returned : buildTimeline keyframes rule clock axis = .ok (some timeline)) :
    timeline.keyframes ≠ [] ∧ ∀ keyframe ∈ timeline.keyframes, good keyframe.patch := by
  obtain ⟨first, rest, started, duration, delay, hemitted, hstarted, -, -, rfl⟩ :=
    buildTimeline_eq_some.mp returned
  have hsets := good_emitKeyframes sets (fun _ h => by cases h) hemitted
  have hgood := good_emitKeyframes hrule (fun _ h => by cases h) hemitted
  refine ⟨?_, good_startAtOnce hsets hgood hstarted⟩
  obtain ⟨late, -, hrest⟩ := bind_eq_ok.mp hstarted
  split at hrest <;> cases hrest <;> exact List.cons_ne_nil _ _

end Emitted

/-! ## Animated attributes -/

section Animates

variable {R : Type}

/-- A patch of some attributes and nothing else, all under one key. -/
structure SetsOnly (key : String) (slots : List Slot) (patch : Members R) : Prop where
  keys : patch.keys = [key]
  slots : ∀ slot, (patch.slot? slot).isSome ↔ slot ∈ slots

variable {key : String} {slots : List Slot} {patch : Members R}

theorem setsAttributes_of_keys (hkey : key ∉ Keyframe.ownKeys) (h : patch.keys = [key]) :
    SetsAttributes patch := by
  intro own hown
  rw [Members.get?_eq_none_iff, h, List.mem_singleton]
  rintro rfl
  exact hkey hown

theorem setsOnly_underTarget (target : Target) {name : String}
    (h : target = .own → name ∉ targetKeys) (value : Value R) :
    SetsOnly (Slot.key ⟨target, name⟩) [⟨target, name⟩] (underTarget target.key name value) where
  keys := by cases target <;> rfl
  slots slot := by
    rw [Members.slot?_underTarget h, List.mem_singleton, @eq_comm _ slot]
    split <;> simp_all

namespace Timeline

variable {timeline result : Timeline R} {slot : Slot}

/-- A timeline whose patches all have one key touches that key and no other. -/
theorem touchedKeys_eq (hkey : key ∉ Keyframe.ownKeys) (nonempty : timeline.keyframes ≠ [])
    (hkeys : ∀ keyframe ∈ timeline.keyframes, keyframe.patch.keys = [key]) :
    timeline.touchedKeys = [key] := by
  have hown : ∀ keyframe ∈ timeline.keyframes, keyframe.attributes.keys = [key] := by
    intro keyframe h
    have sets := setsAttributes_of_keys hkey (hkeys keyframe h)
    rw [attributes_eq sets keyframe.percent keyframe.easing, hkeys keyframe h]
  rw [touchedKeys]
  cases hkeyframes : timeline.keyframes with
  | nil => exact absurd hkeyframes nonempty
  | cons first rest =>
      rw [hkeyframes, List.forall_mem_cons] at hown
      obtain ⟨hfirst, hrest⟩ := hown
      have hsame : (rest.flatMap fun keyframe => keyframe.attributes.keys).filter
          (fun other => !other == key) = [] := by
        refine List.filter_eq_nil_iff.mpr fun other h => ?_
        obtain ⟨keyframe, hkeyframe, hother⟩ := List.mem_flatMap.mp h
        rw [hrest keyframe hkeyframe, List.mem_singleton] at hother
        simp [hother]
      rw [List.flatMap_cons, hfirst, List.singleton_append, List.eraseDups_cons, hsame,
        List.eraseDups_nil]

theorem touches_eq (htouched : timeline.touchedKeys = [key]) (keys : List String) :
    timeline.touches keys = keys.contains key := by
  rw [touches, htouched, List.any_cons, List.any_nil, Bool.or_false]

/-- Some keyframe patches the attribute. -/
def Patches (timeline : Timeline R) (slot : Slot) : Prop :=
  ∃ keyframe ∈ timeline.keyframes, (keyframe.patch.slot? slot).isSome

/-- The value that the first keyframe gives an attribute. -/
def firstValue? (timeline : Timeline R) (slot : Slot) : Option (Value R) :=
  timeline.keyframes.head?.bind fun keyframe => keyframe.patch.slot? slot

/-- A timeline with keyframes that all patch some attributes and nothing else. -/
structure Animates (timeline : Timeline R) (key : String) (slots : List Slot) : Prop where
  nonempty : timeline.keyframes ≠ []
  patches : ∀ keyframe ∈ timeline.keyframes, SetsOnly key slots keyframe.patch

namespace Animates

variable (animates : timeline.Animates key slots)

include animates

theorem patches_iff : timeline.Patches slot ↔ slot ∈ slots := by
  constructor
  · rintro ⟨keyframe, hkeyframe, hslot⟩
    exact ((animates.patches keyframe hkeyframe).slots slot).mp hslot
  · intro hslot
    obtain ⟨keyframe, hkeyframe⟩ := List.exists_mem_of_ne_nil _ animates.nonempty
    exact ⟨keyframe, hkeyframe, ((animates.patches keyframe hkeyframe).slots slot).mpr hslot⟩

theorem touchedKeys_eq (hkey : key ∉ Keyframe.ownKeys) : timeline.touchedKeys = [key] :=
  Timeline.touchedKeys_eq hkey animates.nonempty fun keyframe h => (animates.patches keyframe h).keys

theorem touches_eq (hkey : key ∉ Keyframe.ownKeys) (keys : List String) :
    timeline.touches keys = keys.contains key :=
  Timeline.touches_eq (animates.touchedKeys_eq hkey) keys

end Animates

end Timeline

/-- A timeline animates what the patches of its rule set. -/
theorem animates_buildTimeline [Scalar R] {rule : PatchRule R} (hkey : key ∉ Keyframe.ownKeys)
    (hrule : ∀ value patch, rule value = .ok (some patch) → SetsOnly key slots patch)
    {keyframes : List (Value R)} {clock : Clock R} {axis : Int} {timeline : Timeline R}
    (returned : buildTimeline keyframes rule clock axis = .ok (some timeline)) :
    timeline.Animates key slots := by
  have sets : rule.Sets := fun value patch h => setsAttributes_of_keys hkey (hrule value patch h).keys
  obtain ⟨nonempty, hpatches⟩ := good_buildTimeline sets hrule returned
  exact ⟨nonempty, hpatches⟩

/-! ## Rules -/

variable [Scalar R] {target : Target} {name : String} {value : Value R}

theorem axisRule_setsOnly (h : target = .own → name ∉ targetKeys) {conversion : Conversion}
    {axis : Int} (returned : axisRule target.key name conversion axis value = .ok (some patch)) :
    SetsOnly (Slot.key ⟨target, name⟩) [⟨target, name⟩] patch := by
  obtain ⟨component?, -, hrest⟩ := bind_eq_ok.mp returned
  cases component? with
  | none => cases hrest
  | some n =>
      obtain ⟨converted, -, hrest⟩ := bind_eq_ok.mp hrest
      cases hrest
      exact setsOnly_underTarget target h _

theorem colorRule_setsOnly (h : target = .own → name ∉ targetKeys)
    (returned : colorRule target.key name value = .ok (some patch)) :
    SetsOnly (Slot.key ⟨target, name⟩) [⟨target, name⟩] patch := by
  obtain ⟨color, -, hpure⟩ := bind_eq_ok.mp returned
  cases hpure
  exact setsOnly_underTarget target h _

/-- The attributes that are the geometry of a path. -/
def pathSlots : List Slot := ["in", "out", "v", "close"].map (Slot.mk .shape)

theorem pathRule_setsOnly (returned : pathRule value = .ok (some patch)) :
    SetsOnly "shape" pathSlots patch := by
  obtain ⟨bezier, -, rfl⟩ := Option.map_eq_some_iff.mp (Except.ok.inj returned)
  refine ⟨rfl, fun ⟨target, name⟩ => ?_⟩
  have hne : Target.shape ≠ .own := by decide
  have hslot := Members.slot?_set_target [] hne (pathGeometry bezier) ⟨target, name⟩
  have hset : Members.set [] Target.shape.key (.object (pathGeometry bezier)) =
      [("shape", .object (pathGeometry bezier))] := rfl
  rw [← hset, hslot, Members.slot?_nil]
  by_cases hshape : Target.shape = target
  · subst hshape
    rw [if_pos rfl, Members.isSome_get?_iff]
    simp [Members.keys, pathGeometry, pathSlots]
  · have hother : target ≠ .shape := Ne.symm hshape
    rw [if_neg hshape]
    simp [pathSlots, hother]

/-! ## Retargeted timelines -/

theorem retargetPatch_singleton {key : String × String} (hkey : key ∈ anchorKeys)
    (returned : retargetPatch [(key.1, value)] = .ok patch) :
    ∃ moved, opposite value = .ok moved ∧ patch = [(key.2, moved)] := by
  obtain ⟨first, hfirst, hrest⟩ := bind_eq_ok.mp returned
  obtain ⟨second, hsecond, hpure⟩ := bind_eq_ok.mp hrest
  obtain rfl := pure_eq_ok.mp hpure
  rcases List.mem_cons.mp hkey with rfl | hkey
  · obtain ⟨moved, hmoved, hpure⟩ := bind_eq_ok.mp hfirst
    obtain rfl := pure_eq_ok.mp hpure
    cases hsecond
    exact ⟨moved, hmoved, rfl⟩
  · obtain rfl := List.mem_singleton.mp hkey
    cases hfirst
    obtain ⟨moved, hmoved, hpure⟩ := bind_eq_ok.mp hsecond
    obtain rfl := pure_eq_ok.mp hpure
    exact ⟨moved, hmoved, rfl⟩

/-- A timeline of an anchor attribute turns into one of the position attribute. -/
theorem Timeline.Animates.retarget {key : String × String} (hkey : key ∈ anchorKeys)
    {timeline result : Timeline R} (animates : timeline.Animates key.1 [⟨.own, key.1⟩])
    (returned : timeline.retarget = .ok result) : result.Animates key.2 [⟨.own, key.2⟩] := by
  obtain ⟨keyframes, hkeyframes, hpure⟩ := bind_eq_ok.mp returned
  obtain rfl := pure_eq_ok.mp hpure
  have hretargeted := mapM_eq_ok.mp hkeyframes
  refine ⟨fun hnil => ?_, fun keyframe h => ?_⟩
  · change keyframes = [] at hnil
    rw [hnil] at hretargeted
    exact animates.nonempty (List.forall₂_nil_right_iff.mp hretargeted)
  · obtain ⟨before, hbefore, hstep⟩ := exists_of_mem_right hretargeted h
    obtain ⟨patch, hpatch, hpure⟩ := bind_eq_ok.mp hstep
    obtain rfl := pure_eq_ok.mp hpure
    obtain ⟨⟨name, value⟩, hentry, hname⟩ :=
      List.map_eq_singleton_iff.mp (animates.patches before hbefore).keys
    obtain rfl : name = key.1 := hname
    rw [hentry] at hpatch
    obtain ⟨moved, -, rfl⟩ := retargetPatch_singleton hkey hpatch
    have hproper : ∀ key ∈ anchorKeys, key.2 ∉ targetKeys := by decide
    exact setsOnly_underTarget .own (fun _ => hproper key hkey) moved

end Animates

end MotionScene
