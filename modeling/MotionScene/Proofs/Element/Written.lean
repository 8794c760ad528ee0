import MotionScene.Proofs.Timeline.Animated

/-!
# Attributes are written once

Properties are written onto a body one after the other, and each of them writes attributes
of its own.  So no attribute of a body has two sources (`Body.Written`): it is a constant,
or one timeline animates it, or neither.  Only the geometry of a path has both, and then
its constant is what the timeline starts with.
-/

namespace MotionScene

variable {R : Type}

/-- The keys that name targets, as attributes that are never written. -/
def reservedSlots : List Slot := targetKeys.map (Slot.mk .own)

/-- Two timelines that patch no attribute both. -/
def Timeline.Apart (first second : Timeline R) : Prop :=
  ∀ slot, first.Patches slot → ¬second.Patches slot

/-- Timelines of a body and constants for the same attribute, which then is one of the
shared ones and starts with the constant. -/
def Body.SharesOnly (shared : List Slot) (body : Body R) : Prop :=
  ∀ timeline ∈ body.timelines, ∀ slot value, timeline.Patches slot →
    body.attributes.slot? slot = some value →
      slot ∈ shared ∧ timeline.firstValue? slot = some value

/-- A body with some targets on which every attribute has been written at most once.  The
taken attributes are all that have been written, and the shared ones are constants that
one timeline may animate too. -/
structure Body.Written (targets : List Target) (shared taken : List Slot) (body : Body R) :
    Prop where
  distinct : body.attributes.keys.Nodup
  held : body.attributes.keys.filter targetKeys.contains = targets.map Target.key
  reserved : ∀ slot ∈ reservedSlots, slot ∈ taken
  constants : ∀ slot, (body.attributes.slot? slot).isSome → slot ∈ taken
  constant : ∀ slot ∈ shared, (body.attributes.slot? slot).isSome
  animated : ∀ timeline ∈ body.timelines, shared ≠ [] ∧ timeline.Animates "shape" shared ∨
    ∃ slot ∈ taken, slot ∉ shared ∧ timeline.Animates slot.key [slot]
  apart : body.timelines.Pairwise Timeline.Apart
  sharesOnly : body.SharesOnly shared

/-- Attributes of a target that may still be written. -/
structure Open (targets : List Target) (taken : List Slot) (target : Target)
    (names : List String) : Prop where
  known : target ∈ .own :: targets
  distinct : names.Nodup
  fresh : ∀ name ∈ names, ⟨target, name⟩ ∉ taken
  plain : ∀ name ∈ names, Slot.key ⟨target, name⟩ ∉ Keyframe.ownKeys

instance (targets : List Target) (taken : List Slot) (target : Target) (names : List String) :
    Decidable (Open targets taken target names) :=
  decidable_of_iff (target ∈ Target.own :: targets ∧ names.Nodup ∧
      (∀ name ∈ names, ⟨target, name⟩ ∉ taken) ∧
      ∀ name ∈ names, Slot.key ⟨target, name⟩ ∉ Keyframe.ownKeys)
    ⟨fun ⟨known, distinct, fresh, plain⟩ => ⟨known, distinct, fresh, plain⟩,
      fun h => ⟨h.known, h.distinct, h.fresh, h.plain⟩⟩

namespace Open

variable {targets : List Target} {taken : List Slot} {target : Target} {name : String}
  {rest : List String} (free : Open targets taken target (name :: rest))

include free

theorem tail : Open targets taken target rest where
  known := free.known
  distinct := (List.nodup_cons.mp free.distinct).2
  fresh := (List.forall_mem_cons.mp free.fresh).2
  plain := (List.forall_mem_cons.mp free.plain).2

/-- The others may still be written when the first one has been. -/
theorem next : Open targets (⟨target, name⟩ :: taken) target rest := by
  refine ⟨free.known, free.tail.distinct, fun other hother => ?_, free.tail.plain⟩
  rw [List.mem_cons, not_or, Slot.mk.injEq, not_and]
  refine ⟨fun _ heq => ?_, free.tail.fresh other hother⟩
  exact (List.nodup_cons.mp free.distinct).1 (heq ▸ hother)

end Open

/-! ## Written attributes -/

section WriteUnder

variable {target : Target} {name : String} {value : Value R} {attributes result : Members R}

theorem slot?_writeUnder (h : target = .own → name ∉ targetKeys) (slot : Slot)
    (returned : writeUnder target.key name value attributes = .ok result) :
    result.slot? slot = if ⟨target, name⟩ = slot then some value else attributes.slot? slot := by
  by_cases hown : target = .own
  · subst hown
    cases returned
    exact Members.slot?_set_own attributes (h rfl) value slot
  · have hkey : target.key ≠ "" := by cases target <;> simp_all [Target.key]
    rw [writeUnder, if_neg hkey] at returned
    split at returned
    · rename_i members hmembers
      cases returned
      rw [Members.slot?_set_target attributes hown]
      by_cases htarget : target = slot.target
      · obtain ⟨_, second⟩ := slot
        obtain rfl : target = _ := htarget
        have hown : attributes.slot? ⟨target, second⟩ = Members.get? members second := by
          rw [Members.slot?_under hown, hmembers]
          rfl
        rw [if_pos rfl, hown, Members.get?_set]
        simp only [Slot.mk.injEq, true_and]
      · have hne : ⟨target, name⟩ ≠ slot := fun heq => htarget (heq ▸ rfl)
        rw [if_neg htarget, if_neg hne]
    · cases returned

/-- Writing an attribute sets the key of its target, or one that is no target. -/
theorem exists_set_of_writeUnder (h : target = .own → name ∉ targetKeys)
    (returned : writeUnder target.key name value attributes = .ok result) :
    ∃ key written, result = attributes.set key written ∧
      (key ∈ targetKeys → key ∈ attributes.keys) := by
  by_cases hown : target = .own
  · subst hown
    cases returned
    exact ⟨name, value, rfl, fun hname => absurd hname (h rfl)⟩
  · have hkey : target.key ≠ "" := by cases target <;> simp_all [Target.key]
    rw [writeUnder, if_neg hkey] at returned
    split at returned
    · rename_i members hmembers
      cases returned
      refine ⟨_, _, rfl, fun _ => Members.isSome_get?_iff.mp ?_⟩
      rw [Option.isSome_iff_ne_none]
      intro hnone
      rw [Members.get, hnone] at hmembers
      cases hmembers
    · cases returned

end WriteUnder

namespace Body.Written

variable {targets : List Target} {shared taken : List Slot} {body : Body R}

theorem mono (written : body.Written targets shared taken) {more : List Slot}
    (h : ∀ slot ∈ taken, slot ∈ more) : body.Written targets shared more where
  distinct := written.distinct
  held := written.held
  reserved slot hslot := h slot (written.reserved slot hslot)
  constants slot hslot := h slot (written.constants slot hslot)
  constant := written.constant
  animated timeline htimeline := by
    refine (written.animated timeline htimeline).imp_right ?_
    rintro ⟨slot, hslot, hrest⟩
    exact ⟨slot, h slot hslot, hrest⟩
  apart := written.apart
  sharesOnly := written.sharesOnly

variable (written : body.Written targets shared taken)

include written

theorem mem_of_patches {timeline : Timeline R} (htimeline : timeline ∈ body.timelines)
    {slot : Slot} (patches : timeline.Patches slot) : slot ∈ taken := by
  rcases written.animated timeline htimeline with ⟨-, animates⟩ | ⟨own, hown, -, animates⟩
  · exact written.constants slot (written.constant slot (animates.patches_iff.mp patches))
  · rwa [List.mem_singleton.mp (animates.patches_iff.mp patches)]

theorem proper {target : Target} {name : String} (fresh : ⟨target, name⟩ ∉ taken) :
    target = .own → name ∉ targetKeys := by
  rintro rfl hname
  exact fresh (written.reserved _ (List.mem_map_of_mem hname))

/-- An attribute that is not taken may become a constant. -/
theorem write (target : Target) {name : String} (fresh : ⟨target, name⟩ ∉ taken)
    {value : Value R} {attributes : Members R}
    (returned : writeUnder target.key name value body.attributes = .ok attributes) :
    Body.Written targets shared (⟨target, name⟩ :: taken) { body with attributes } := by
  have hproper := written.proper fresh
  have hslot := fun slot => slot?_writeUnder hproper slot returned
  obtain ⟨key, content, hset, hkey⟩ := exists_set_of_writeUnder hproper returned
  exact {
    distinct := by
      show attributes.keys.Nodup
      rw [hset]
      exact Members.nodup_keys_set written.distinct key content
    held := by
      show attributes.keys.filter targetKeys.contains = _
      rw [hset, Members.keys_set]
      split
      · exact written.held
      · rename_i hnew
        have hfree : [key].filter targetKeys.contains = [] := by
          simpa using fun h => hnew (hkey h)
        rw [List.filter_append, hfree, List.append_nil, written.held]
    reserved := fun slot h => List.mem_cons_of_mem _ (written.reserved slot h)
    constants := by
      intro slot h
      change (attributes.slot? slot).isSome at h
      rw [hslot] at h
      split at h
      · rename_i heq
        exact heq ▸ List.mem_cons_self
      · exact List.mem_cons_of_mem _ (written.constants slot h)
    constant := by
      intro slot h
      show (attributes.slot? slot).isSome
      rw [hslot]
      split
      · rfl
      · exact written.constant slot h
    animated := by
      intro timeline h
      refine (written.animated timeline h).imp_right ?_
      rintro ⟨slot, hslot, hrest⟩
      exact ⟨slot, List.mem_cons_of_mem _ hslot, hrest⟩
    apart := written.apart
    sharesOnly := by
      intro timeline htimeline slot found patches hfound
      change attributes.slot? slot = some found at hfound
      rw [hslot] at hfound
      split at hfound
      · rename_i heq
        -- no timeline patches an attribute that was not taken
        exact absurd (written.mem_of_patches htimeline patches) (heq ▸ fresh)
      · exact written.sharesOnly timeline htimeline slot found patches hfound }

/-- An attribute that is not taken may be animated. -/
theorem animate {slot : Slot} (fresh : slot ∉ taken) {timeline : Timeline R}
    (animates : timeline.Animates slot.key [slot]) :
    Body.Written targets shared (slot :: taken)
      { body with timelines := body.timelines ++ [timeline] } where
  distinct := written.distinct
  held := written.held
  reserved slot h := List.mem_cons_of_mem _ (written.reserved slot h)
  constants slot h := List.mem_cons_of_mem _ (written.constants slot h)
  constant := written.constant
  animated other h := by
    rcases List.mem_append.mp h with h | h
    · refine (written.animated other h).imp_right ?_
      rintro ⟨slot, hslot, hrest⟩
      exact ⟨slot, List.mem_cons_of_mem _ hslot, hrest⟩
    · obtain rfl := List.mem_singleton.mp h
      refine .inr ⟨slot, List.mem_cons_self, fun hshared => fresh ?_, animates⟩
      exact written.constants slot (written.constant slot hshared)
  apart := by
    refine List.pairwise_append.mpr ⟨written.apart, List.pairwise_singleton _ _, ?_⟩
    intro before hbefore after hafter other patches hother
    obtain rfl := List.mem_singleton.mp hafter
    rw [animates.patches_iff, List.mem_singleton] at hother
    exact fresh (hother ▸ written.mem_of_patches hbefore patches)
  sharesOnly other hother own value patches hvalue := by
    rcases List.mem_append.mp hother with hother | hother
    · exact written.sharesOnly other hother own value patches hvalue
    · obtain rfl := List.mem_singleton.mp hother
      rw [animates.patches_iff, List.mem_singleton] at patches
      refine absurd (written.constants own ?_) (patches ▸ fresh)
      rw [hvalue]
      rfl

/-! ## Properties -/

variable [Scalar R] {target : Target} {names : List String} {clock : Clock R}

omit [Scalar R] in
theorem withTarget_eq (target : Target) (h : target ∈ .own :: targets) :
    withTarget target.key body.attributes = body.attributes := by
  refine if_pos ?_
  rcases List.mem_cons.mp h with rfl | h
  · rfl
  · have hkey : target.key ∈ body.attributes.keys.filter targetKeys.contains :=
      written.held ▸ List.mem_map_of_mem h
    rw [Bool.or_eq_true, Members.has, Members.isSome_get?_iff]
    exact .inr (List.mem_of_mem_filter hkey)

/-- Each component of a constant becomes a constant; the induction is on the axes. -/
theorem writeAxes (free : Open targets taken target names) {content : Value R}
    {conversion : Conversion} {axis : Nat} {attributes : Members R}
    (returned : MotionScene.writeAxes content target.key conversion axis names body.attributes =
      .ok attributes) :
    Body.Written targets shared (names.map (Slot.mk target) ++ taken) { body with attributes } := by
  induction names generalizing taken body axis with
  | nil =>
      cases returned
      exact written
  | cons name rest ih =>
      obtain ⟨component?, -, returned⟩ := bind_eq_ok.mp returned
      cases component? with
      | none =>
          refine (ih written free.tail returned).mono fun slot h => ?_
          exact List.mem_cons_of_mem _ h
      | some n =>
          obtain ⟨value, -, returned⟩ := bind_eq_ok.mp returned
          obtain ⟨middle, hmiddle, returned⟩ := bind_eq_ok.mp returned
          have hfirst := written.write target (free.fresh name List.mem_cons_self) hmiddle
          exact (ih hfirst free.next returned).mono fun slot h => List.perm_middle.subset h

/-- Each component of keyframes is animated; the induction is on the axes. -/
theorem axisTimelines (free : Open targets taken target names) {keyframes : List (Value R)}
    {conversion : Conversion} {axis : Nat} {timelines : List (Timeline R)}
    (returned : MotionScene.axisTimelines keyframes target.key conversion clock axis names =
      .ok timelines) :
    Body.Written targets shared (names.map (Slot.mk target) ++ taken)
      { body with timelines := body.timelines ++ timelines } := by
  induction names generalizing taken body axis timelines with
  | nil =>
      cases returned
      rwa [List.append_nil]
  | cons name rest ih =>
      obtain ⟨timeline?, htimeline, returned⟩ := bind_eq_ok.mp returned
      obtain ⟨later, hlater, hpure⟩ := bind_eq_ok.mp returned
      obtain rfl := pure_eq_ok.mp hpure
      cases timeline? with
      | none =>
          refine (ih written free.tail hlater).mono fun slot h => ?_
          exact List.mem_cons_of_mem _ h
      | some timeline =>
          have fresh := free.fresh name List.mem_cons_self
          have animates := animates_buildTimeline (free.plain name List.mem_cons_self)
            (fun _ _ => axisRule_setsOnly (written.proper fresh)) htimeline
          have hrest := ih (written.animate fresh animates) free.next hlater
          rw [List.append_assoc] at hrest
          exact hrest.mono fun slot h => List.perm_middle.subset h

/-- A property becomes constants or timelines of its attributes. -/
theorem resolve (target : Target) (free : Open targets taken target names)
    {property : Value R} {conversion : Conversion} {result : Body R}
    (returned : MotionScene.resolve property target.key names conversion clock body = .ok result) :
    result.Written targets shared (names.map (Slot.mk target) ++ taken) := by
  unfold MotionScene.resolve at returned
  split at returned
  · obtain ⟨attributes, hattributes, hpure⟩ := bind_eq_ok.mp returned
    obtain rfl := pure_eq_ok.mp hpure
    rw [written.withTarget_eq target free.known] at hattributes
    exact written.writeAxes free hattributes
  · split at returned
    · obtain ⟨timelines, htimelines, hpure⟩ := bind_eq_ok.mp returned
      obtain rfl := pure_eq_ok.mp hpure
      exact written.axisTimelines free htimelines
    · cases returned
      exact written.mono fun slot h => List.mem_append_right _ h

/-- A color becomes a constant or a timeline of its attribute. -/
theorem resolveColor (target : Target) {name : String} (free : Open targets taken target [name])
    {property : Value R} {result : Body R}
    (returned : MotionScene.resolveColor property target.key name clock body = .ok result) :
    result.Written targets shared (⟨target, name⟩ :: taken) := by
  have fresh := free.fresh name (List.mem_singleton_self name)
  unfold MotionScene.resolveColor at returned
  split at returned
  · obtain ⟨color, -, hrest⟩ := bind_eq_ok.mp returned
    obtain ⟨attributes, hattributes, hpure⟩ := bind_eq_ok.mp hrest
    obtain rfl := pure_eq_ok.mp hpure
    rw [written.withTarget_eq target free.known] at hattributes
    exact written.write target fresh hattributes
  · split at returned
    · obtain ⟨timeline?, htimeline, hpure⟩ := bind_eq_ok.mp returned
      obtain rfl := pure_eq_ok.mp hpure
      cases timeline? with
      | none =>
          rw [Option.toList_none, List.append_nil]
          exact written.mono fun slot h => List.mem_cons_of_mem _ h
      | some timeline =>
          have animates := animates_buildTimeline
            (free.plain name (List.mem_singleton_self name))
            (fun _ _ => colorRule_setsOnly (written.proper fresh)) htimeline
          exact written.animate fresh animates
    · cases returned
      exact written.mono fun slot h => List.mem_cons_of_mem _ h

end Body.Written

end MotionScene
