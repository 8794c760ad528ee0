import MotionScene.Proofs.Element.Written

/-!
# Attributes of outlines

Geometry, fill, stroke, trim and repeater write attributes of their own onto the body of an
outline, so every attribute of an outline has one source, but for the geometry of an
animated path (`outlineElement_written`).
-/

namespace MotionScene

variable {R : Type}

/-! ## Geometry -/

/-- The attributes that the geometry of an outline writes. -/
def geometrySlots : List Slot :=
  pathSlots ++ ["cx", "cy", "rx", "ry", "width", "height", "r"].map (Slot.mk .shape)

/-- The attributes that have a constant also when they are animated. -/
def sharedSlots : ElementType → List Slot
  | .path => pathSlots
  | _ => []

section Geometry

variable {geometry : Members R} {slot : Slot}

theorem slot?_shape : Members.slot? [("shape", .object geometry)] slot =
    if .shape = slot.target then geometry.get? slot.name else none := by
  have hne : Target.shape ≠ .own := by decide
  have hset := Members.slot?_set_target [] hne geometry slot
  rwa [Members.slot?_nil] at hset

/-- The body of an outline to begin with: its geometry, and what of it is shared. -/
theorem written_shape {shared taken : List Slot}
    (hnames : ∀ name ∈ geometry.keys, ⟨.shape, name⟩ ∈ taken)
    (hshared : ∀ slot ∈ shared, slot.target = .shape ∧ slot.name ∈ geometry.keys) :
    Body.Written [.shape] shared (taken ++ reservedSlots)
      ⟨[("shape", .object geometry)], []⟩ where
  distinct := List.pairwise_singleton _ _
  held := rfl
  reserved slot hslot := List.mem_append_right _ hslot
  constants slot hslot := by
    obtain ⟨target, name⟩ := slot
    rw [slot?_shape] at hslot
    split at hslot
    · rename_i htarget
      obtain rfl : Target.shape = target := htarget
      exact List.mem_append_left _ (hnames name (Members.isSome_get?_iff.mp hslot))
    · cases hslot
  constant slot hslot := by
    obtain ⟨htarget, hname⟩ := hshared slot hslot
    rwa [slot?_shape, if_pos htarget.symm, Members.isSome_get?_iff]
  animated _ h := by cases h
  apart := .nil
  sharesOnly _ h := by cases h

theorem written_path (hkeys : ∀ name, name ∈ geometry.keys ↔ ⟨.shape, name⟩ ∈ pathSlots) :
    Body.Written [.shape] pathSlots (geometrySlots ++ reservedSlots)
      ⟨[("shape", .object geometry)], []⟩ := by
  refine written_shape (fun name h => List.mem_append_left _ ((hkeys name).mp h)) ?_
  rintro ⟨target, name⟩ h
  obtain ⟨_, -, heq⟩ := List.mem_map.mp h
  obtain rfl : Target.shape = target := congrArg Slot.target heq
  exact ⟨rfl, (hkeys name).mpr h⟩

end Geometry

/-- A timeline may animate the constants that it starts with. -/
theorem Body.Written.share {targets : List Target} {shared taken : List Slot}
    {attributes : Members R} (written : Body.Written targets shared taken ⟨attributes, []⟩)
    (nonempty : shared ≠ []) {timeline : Timeline R} (animates : timeline.Animates "shape" shared)
    (starts : ∀ slot ∈ shared, timeline.firstValue? slot = attributes.slot? slot) :
    Body.Written targets shared taken ⟨attributes, [timeline]⟩ where
  distinct := written.distinct
  held := written.held
  reserved := written.reserved
  constants := written.constants
  constant := written.constant
  animated other h := .inl ⟨nonempty, List.mem_singleton.mp h ▸ animates⟩
  apart := List.pairwise_singleton _ _
  sharesOnly other h slot value patches hvalue := by
    obtain rfl := List.mem_singleton.mp h
    have hslot := animates.patches_iff.mp patches
    exact ⟨hslot, (starts slot hslot).trans hvalue⟩

section Bodies

variable [Scalar R] {clock : Clock R} {result : Body R}

theorem animates_pathTimeline {content : Value R} {timeline : Timeline R}
    (returned : pathTimeline content clock = .ok (some timeline)) :
    timeline.Animates "shape" pathSlots := by
  unfold pathTimeline at returned
  split at returned
  · exact animates_buildTimeline (by decide) (fun _ _ => pathRule_setsOnly) returned
  · cases returned

omit [Scalar R] in
/-- An animated path has the geometry of its first keyframe, which its timeline starts with. -/
theorem written_animatedPath {timeline : Timeline R}
    (animates : timeline.Animates "shape" pathSlots) :
    Body.Written [.shape] pathSlots (geometrySlots ++ reservedSlots)
      ⟨[("shape", .object (firstGeometry timeline))], [timeline]⟩ := by
  obtain ⟨first, rest, hkeyframes⟩ := List.exists_cons_of_ne_nil animates.nonempty
  have hfirst : ∀ name, (firstGeometry timeline).get? name =
      first.patch.slot? ⟨.shape, name⟩ := by
    intro name
    rw [firstGeometry, hkeyframes]
    rfl
  have hpatch := animates.patches first (hkeyframes ▸ List.mem_cons_self)
  have hkeys : ∀ name, name ∈ (firstGeometry timeline).keys ↔ ⟨.shape, name⟩ ∈ pathSlots := by
    intro name
    rw [← Members.isSome_get?_iff, hfirst, hpatch.slots]
  refine (written_path hkeys).share (by decide) animates fun slot hslot => ?_
  obtain ⟨name, -, rfl⟩ := List.mem_map.mp hslot
  rw [Timeline.firstValue?, hkeyframes, slot?_shape, if_pos rfl, hfirst]
  rfl

theorem pathBody_written {property : Value R} (returned : pathBody property clock = .ok result) :
    result.Written [.shape] pathSlots (geometrySlots ++ reservedSlots) := by
  unfold pathBody at returned
  split at returned
  · cases returned
    exact written_path fun name => by simp [Members.keys, pathGeometry, pathSlots]
  · obtain ⟨timeline?, htimeline, hrest⟩ := bind_eq_ok.mp returned
    cases timeline? with
    | none =>
        cases hrest
        exact written_path fun name => by simp [Members.keys, emptyGeometry, pathSlots]
    | some timeline =>
        cases hrest
        exact written_animatedPath (animates_pathTimeline htimeline)

theorem ellipseBody_written {shape : Members R} (returned : ellipseBody shape clock = .ok result) :
    result.Written [.shape] [] (geometrySlots ++ reservedSlots) := by
  obtain ⟨centered, hcentered, hsized⟩ := bind_eq_ok.mp returned
  have hstart : Body.Written [.shape] [] ([] ++ reservedSlots)
      (⟨[("shape", .object [])], []⟩ : Body R) :=
    written_shape (fun _ h => by cases h) (fun _ h => by cases h)
  have hcentered := hstart.resolve .shape (by decide) hcentered
  exact (hcentered.resolve .shape (by decide) hsized).mono (by decide)

theorem rectBody_written {shape : Members R} (returned : rectBody shape clock = .ok result) :
    result.Written [.shape] [] (geometrySlots ++ reservedSlots) := by
  obtain ⟨centered, hcentered, hrest⟩ := bind_eq_ok.mp returned
  obtain ⟨sized, hsized, hrounded⟩ := bind_eq_ok.mp hrest
  have hstart : Body.Written [.shape] [] ([] ++ reservedSlots)
      (⟨[("shape", .object [])], []⟩ : Body R) :=
    written_shape (fun _ h => by cases h) (fun _ h => by cases h)
  have hcentered := hstart.resolve .shape (by decide) hcentered
  have hsized := hcentered.resolve .shape (by decide) hsized
  exact (hsized.resolve .shape (by decide) hrounded).mono (by decide)

theorem geometryBody_written {kind : ShapeKind} {shape : Members R} (hkind : kind.isGeometry)
    (returned : geometryBody kind shape clock = .ok result) :
    result.Written [.shape] (sharedSlots kind.elementType) (geometrySlots ++ reservedSlots) := by
  cases kind <;> cases hkind
  · exact pathBody_written returned
  · exact ellipseBody_written returned
  · exact rectBody_written returned

/-! ## Styles and modifiers -/

/-- The attributes that fill and stroke write. -/
def styleSlots : List Slot :=
  ["fill", "fillOpacity", "stroke", "strokeOpacity", "lineWidth", "lineCap", "lineJoin",
    "miterLimit"].map (Slot.mk .style)

/-- The attributes that trim and repeater write. -/
def modifierSlots : List Slot :=
  ["trimStart", "trimEnd", "trimOffset", "repeat"].map (Slot.mk .shape)

/-- All attributes that an outline may have. -/
def outlineSlots : List Slot := geometrySlots ++ styleSlots ++ modifierSlots

variable {targets : List Target} {shared taken : List Slot} {body : Body R}

omit [Scalar R] in
theorem Body.Written.writeStyle (written : body.Written targets shared taken) {name : String}
    (fresh : ⟨.style, name⟩ ∉ taken) {value : Value R}
    (returned : MotionScene.writeStyle name value body = .ok result) :
    result.Written targets shared (⟨.style, name⟩ :: taken) := by
  obtain ⟨attributes, hattributes, hpure⟩ := bind_eq_ok.mp returned
  obtain rfl := pure_eq_ok.mp hpure
  exact written.write .style fresh hattributes

theorem Body.Written.writeNamed (written : body.Written targets shared taken) {name : String}
    (fresh : ⟨.style, name⟩ ∉ taken) {table : List String} {number : Value R}
    (returned : MotionScene.writeNamed name table number body = .ok result) :
    result.Written targets shared (⟨.style, name⟩ :: taken) := by
  obtain ⟨found?, -, hrest⟩ := bind_eq_ok.mp returned
  cases found? with
  | none =>
      cases hrest
      exact written.mono fun slot h => List.mem_cons_of_mem _ h
  | some entry => exact written.writeStyle fresh hrest

omit [Scalar R] in
/-- A body with a shape and no other target has no style. -/
theorem Body.Written.notMem_style (written : body.Written [.shape] shared taken) :
    "style" ∉ body.attributes.keys := by
  intro h
  have hheld : "style" ∈ body.attributes.keys.filter targetKeys.contains :=
    List.mem_filter.mpr ⟨h, by decide⟩
  rw [written.held] at hheld
  revert hheld
  decide

omit [Scalar R] in
theorem Body.Written.withStyle_eq (written : body.Written [.shape] shared taken) :
    withTarget "style" body.attributes = body.attributes.set "style" (.object []) := by
  rw [withTarget, Members.has, Members.get?_eq_none_iff.mpr written.notMem_style]
  rfl

omit [Scalar R] in
/-- An empty style has no attributes yet. -/
theorem Body.Written.slot?_withStyle (written : body.Written [.shape] shared taken) (slot : Slot) :
    (withTarget "style" body.attributes).slot? slot = body.attributes.slot? slot := by
  have hne : Target.style ≠ .own := by decide
  have hset : withTarget "style" body.attributes =
      body.attributes.set Target.style.key (.object []) := written.withStyle_eq
  rw [hset, Members.slot?_set_target body.attributes hne]
  split
  · rename_i hstyle
    obtain ⟨_, name⟩ := slot
    obtain rfl : Target.style = _ := hstyle
    show _ = (body.attributes.get "style").members.get? name
    rw [Members.get, Members.get?_eq_none_iff.mpr written.notMem_style]
    rfl
  · rfl

omit [Scalar R] in
theorem Body.Written.addStyle (written : body.Written [.shape] shared taken) :
    Body.Written [.shape, .style] shared taken
      { body with attributes := withTarget "style" body.attributes } where
  distinct := by
    show (withTarget "style" body.attributes).keys.Nodup
    rw [written.withStyle_eq]
    exact Members.nodup_keys_set written.distinct _ _
  held := by
    have hheld := written.held
    rw [Members.keys] at hheld
    show (withTarget "style" body.attributes).keys.filter _ = _
    rw [written.withStyle_eq, Members.set_of_notMem written.notMem_style, Members.keys,
      List.map_append, List.filter_append, hheld]
    rfl
  reserved := written.reserved
  constants slot h := written.constants slot (written.slot?_withStyle slot ▸ h)
  constant slot h := (written.slot?_withStyle slot).symm ▸ written.constant slot h
  animated := written.animated
  apart := written.apart
  sharesOnly timeline h slot value patches hvalue :=
    written.sharesOnly timeline h slot value patches ((written.slot?_withStyle slot).symm.trans hvalue)

theorem applyFill_written (written : body.Written [.shape, .style] shared
    (geometrySlots ++ reservedSlots)) {fill : Option (Members R)}
    (returned : applyFill fill clock body = .ok result) :
    result.Written [.shape, .style] shared
      (["fill", "fillOpacity"].map (Slot.mk .style) ++ (geometrySlots ++ reservedSlots)) := by
  unfold applyFill at returned
  split at returned
  · exact (written.writeStyle (by decide) returned).mono (by decide)
  · obtain ⟨colored, hcolored, hfaded⟩ := bind_eq_ok.mp returned
    have hcolored := written.resolveColor .style (by decide) hcolored
    exact (hcolored.resolve .style (by decide) hfaded).mono (by decide)

theorem applyStroke_written (written : body.Written [.shape, .style] shared
    (["fill", "fillOpacity"].map (Slot.mk .style) ++ (geometrySlots ++ reservedSlots)))
    {stroke : Members R} (returned : applyStroke stroke clock body = .ok result) :
    result.Written [.shape, .style] shared (styleSlots ++ (geometrySlots ++ reservedSlots)) := by
  obtain ⟨colored, hcolored, hrest⟩ := bind_eq_ok.mp returned
  obtain ⟨faded, hfaded, hrest⟩ := bind_eq_ok.mp hrest
  obtain ⟨sized, hsized, hrest⟩ := bind_eq_ok.mp hrest
  obtain ⟨capped, hcapped, hrest⟩ := bind_eq_ok.mp hrest
  obtain ⟨joined, hjoined, hrest⟩ := bind_eq_ok.mp hrest
  have hcolored := written.resolveColor .style (by decide) hcolored
  have hfaded := hcolored.resolve .style (by decide) hfaded
  have hsized := hfaded.resolve .style (by decide) hsized
  have hcapped := hsized.writeNamed (by decide) hcapped
  have hjoined := hcapped.writeNamed (by decide) hjoined
  dsimp only at hrest
  split at hrest
  · exact (hjoined.writeStyle (by decide) hrest).mono (by decide)
  · obtain rfl := pure_eq_ok.mp hrest
    exact hjoined.mono (by decide)

theorem applyStyle_written (written : body.Written [.shape] shared
    (geometrySlots ++ reservedSlots)) {fill stroke : Option (Members R)}
    (returned : applyStyle fill stroke clock body = .ok result) :
    result.Written [.shape, .style] shared (styleSlots ++ (geometrySlots ++ reservedSlots)) := by
  obtain ⟨filled, hfilled, hrest⟩ := bind_eq_ok.mp returned
  have hfilled := applyFill_written written.addStyle hfilled
  cases stroke with
  | none =>
      obtain rfl := pure_eq_ok.mp hrest
      exact hfilled.mono (by decide)
  | some stroke => exact applyStroke_written hfilled hrest

theorem applyTrim_written (written : body.Written [.shape, .style] shared
    (styleSlots ++ (geometrySlots ++ reservedSlots))) {trim : Option (Members R)}
    (returned : applyTrim trim clock body = .ok result) :
    result.Written [.shape, .style] shared
      (["trimStart", "trimEnd", "trimOffset"].map (Slot.mk .shape) ++
        (styleSlots ++ (geometrySlots ++ reservedSlots))) := by
  unfold applyTrim at returned
  split at returned
  · cases returned
    exact written.mono fun slot h => List.mem_append_right _ h
  · obtain ⟨started, hstarted, hrest⟩ := bind_eq_ok.mp returned
    obtain ⟨ended, hended, hturned⟩ := bind_eq_ok.mp hrest
    have hstarted := written.resolve .shape (by decide) hstarted
    have hended := hstarted.resolve .shape (by decide) hended
    exact (hended.resolve .shape (by decide) hturned).mono (by decide)

theorem applyRepeater_written (written : body.Written [.shape, .style] shared
    (["trimStart", "trimEnd", "trimOffset"].map (Slot.mk .shape) ++
      (styleSlots ++ (geometrySlots ++ reservedSlots)))) {repeater : Option (Members R)}
    (returned : applyRepeater repeater body = .ok result) :
    result.Written [.shape, .style] shared (outlineSlots ++ reservedSlots) := by
  unfold applyRepeater at returned
  split at returned
  · cases returned
    exact written.mono (by decide)
  · obtain ⟨number, -, hrest⟩ := bind_eq_ok.mp returned
    obtain ⟨copies, -, hrest⟩ := bind_eq_ok.mp hrest
    obtain ⟨offset, -, hrest⟩ := bind_eq_ok.mp hrest
    split at hrest
    · obtain rfl := pure_eq_ok.mp hrest
      exact written.mono (by decide)
    · obtain ⟨members, -, hrest⟩ := bind_eq_ok.mp hrest
      obtain ⟨attributes, hattributes, hpure⟩ := bind_eq_ok.mp hrest
      obtain rfl := pure_eq_ok.mp hpure
      have htarget : withTarget "shape" body.attributes = body.attributes :=
        written.withTarget_eq .shape (by decide)
      rw [htarget] at hattributes
      exact (written.write .shape (by decide) hattributes).mono (by decide)

/-- Every attribute of an outline has one source, but for the geometry of a path. -/
theorem outlineElement_written {kind : ShapeKind} (hkind : kind.isGeometry) {shape : Members R}
    {modifiers : Modifiers (Members R)} {element : Element R}
    (returned : outlineElement kind shape modifiers clock = .ok element) :
    element.type = kind.elementType ∧ element.children? = none ∧
      element.body.Written [.shape, .style] (sharedSlots kind.elementType)
        (outlineSlots ++ reservedSlots) := by
  obtain ⟨body, hbody, hrest⟩ := bind_eq_ok.mp returned
  obtain ⟨styled, hstyled, hrest⟩ := bind_eq_ok.mp hrest
  obtain ⟨trimmed, htrimmed, hrest⟩ := bind_eq_ok.mp hrest
  obtain ⟨repeated, hrepeated, hpure⟩ := bind_eq_ok.mp hrest
  obtain rfl := pure_eq_ok.mp hpure
  have hstyled := applyStyle_written (geometryBody_written hkind hbody) hstyled
  exact ⟨rfl, rfl, applyRepeater_written (applyTrim_written hstyled htrimmed) hrepeated⟩

end Bodies

end MotionScene
