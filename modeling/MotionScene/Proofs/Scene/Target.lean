import MotionScene.Proofs.Compile
import MotionScene.Proofs.Element.Reading
import MotionScene.Proofs.Layer.Parts

/-!
# Scenes stay inside the target

The target draws groups, which it moves, scales and turns about their origin, and shapes
without children, which have a geometry and a style.  Every element of a compiled scene is
one of these, none keeps an anchor, and all of it is read back from the object it is written
as (`compile_stays_in_target`).
-/

namespace MotionScene

variable {R : Type} [Scalar R]

/-! ## Elements of the target -/

/-- A body with the geometry of a path.  A timeline that animates any of it animates all of
it in every keyframe, from the geometry that the body has. -/
structure Body.HasGeometry (body : Body R) : Prop where
  present : ∀ slot ∈ pathSlots, (body.attributes.slot? slot).isSome
  whole : ∀ timeline ∈ body.timelines, ∀ slot ∈ pathSlots, timeline.Patches slot →
    ∀ other ∈ pathSlots,
      (∀ keyframe ∈ timeline.keyframes, (keyframe.patch.slot? other).isSome) ∧
        timeline.firstValue? other = body.attributes.slot? other

/-- The kinds of elements that the target draws. -/
inductive Element.OnTarget (element : Element R) : Prop
  | group (type : element.type = .group) (children : element.children?.isSome)
      (attributes : ∀ key ∈ element.body.attributes.keys, key ∈ transformKeys)
      (timelines : ∀ timeline ∈ element.body.timelines,
        ∃ key ∈ transformKeys, timeline.touchedKeys = [key])
  | shape (type : element.type ∈ [.path, .ellipse, .rect]) (childless : element.children? = none)
      (attributes : element.body.attributes.keys = ["shape", "style"])
      (timelines : ∀ timeline ∈ element.body.timelines,
        ∃ key ∈ ["shape", "style"], timeline.touchedKeys = [key])
      (geometry : element.type = .path → element.body.HasGeometry)

/-- An element of the target without an anchor, none of whose attributes and patches takes
the place of something else where it is written.  A repeater keeps an anchor of its own, in
a value of the shape. -/
structure Element.StaysInTarget (element : Element R) : Prop where
  onTarget : element.OnTarget
  anchorless : ∀ target, ∀ key ∈ anchorKeys.map (·.1),
    element.body.attributes.slot? ⟨target, key⟩ = none ∧
      ∀ timeline ∈ element.body.timelines, ¬timeline.Patches ⟨target, key⟩
  attributes : ∀ key ∈ element.body.attributes.keys, key ∉ Element.ownKeys
  patches : ∀ timeline ∈ element.body.timelines, ∀ keyframe ∈ timeline.keyframes,
    ∀ key ∈ keyframe.patch.keys, key ∉ Keyframe.ownKeys

/-! ## Parts of a scene -/

/-- All attributes that elements of a scene have. -/
def sceneSlots : List Slot := outlineSlots ++ ownSlots transformKeys

/-- All keys that timelines of a scene touch. -/
def sceneKeys : List String := targetKeys ++ transformKeys

section Outlines

variable {targets : List Target} {shared : List Slot} {body : Body R}

omit [Scalar R] in
theorem keys_eq_of_written (written : body.Written targets shared (outlineSlots ++ reservedSlots)) :
    body.attributes.keys = targets.map Target.key := by
  rw [← written.held]
  refine (List.filter_eq_self.mpr fun key hkey => ?_).symm
  by_contra htarget
  rw [List.contains_iff_mem] at htarget
  have hsome : (body.attributes.slot? ⟨.own, key⟩).isSome := by
    rwa [Members.slot?_own htarget, Members.isSome_get?_iff]
  have hown : ∀ slot ∈ outlineSlots ++ reservedSlots, slot.target = .own →
      slot.name ∈ targetKeys := by decide
  exact htarget (hown _ (written.constants _ hsome) rfl)

theorem sharedSlots_subset (type : ElementType) : ∀ slot ∈ sharedSlots type, slot ∈ outlineSlots := by
  cases type <;> decide

omit [Scalar R] in
theorem animates_of_written
    (written : body.Written targets shared (outlineSlots ++ reservedSlots))
    (hshared : ∀ slot ∈ shared, slot ∈ outlineSlots) {timeline : Timeline R}
    (h : timeline ∈ body.timelines) : ∃ key ∈ targetKeys, ∃ slots,
      timeline.Animates key slots ∧ ∀ slot ∈ slots, slot ∈ outlineSlots := by
  rcases written.animated timeline h with ⟨-, animates⟩ | ⟨slot, hslot, -, animates⟩
  · exact ⟨"shape", by decide, shared, animates, hshared⟩
  · have hfree := animates.notMem_reservedSlots (List.mem_singleton_self slot)
    have hmem := (List.mem_append.mp hslot).resolve_right hfree
    have hkey : ∀ slot ∈ outlineSlots, slot.key ∈ targetKeys := by decide
    exact ⟨slot.key, hkey slot hmem, [slot], animates, List.forall_mem_singleton.mpr hmem⟩

omit [Scalar R] in
theorem hasGeometry_of_written {taken : List Slot}
    (written : body.Written targets pathSlots taken) : body.HasGeometry where
  present := written.constant
  whole timeline h slot hslot patches other hother := by
    rcases written.animated timeline h with ⟨-, animates⟩ | ⟨own, -, hown, animates⟩
    · refine ⟨fun keyframe hkeyframe => ?_, ?_⟩
      · exact ((animates.patches keyframe hkeyframe).slots other).mpr hother
      · obtain ⟨value, hvalue⟩ := Option.isSome_iff_exists.mp (written.constant other hother)
        rw [hvalue]
        exact (written.sharesOnly timeline h other value
          (animates.patches_iff.mpr hother) hvalue).2
    · -- a timeline of another attribute patches no geometry
      rw [animates.patches_iff, List.mem_singleton] at patches
      exact absurd hslot (patches ▸ hown)

end Outlines

section Inner

variable {body : Body R} {outer inner : Element R}

theorem PivotPair.movesAnchorOf (pair : PivotPair body outer inner)
    (written : body.Written [] [] (ownSlots placingKeys)) : body.MovesAnchorOf inner.body :=
  movesAnchorOf_splitAtAnchor written pair.split

theorem Body.MovesAnchorOf.animates {moved : Body R} (moves : body.MovesAnchorOf moved)
    {timeline : Timeline R} (h : timeline ∈ moved.timelines) :
    ∃ key ∈ anchorKeys.map (·.2), timeline.Animates key [⟨.own, key⟩] := by
  obtain ⟨-, -, key, hkey, -, animates⟩ := exists_of_mem_right moves.timelines h
  exact ⟨key.2, List.mem_map_of_mem hkey, animates⟩

theorem Body.MovesAnchorOf.constants {moved : Body R} (moves : body.MovesAnchorOf moved)
    {slot : Slot} (h : (moved.attributes.slot? slot).isSome) :
    slot ∈ (anchorKeys.map (·.2)).map (Slot.mk .own) := by
  obtain ⟨target, name⟩ := slot
  have hkey := Members.key_mem_of_slot? h
  rw [moves.keys] at hkey
  have hposition : ∀ key ∈ anchorKeys.map (·.2), key ∉ targetKeys := by decide
  cases target with
  | own => exact List.mem_map_of_mem hkey
  | shape => exact absurd (by decide) (hposition "shape" hkey)
  | style => exact absurd (by decide) (hposition "style" hkey)

end Inner

namespace Element.Part

variable {forest : List (Element R)} {element : Element R} (part : element.Part forest)

include part

theorem animates {timeline : Timeline R} (h : timeline ∈ element.body.timelines) :
    ∃ key ∈ sceneKeys, ∃ slots, timeline.Animates key slots ∧ ∀ slot ∈ slots, slot ∈ sceneSlots := by
  cases part with
  | leaf _ _ written =>
      obtain ⟨key, hkey, slots, animates, hslots⟩ :=
        animates_of_written written (sharedSlots_subset element.type) h
      exact ⟨key, List.mem_append_left _ hkey, slots, animates,
        fun slot hslot => List.mem_append_left _ (hslots slot hslot)⟩
  | group _ _ written =>
      obtain ⟨key, hkey, animates⟩ := written.exists_key h
      refine ⟨key, List.mem_append_right _ hkey, [⟨.own, key⟩], animates, ?_⟩
      refine List.forall_mem_singleton.mpr (List.mem_append_right _ (List.mem_append_left _ ?_))
      exact List.mem_map_of_mem hkey
  | inner _ _ written _ pair =>
      obtain ⟨key, hkey, animates⟩ := (pair.movesAnchorOf written).animates h
      have hposition : ∀ key ∈ anchorKeys.map (·.2),
          key ∈ sceneKeys ∧ ⟨.own, key⟩ ∈ sceneSlots := by decide
      obtain ⟨hscene, hslot⟩ := hposition key hkey
      exact ⟨key, hscene, [⟨.own, key⟩], animates, List.forall_mem_singleton.mpr hslot⟩

theorem constants {slot : Slot} (h : (element.body.attributes.slot? slot).isSome) :
    slot ∈ sceneSlots := by
  cases part with
  | leaf _ _ written =>
      have hall : ∀ slot ∈ outlineSlots ++ reservedSlots, slot ∈ sceneSlots := by decide
      exact hall slot (written.constants slot h)
  | group _ _ written => exact List.mem_append_right _ (written.constants slot h)
  | inner _ _ written _ pair =>
      have hall : ∀ slot ∈ (anchorKeys.map (·.2)).map (Slot.mk .own), slot ∈ sceneSlots := by
        decide
      exact hall slot ((pair.movesAnchorOf written).constants h)

theorem onTarget : element.OnTarget := by
  have hown : ∀ key ∈ sceneKeys, key ∉ Keyframe.ownKeys := by decide
  cases part with
  | leaf type childless written =>
      have htype : element.type ∈ [.path, .ellipse, .rect] := by
        cases htype : element.type with
        | group => exact absurd htype type
        | path | ellipse | rect => decide
      refine .shape htype childless (keys_eq_of_written written) (fun timeline h => ?_) fun hpath => ?_
      · obtain ⟨key, hkey, slots, animates, -⟩ :=
          animates_of_written written (sharedSlots_subset element.type) h
        exact ⟨key, hkey, animates.touchedKeys_eq (hown key (List.mem_append_left _ hkey))⟩
      · rw [hpath] at written
        exact hasGeometry_of_written written
  | group type children written =>
      refine .group type children (fun key h => written.mem_of_mem_keys h) fun timeline h => ?_
      obtain ⟨key, hkey, animates⟩ := written.exists_key h
      exact ⟨key, hkey, animates.touchedKeys_eq (hown key (List.mem_append_right _ hkey))⟩
  | inner type children written _ pair =>
      have moves := pair.movesAnchorOf written
      have hposition : ∀ key ∈ anchorKeys.map (·.2), key ∈ transformKeys := by decide
      refine .group type children (fun key h => ?_) fun timeline h => ?_
      · rw [moves.keys] at h
        exact hposition key h
      · obtain ⟨key, hkey, animates⟩ := moves.animates h
        have hkey := hposition key hkey
        exact ⟨key, hkey, animates.touchedKeys_eq (hown key (List.mem_append_right _ hkey))⟩

/-- The keys of an element are those that its kind has. -/
theorem mem_sceneKeys {key : String} (h : key ∈ element.body.attributes.keys) :
    key ∈ sceneKeys := by
  cases part.onTarget with
  | group _ _ attributes _ => exact List.mem_append_right _ (attributes key h)
  | shape _ _ attributes _ _ =>
      rw [attributes] at h
      exact List.mem_append_left _ h

theorem staysInTarget : element.StaysInTarget where
  onTarget := part.onTarget
  anchorless target key hkey := by
    have hfree : ∀ target, ∀ key ∈ anchorKeys.map (·.1), ⟨target, key⟩ ∉ sceneSlots := by
      intro target
      cases target <;> decide
    refine ⟨?_, fun timeline h patches => ?_⟩
    · rw [← Option.not_isSome_iff_eq_none]
      exact fun hsome => hfree target key hkey (part.constants hsome)
    · obtain ⟨own, -, slots, animates, hslots⟩ := part.animates h
      exact hfree target key hkey (hslots _ (animates.patches_iff.mp patches))
  attributes key h := by
    have hfree : ∀ key ∈ sceneKeys, key ∉ Element.ownKeys := by decide
    exact hfree key (part.mem_sceneKeys h)
  patches timeline h keyframe hkeyframe key hkey := by
    have hfree : ∀ key ∈ sceneKeys, key ∉ Keyframe.ownKeys := by decide
    obtain ⟨own, hown, slots, animates, -⟩ := part.animates h
    rw [(animates.patches keyframe hkeyframe).keys, List.mem_singleton] at hkey
    exact hkey ▸ hfree own hown

theorem distinct : element.body.attributes.keys.Nodup := by
  cases part with
  | leaf _ _ written => exact written.distinct
  | group _ _ written => exact written.distinct
  | inner _ _ written _ pair =>
      rw [(pair.movesAnchorOf written).keys]
      decide

/-- Nothing of an element of a scene is lost when it is written. -/
theorem legible : element.body.Legible where
  attributes := ⟨part.distinct, part.staysInTarget.attributes⟩
  timelines timeline h keyframe hkeyframe := by
    refine ⟨?_, part.staysInTarget.patches timeline h keyframe hkeyframe⟩
    obtain ⟨own, -, slots, animates, -⟩ := part.animates h
    rw [(animates.patches keyframe hkeyframe).keys]
    exact List.pairwise_singleton _ _

end Element.Part

/-! ## Compiled scenes -/

theorem part_of_compile {value : Value R} {options : Options R} {scene : Scene R}
    (returned : (compile value options).outcome = .ok scene) {element : Element R}
    (h : element ∈ scene.all) : element.Part scene.all := by
  obtain ⟨document, -, hrest⟩ := Traced.outcome_bind_eq_ok.mp returned
  obtain ⟨clock, -, hrest⟩ := Traced.outcome_bind_eq_ok.mp hrest
  obtain ⟨elements, helements, hrest⟩ := Traced.outcome_bind_eq_ok.mp hrest
  obtain ⟨duration, -, hrest⟩ := Traced.outcome_bind_eq_ok.mp hrest
  obtain ⟨-, -, hpure⟩ := Traced.outcome_bind_eq_ok.mp hrest
  cases hpure
  rw [Scene.all, Element.allOf_eq_flatMap] at h ⊢
  obtain ⟨top, htop, hpart⟩ := List.mem_flatMap.mp h
  have made := assembleLayers_made clock.shifts_self _ helements top htop
  refine (made.part element hpart).mono fun other hother => ?_
  exact List.mem_flatMap.mpr ⟨top, htop, hother⟩

/-- **Compiled scenes stay inside the target.**  Every element of a compiled scene is a group
or a shape of the target without an anchor, and it is read back, with all below it, from the
object that it is written as. -/
theorem compile_stays_in_target {value : Value R} {options : Options R} {scene : Scene R}
    (returned : (compile value options).outcome = .ok scene) :
    ∀ element ∈ scene.all,
      element.StaysInTarget ∧ Element.read? element.toValue = some element := by
  intro element h
  refine ⟨(part_of_compile returned h).staysInTarget, Element.read?_toValue element ?_⟩
  intro part hpart
  exact (part_of_compile returned (Element.mem_allOf_trans scene.elements h hpart)).legible

/-! ## A layer with a moving anchor -/

/-- A keyframe at the first frame. -/
def firstKeyframe (start : Value ℝ) : Value ℝ :=
  .object [("t", .num (.whole 0)), ("s", start)]

/-- A bezier without vertices. -/
def emptyBezier : Value ℝ :=
  .object [("v", .list []), ("i", .list []), ("o", .list [])]

/-- The keyframes of a moving anchor. -/
def anchorKeyframes : List (Value ℝ) :=
  [firstKeyframe (.list [.num (.whole 5), .num (.whole 0)])]

def pathKeyframes : List (Value ℝ) := [firstKeyframe (.list [emptyBezier])]

/-- A path with an animated geometry. -/
def movingPath : Value ℝ :=
  .object [("ty", .text "sh"), ("ks", .object [("k", .list pathKeyframes)])]

/-- A layer with that path that has an animated anchor. -/
def anchoredLayer : Members ℝ :=
  [("ty", .num (.whole 4)), ("ks", .object [("a", .object [("k", .list anchorKeyframes)])]),
    ("shapes", .list [movingPath])]

def anchoredDocument : Members ℝ :=
  [("fr", .num (.whole 25)), ("ip", .num (.whole 5)), ("op", .num (.whole 50)),
    ("layers", .list [.object anchoredLayer])]

/-- A keyframe at the first frame is enough for a timeline. -/
theorem exists_buildTimeline_first {rule : PatchRule ℝ} (sets : rule.Sets) {start : Value ℝ}
    {patch : Members ℝ} (hstart : start.isNull = false) (hrule : rule start = .ok (some patch))
    (axis : Nat) : ∃ timeline,
      buildTimeline [firstKeyframe start] rule turningClock axis = .ok (some timeline) := by
  have hsources : [firstKeyframe start].filterMap SourceKeyframe.ofValue? =
      [⟨[("t", .num (.whole 0)), ("s", start)], .whole 0⟩] := rfl
  have hposition : turningClock.position (.whole 0) ∈ Set.Icc 0 1 := by
    have hoffset : turningClock.offset.value = 0 := Nat.cast_zero
    rw [Clock.position, Clock.value_span, hoffset]
    norm_num [turningClock]
  have hresolves : Resolves turningClock rule
      ([firstKeyframe start].filterMap SourceKeyframe.ofValue?) fun _ => patch := by
    rw [hsources]
    refine ⟨List.pairwise_singleton _ _, List.forall_mem_singleton.mpr hposition, ?_, ?_⟩
    all_goals
      intro index h
      obtain rfl : index = 0 := Nat.lt_one_iff.mp h
    · exact hstart
    · exact hrule
  have hrate : turningClock.frameRate.value ≠ 0 := by
    rw [turningClock, Number.value_whole]
    norm_num
  exact exists_buildTimeline (hsources ▸ List.cons_ne_nil _ _) hresolves sets hrate axis

/-- The path as an element. -/
def pathElement (timeline : Timeline ℝ) : Element ℝ :=
  ⟨.path, ⟨[("shape", .object (firstGeometry timeline)),
    ("style", .object [("fill", .text "none")])], [timeline]⟩, none, none⟩

theorem exists_compileShapes_moving : ∃ timeline : Timeline ℝ,
    (compileShapes turningClock (.list [movingPath])).outcome = .ok [pathElement timeline] := by
  obtain ⟨timeline, h⟩ : ∃ timeline,
      buildTimeline pathKeyframes pathRule turningClock 0 = .ok (some timeline) :=
    exists_buildTimeline_first pathRule_sets rfl rfl 0
  have houtline : outlineElement .path movingPath.members .empty turningClock =
      .ok (pathElement timeline) := by
    show ((buildTimeline pathKeyframes pathRule turningClock 0 >>= _) >>= _) = _
    rw [h]
    rfl
  refine ⟨timeline, ?_⟩
  rw [compileShapes]
  exact Traced.outcome_bind_eq_ok.mpr ⟨[], rfl, Traced.outcome_bind_eq_ok.mpr
    ⟨[pathElement timeline], Traced.outcome_bind_eq_ok.mpr ⟨_, houtline, rfl⟩, rfl⟩⟩

/-- The anchor becomes two timelines of the group of the layer. -/
theorem exists_composeTransform_anchored : ∃ body : Body ℝ,
    composeTransform (anchoredLayer.get "ks") turningClock = .ok body ∧
      ∃ anchor ∈ body.timelines, anchor.movesAnchor = true := by
  obtain ⟨x, hx⟩ : ∃ timeline, buildTimeline anchorKeyframes (axisRule "" "anchorX" .none 0)
      turningClock 0 = .ok (some timeline) :=
    exists_buildTimeline_first (axisRule_sets (by decide) (by decide) .none 0) rfl rfl 0
  obtain ⟨y, hy⟩ : ∃ timeline, buildTimeline anchorKeyframes (axisRule "" "anchorY" .none 1)
      turningClock 1 = .ok (some timeline) :=
    exists_buildTimeline_first (axisRule_sets (by decide) (by decide) .none 1) rfl rfl 1
  refine ⟨⟨[], [x, y]⟩, ?_, x, List.mem_cons_self, ?_⟩
  · show (axisTimelines anchorKeyframes "" .none turningClock 0 ["anchorX", "anchorY"] >>= _) = _
    rw [axisTimelines, axisTimelines]
    show ((buildTimeline anchorKeyframes (axisRule "" "anchorX" .none 0) turningClock 0 >>= _) >>=
      _) = _
    rw [hx]
    show (((buildTimeline anchorKeyframes (axisRule "" "anchorY" .none 1) turningClock 1 >>= _) >>=
      _) >>= _) = _
    rw [hy]
    rfl
  · have tracks := tracks_buildTimeline (by decide) hx
    rw [Timeline.movesAnchor, tracks.touches (by decide)]
    rfl

/-- The group of the layer is put into another one. -/
theorem exists_finishLayer_anchored (path : Element ℝ) : ∃ body wrapper inner,
    composeTransform (anchoredLayer.get "ks") turningClock = .ok body ∧
      (∃ anchor ∈ body.timelines, anchor.movesAnchor = true) ∧
      body.splitAtAnchor = .ok (wrapper, inner) ∧
      finishLayer anchoredLayer [path] turningClock =
        .ok ⟨some wrapper, ⟨.group, inner, some [path], none⟩⟩ := by
  obtain ⟨body, hbody, anchor, hanchor, hmoves⟩ := exists_composeTransform_anchored
  obtain ⟨wrapper, inner, hsplit, -⟩ := exists_splitAtAnchor (placing_composeTransform hbody)
  refine ⟨body, wrapper, inner, hbody, ⟨anchor, hanchor, hmoves⟩, hsplit, ?_⟩
  have hhas : body.hasAnchor = true := by
    rw [Body.hasAnchor, Bool.or_eq_true]
    exact .inr (List.any_eq_true.mpr ⟨anchor, hanchor, hmoves⟩)
  show (Element.group [path] none).withTransform (anchoredLayer.get "ks") turningClock >>=
    Element.pivot = _
  rw [withTransform_group hbody, ok_bind, Element.pivot, if_pos hhas, hsplit]
  rfl

theorem exists_compile_anchored {path : Element ℝ} {pivoted : Pivoted ℝ}
    (hshapes : (compileShapes turningClock (.list [movingPath])).outcome = .ok [path])
    (hfinish : finishLayer anchoredLayer [path] turningClock = .ok pivoted) :
    ∃ scene, (compile (.object anchoredDocument) loopOptions).outcome = .ok scene ∧
      scene.elements = [pivoted.outer] := by
  have hbuilt : (buildMembers turningClock anchoredLayer anchoredLayer).outcome =
      .ok (some pivoted) := by
    rw [buildMembers]
    exact Traced.outcome_bind_eq_ok.mpr ⟨[path], hshapes,
      Traced.outcome_bind_eq_ok.mpr ⟨_, hfinish, rfl⟩⟩
  have hmigrated : (migrate (.object anchoredDocument)).outcome =
      .ok ⟨anchoredDocument, .unknown⟩ := rfl
  have hclock : (documentClock anchoredDocument loopOptions).outcome = .ok turningClock := rfl
  obtain ⟨duration, hduration⟩ : ∃ duration, turningClock.duration = .ok duration := by
    refine ⟨_, Clock.duration_eq _ ?_⟩
    rw [turningClock, Number.value_whole]
    norm_num
  exact exists_compile_of_assembled hmigrated hclock (assembleLayers_alone hbuilt rfl rfl)
    hduration

theorem compile_anchoredDocument : ∃ scene,
    (compile (.object anchoredDocument) loopOptions).outcome = .ok scene ∧
      scene.all.length = 3 ∧ ∀ element ∈ scene.all,
        element.StaysInTarget ∧ Element.read? element.toValue = some element := by
  obtain ⟨timeline, hshapes⟩ := exists_compileShapes_moving
  obtain ⟨body, wrapper, inner, -, -, -, hfinish⟩ :=
    exists_finishLayer_anchored (pathElement timeline)
  obtain ⟨scene, returned, helements⟩ := exists_compile_anchored hshapes hfinish
  refine ⟨scene, returned, ?_, compile_stays_in_target returned⟩
  rw [Scene.all, helements]
  rfl

end MotionScene
