import MotionScene.Proofs.Scene.Target

/-!
# Attributes of scenes have one source

No two timelines of an element of a compiled scene patch the same attribute, and what a
timeline patches is no constant (`compile_attributes_have_one_source`).  There are two
exceptions: the geometry of a path, which has the constant that the timeline starts with,
and the position of an element whose animated anchor was taken into a group around it.
-/

namespace MotionScene

variable {R : Type} [Scalar R]

/-- How an attribute of an element comes to have a constant beside a timeline. -/
inductive Element.SharedSource (forest : List (Element R)) (element : Element R)
    (timeline : Timeline R) (slot : Slot) (value : Value R) : Prop
  /-- The constant is what the timeline starts with. -/
  | geometry (type : element.type = .path) (hslot : slot ∈ pathSlots)
      (starts : timeline.firstValue? slot = some value)
  /-- The constant is zero beside what became of an animated anchor. -/
  | position {body : Body R} {outer : Element R}
      (hslot : slot ∈ (anchorKeys.map (·.2)).map (Slot.mk .own)) (zero : value = .num (.whole 0))
      (houter : outer ∈ forest) (pair : PivotPair body outer element)
      (animated : ∃ anchor ∈ body.timelines, anchor.movesAnchor = true)

namespace Element.Part

variable {forest : List (Element R)} {element : Element R} (part : element.Part forest)

include part

theorem apart : element.body.timelines.Pairwise Timeline.Apart := by
  cases part with
  | leaf _ _ written => exact written.apart
  | group _ _ written => exact written.apart
  | inner _ _ written _ pair => exact (pair.movesAnchorOf written).apart written

theorem sharedSource {timeline : Timeline R} (h : timeline ∈ element.body.timelines) {slot : Slot}
    (patches : timeline.Patches slot) {value : Value R}
    (hvalue : element.body.attributes.slot? slot = some value) :
    element.SharedSource forest timeline slot value := by
  cases part with
  | leaf _ _ written =>
      obtain ⟨hshared, hstarts⟩ := written.sharesOnly timeline h slot value patches hvalue
      cases htype : element.type with
      | path =>
          rw [htype] at hshared
          exact .geometry htype hshared hstarts
      | group | ellipse | rect =>
          rw [htype] at hshared
          cases hshared
  | group _ _ written =>
      cases (written.sharesOnly timeline h slot value patches hvalue).1
  | inner _ _ written houter pair =>
      obtain ⟨hslot, hzero, hanchor⟩ :=
        (pair.movesAnchorOf written).zero_of_patches written h patches hvalue
      exact .position hslot hzero houter pair hanchor

end Element.Part

/-- **Attributes have one source.**  In a compiled scene no two timelines of an element patch
the same attribute, and an attribute that a timeline patches is no constant, but for the
geometry of a path and for the position of an element that had an animated anchor. -/
theorem compile_attributes_have_one_source {value : Value R} {options : Options R}
    {scene : Scene R} (returned : (compile value options).outcome = .ok scene) :
    ∀ element ∈ scene.all, element.body.timelines.Pairwise Timeline.Apart ∧
      ∀ timeline ∈ element.body.timelines, ∀ slot constant, timeline.Patches slot →
        element.body.attributes.slot? slot = some constant →
          element.SharedSource scene.all timeline slot constant := by
  intro element h
  have part := part_of_compile returned h
  exact ⟨part.apart, fun timeline htimeline slot constant patches hconstant =>
    part.sharedSource htimeline patches hconstant⟩

/-- Where the anchor moves, the element in the group around it moves beside a constant. -/
theorem exists_shared_of_movesAnchor {body wrapper inner : Body R}
    (written : body.Written [] [] (ownSlots placingKeys))
    (hsplit : body.splitAtAnchor = .ok (wrapper, inner)) {anchor : Timeline R}
    (h : anchor ∈ body.timelines) (hmoves : anchor.movesAnchor = true) :
    ∃ timeline ∈ inner.timelines, ∃ slot constant, timeline.Patches slot ∧
      inner.attributes.slot? slot = some constant := by
  have moves := movesAnchorOf_splitAtAnchor written hsplit
  obtain ⟨own, hown, animates⟩ := written.exists_key h
  rw [movesAnchor_eq hown animates, List.contains_iff_mem] at hmoves
  have hfree : ∀ key ∈ anchorKeys.map (·.1), (!transformKeys.contains key) = true := by decide
  have hkept : anchor ∈ body.timelines.filter fun timeline => !timeline.touches transformKeys := by
    refine List.mem_filter.mpr ⟨h, ?_⟩
    rw [animates.touches_eq (notMem_ownKeys hown)]
    exact hfree own hmoves
  obtain ⟨timeline, htimeline, key, hkey, -, hanimates⟩ := exists_of_mem_left moves.timelines hkept
  obtain ⟨constant, -, hconstant⟩ := moves.values key hkey
  have hproper : ∀ key ∈ anchorKeys, key.2 ∉ targetKeys := by decide
  refine ⟨timeline, htimeline, ⟨.own, key.2⟩, constant, ?_, ?_⟩
  · exact hanimates.patches_iff.mpr (List.mem_singleton_self _)
  · rw [Members.slot?_own (hproper key hkey), hconstant]

theorem compile_anchoredDocument_sources : ∃ scene,
    (compile (.object anchoredDocument) loopOptions).outcome = .ok scene ∧
      (∃ element ∈ scene.all, ∃ timeline ∈ element.body.timelines, ∃ slot constant,
        timeline.Patches slot ∧ element.body.attributes.slot? slot = some constant) ∧
      ∀ element ∈ scene.all, element.body.timelines.Pairwise Timeline.Apart ∧
        ∀ timeline ∈ element.body.timelines, ∀ slot constant, timeline.Patches slot →
          element.body.attributes.slot? slot = some constant →
            element.SharedSource scene.all timeline slot constant := by
  obtain ⟨timeline, hshapes⟩ := exists_compileShapes_moving
  obtain ⟨body, wrapper, inner, hbody, ⟨anchor, hanchor, hmoves⟩, hsplit, hfinish⟩ :=
    exists_finishLayer_anchored (pathElement timeline)
  obtain ⟨scene, returned, helements⟩ := exists_compile_anchored hshapes hfinish
  refine ⟨scene, returned, ?_, compile_attributes_have_one_source returned⟩
  refine ⟨⟨.group, inner, some [pathElement timeline], none⟩, ?_,
    exists_shared_of_movesAnchor (composeTransform_written hbody) hsplit hanchor hmoves⟩
  rw [Scene.all, helements]
  exact List.mem_cons_of_mem _ List.mem_cons_self

end MotionScene
