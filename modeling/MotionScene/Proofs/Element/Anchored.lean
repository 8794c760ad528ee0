import MotionScene.Proofs.Element.Pivot
import MotionScene.Proofs.Element.Written

/-!
# Attributes of groups

A transform writes attributes of its own, the anchor among them (`composeTransform_written`).
Taking the anchor away leaves a body that has none (`withoutAnchor_written`), or two of
them: the group around the element keeps all attributes but the anchor
(`splitAtAnchor_written`), and the element keeps a position, animated where the anchor was
(`movesAnchorOf_splitAtAnchor`).
-/

namespace MotionScene

variable {R : Type}

/-! ## Transforms -/

theorem written_empty : (Body.empty : Body R).Written [] [] reservedSlots where
  distinct := .nil
  held := rfl
  reserved _ h := h
  constants slot h := by
    change (Members.slot? [] slot).isSome at h
    rw [Members.slot?_nil] at h
    cases h
  constant _ h := by cases h
  animated _ h := by cases h
  apart := .nil
  sharesOnly _ h := by cases h

/-- Attributes of an element itself, with the keys that name targets. -/
def ownSlots (keys : List String) : List Slot :=
  keys.map (Slot.mk .own) ++ reservedSlots

section Transform

variable [Scalar R] {clock : Clock R} {transform : Value R}

theorem resolvePosition_written {position : Value R} {body : Body R}
    (returned : resolvePosition position clock Body.empty = .ok body) :
    body.Written [] [] (ownSlots ["x", "y"]) := by
  unfold resolvePosition at returned
  split at returned
  · obtain ⟨middle, hmiddle, hrest⟩ := bind_eq_ok.mp returned
    have hmiddle := written_empty.resolve .own (by decide) hmiddle
    exact (hmiddle.resolve .own (by decide) hrest).mono (by decide)
  · exact written_empty.resolve .own (by decide) returned

theorem composeTransform_written {body : Body R}
    (returned : composeTransform transform clock = .ok body) :
    body.Written [] [] (ownSlots placingKeys) := by
  unfold composeTransform at returned
  split at returned
  · obtain ⟨placed, hplaced, hrest⟩ := bind_eq_ok.mp returned
    obtain ⟨scaled, hscaled, hrest⟩ := bind_eq_ok.mp hrest
    obtain ⟨turned, hturned, hanchored⟩ := bind_eq_ok.mp hrest
    have hplaced := resolvePosition_written hplaced
    have hscaled := hplaced.resolve .own (by decide) hscaled
    have hturned := hscaled.resolve .own (by decide) hturned
    exact (hturned.resolve .own (by decide) hanchored).mono (by decide)
  · cases returned
    exact written_empty.mono (by decide)

/-- A group with a transform has its attributes and timelines. -/
theorem withTransform_group {body : Body R}
    (hbody : composeTransform transform clock = .ok body) (children : List (Element R))
    (name? : Option String) : (Element.group children name?).withTransform transform clock =
      .ok ⟨.group, body, some children, name?⟩ := by
  have hmerge : Members.merge [] body.attributes = body.attributes :=
    Members.merge_eq_append (composeTransform_written hbody).distinct fun key _ h => by cases h
  rw [Element.withTransform, hbody]
  show Except.ok (⟨.group, ⟨Members.merge [] body.attributes, [] ++ body.timelines⟩, _, _⟩ :
    Element R) = _
  rw [hmerge, List.nil_append]
  rfl

theorem eq_of_withTransform {children : List (Element R)} {name? : Option String}
    {placed : Element R}
    (returned : (Element.group children name?).withTransform transform clock = .ok placed) :
    ∃ body, body.Written [] [] (ownSlots placingKeys) ∧
      placed = ⟨.group, body, some children, name?⟩ := by
  obtain ⟨body, hbody, -⟩ := bind_eq_ok.mp returned
  refine ⟨body, composeTransform_written hbody, ?_⟩
  exact Except.ok.inj (returned.symm.trans (withTransform_group hbody children name?))

end Transform

/-! ## Parts of bodies -/

section Parts

theorem slot?_of_sublist {members part : Members R} (distinct : members.keys.Nodup)
    (h : part.Sublist members) {slot : Slot} {value : Value R}
    (hvalue : part.slot? slot = some value) : members.slot? slot = some value := by
  obtain ⟨target, name⟩ := slot
  by_cases hown : target = .own
  · subst hown
    by_cases hname : name ∈ targetKeys
    · rw [Members.slot?, if_pos hname] at hvalue
      cases hvalue
    · rw [Members.slot?_own hname] at hvalue ⊢
      exact Members.get?_of_sublist distinct h hvalue
  · rw [Members.slot?_under hown, Members.get] at hvalue ⊢
    cases hget : part.get? target.key with
    | none =>
        rw [hget] at hvalue
        cases hvalue
    | some found =>
        rw [hget] at hvalue
        rwa [Members.get?_of_sublist distinct h hget]

/-- A timeline animates attributes only, none of the keys that name targets. -/
theorem Timeline.Animates.notMem_reservedSlots {timeline : Timeline R} {key : String}
    {slots : List Slot} (animates : timeline.Animates key slots) {slot : Slot}
    (h : slot ∈ slots) : slot ∉ reservedSlots := by
  intro hreserved
  obtain ⟨name, hname, rfl⟩ := List.mem_map.mp hreserved
  obtain ⟨keyframe, hkeyframe⟩ := List.exists_mem_of_ne_nil _ animates.nonempty
  have hsome := ((animates.patches keyframe hkeyframe).slots _).mpr h
  rw [Members.slot?, if_pos hname] at hsome
  cases hsome

variable {body : Body R} {keys : List String}

theorem exists_own_of_mem {slot : Slot} (h : slot ∈ ownSlots keys) :
    ∃ name, slot = ⟨.own, name⟩ := by
  rcases List.mem_append.mp h with h | h
  all_goals
    obtain ⟨name, -, rfl⟩ := List.mem_map.mp h
    exact ⟨name, rfl⟩

namespace Body.Written

variable (written : body.Written [] [] (ownSlots keys))

include written

theorem exists_key {timeline : Timeline R} (h : timeline ∈ body.timelines) :
    ∃ key ∈ keys, timeline.Animates key [⟨.own, key⟩] := by
  rcases written.animated timeline h with ⟨hnil, -⟩ | ⟨slot, hslot, -, animates⟩
  · exact absurd rfl hnil
  · have hfree := animates.notMem_reservedSlots (List.mem_singleton_self slot)
    obtain ⟨key, hkey, rfl⟩ := List.mem_map.mp ((List.mem_append.mp hslot).resolve_right hfree)
    exact ⟨key, hkey, animates⟩

theorem mem_of_mem_keys {key : String} (h : key ∈ body.attributes.keys) : key ∈ keys := by
  have hproper : key ∉ targetKeys := by
    intro htarget
    have hheld := List.mem_filter.mpr ⟨h, List.contains_iff_mem.mpr htarget⟩
    rw [written.held] at hheld
    cases hheld
  have hsome : (body.attributes.slot? ⟨.own, key⟩).isSome := by
    rwa [Members.slot?_own hproper, Members.isSome_get?_iff]
  rcases List.mem_append.mp (written.constants _ hsome) with hmem | hmem
  · obtain ⟨_, hkey, heq⟩ := List.mem_map.mp hmem
    cases heq
    exact hkey
  · obtain ⟨_, hkey, heq⟩ := List.mem_map.mp hmem
    cases heq
    exact absurd hkey hproper

/-- Part of the attributes and timelines, with the keys of that part. -/
theorem restrict {kept : List String} {attributes : Members R} {timelines : List (Timeline R)}
    (hattributes : attributes.Sublist body.attributes)
    (htimelines : timelines.Sublist body.timelines)
    (hkeys : ∀ key ∈ attributes.keys, key ∈ kept)
    (hanimated : ∀ timeline ∈ timelines, ∃ key ∈ kept, timeline.Animates key [⟨.own, key⟩]) :
    Body.Written [] [] (ownSlots kept) ⟨attributes, timelines⟩ where
  distinct := written.distinct.sublist (hattributes.map _)
  held := by
    have hpart := (hattributes.map (·.1)).filter targetKeys.contains
    have hheld := written.held
    rw [Members.keys] at hheld
    rw [hheld] at hpart
    exact List.sublist_nil.mp hpart
  reserved slot h := List.mem_append_right _ h
  constants slot h := by
    obtain ⟨value, hvalue⟩ := Option.isSome_iff_exists.mp h
    have hmem : slot ∈ ownSlots keys := by
      refine written.constants slot ?_
      rw [slot?_of_sublist written.distinct hattributes hvalue]
      rfl
    obtain ⟨name, rfl⟩ := exists_own_of_mem hmem
    by_cases hname : name ∈ targetKeys
    · rw [Members.slot?, if_pos hname] at hvalue
      cases hvalue
    · rw [Members.slot?_own hname, Members.isSome_get?_iff] at h
      exact List.mem_append_left _ (List.mem_map_of_mem (hkeys name h))
  constant _ h := by cases h
  animated timeline h := by
    obtain ⟨key, hkey, animates⟩ := hanimated timeline h
    exact .inr ⟨⟨.own, key⟩, List.mem_append_left _ (List.mem_map_of_mem hkey),
      List.not_mem_nil, animates⟩
  apart := written.apart.sublist htimelines
  sharesOnly timeline h slot value patches hvalue :=
    written.sharesOnly timeline (htimelines.subset h) slot value patches
      (slot?_of_sublist written.distinct hattributes hvalue)

end Body.Written

end Parts

/-! ## Anchors -/

section Anchors

variable [Scalar R] {body wrapper inner : Body R}

omit [Scalar R] in
theorem movesAnchor_eq {timeline : Timeline R} {key : String} (hkey : key ∈ placingKeys)
    (animates : timeline.Animates key [⟨.own, key⟩]) :
    timeline.movesAnchor = (anchorKeys.map (·.1)).contains key :=
  animates.touches_eq (notMem_ownKeys hkey) _

theorem withoutAnchor_written (written : body.Written [] [] (ownSlots placingKeys))
    (free : body.hasAnchor = false) :
    body.withoutAnchor.Written [] [] (ownSlots transformKeys) := by
  obtain ⟨-, htimelines⟩ := hasAnchor_eq_false.mp free
  have hsublist : body.withoutAnchor.attributes.Sublist body.attributes :=
    List.filter_sublist.trans List.filter_sublist
  refine written.restrict hsublist (List.Sublist.refl _) (fun key h => ?_) fun timeline h => ?_
  · have hplacing := written.mem_of_mem_keys ((hsublist.map (·.1)).subset h)
    refine (List.mem_append.mp hplacing).resolve_right fun hanchor => ?_
    obtain ⟨anchor, hmem, rfl⟩ := List.mem_map.mp hanchor
    exact Members.get?_eq_none_iff.mp (get?_anchor_withoutAnchor hmem) h
  · obtain ⟨key, hkey, animates⟩ := written.exists_key h
    refine ⟨key, (List.mem_append.mp hkey).resolve_right fun hanchor => ?_, animates⟩
    have hmoves := htimelines timeline h
    rw [movesAnchor_eq hkey animates, ← Bool.not_eq_true, List.contains_iff_mem] at hmoves
    exact hmoves hanchor

/-- An element that is moved by the opposite of an anchor, with timelines that were those of
the anchor. -/
structure Body.MovesAnchorOf (body inner : Body R) : Prop where
  keys : inner.attributes.keys = anchorKeys.map (·.2)
  values : ∀ key ∈ anchorKeys, ∃ value,
    opposite ((body.attributes.get? key.1).getD (.num (.whole 0))) = .ok value ∧
      inner.attributes.get? key.2 = some value
  timelines : List.Forall₂ (fun timeline result => ∃ key ∈ anchorKeys,
      timeline.Animates key.1 [⟨.own, key.1⟩] ∧ result.Animates key.2 [⟨.own, key.2⟩])
    (body.timelines.filter fun timeline => !timeline.touches transformKeys) inner.timelines

/-- Attributes that are all of the anchor become those of the position. -/
theorem eq_of_retargetAttributes {attributes result : Members R}
    (hkeys : ∀ key ∈ attributes.keys, key ∈ anchorKeys.map (·.1))
    (returned : retargetAttributes attributes = .ok result) :
    ∃ x y, opposite ((attributes.get? "anchorX").getD (.num (.whole 0))) = .ok x ∧
      opposite ((attributes.get? "anchorY").getD (.num (.whole 0))) = .ok y ∧
      result = [("x", x), ("y", y)] := by
  obtain ⟨first, hfirst, hrest⟩ := bind_eq_ok.mp returned
  obtain ⟨second, hsecond, hpure⟩ := bind_eq_ok.mp hrest
  obtain rfl := pure_eq_ok.mp hpure
  obtain ⟨x, hx, hpure⟩ := bind_eq_ok.mp hfirst
  obtain rfl := pure_eq_ok.mp hpure
  obtain ⟨y, hy, hpure⟩ := bind_eq_ok.mp hsecond
  obtain rfl := pure_eq_ok.mp hpure
  dsimp only at hx hy ⊢
  rw [Members.get?_set_of_ne _ _ (by decide), Members.get?_erase_of_ne _ (by decide)] at hy
  refine ⟨x, y, hx, hy, ?_⟩
  have hone : ∀ entry ∈ attributes.erase "anchorX", entry.1 = "anchorY" := by
    intro entry h
    obtain ⟨hmem, hne⟩ := List.mem_filter.mp h
    rcases List.mem_cons.mp (hkeys entry.1 (List.mem_map_of_mem hmem)) with hkey | hkey
    · exact absurd hkey (of_decide_eq_true hne)
    · exact List.mem_singleton.mp hkey
  have hfresh : "x" ∉ (attributes.erase "anchorX").keys := by
    intro h
    obtain ⟨entry, hentry, hname⟩ := List.mem_map.mp h
    rw [hone entry hentry] at hname
    exact absurd hname (by decide)
  have hgone : (attributes.erase "anchorX").filter (·.1 ≠ "anchorY") = [] :=
    List.filter_eq_nil_iff.mpr fun entry h => by simp [hone entry h]
  rw [Members.set_of_notMem hfresh, Members.erase, List.filter_append, hgone]
  rfl

theorem splitAtAnchor_written (written : body.Written [] [] (ownSlots placingKeys))
    (returned : body.splitAtAnchor = .ok (wrapper, inner)) :
    wrapper.Written [] [] (ownSlots transformKeys) := by
  obtain ⟨attributes, -, hrest⟩ := bind_eq_ok.mp returned
  obtain ⟨timelines, -, hpure⟩ := bind_eq_ok.mp hrest
  cases hpure
  refine written.restrict List.filter_sublist List.filter_sublist (fun key h => ?_)
    fun timeline h => ?_
  · obtain ⟨entry, hentry, rfl⟩ := List.mem_map.mp h
    exact List.contains_iff_mem.mp (List.mem_filter.mp hentry).2
  · obtain ⟨hmem, htouches⟩ := List.mem_filter.mp h
    obtain ⟨key, hkey, animates⟩ := written.exists_key hmem
    rw [animates.touches_eq (notMem_ownKeys hkey), List.contains_iff_mem] at htouches
    exact ⟨key, htouches, animates⟩

omit [Scalar R] in
/-- The attributes that do not stay with the transform are those of the anchor. -/
theorem keys_besides_transform (written : body.Written [] [] (ownSlots placingKeys)) :
    ∀ key ∈ Members.keys (body.attributes.filter fun entry => !transformKeys.contains entry.1),
      key ∈ anchorKeys.map (·.1) := by
  intro key h
  obtain ⟨entry, hentry, rfl⟩ := List.mem_map.mp h
  obtain ⟨hmem, hfree⟩ := List.mem_filter.mp hentry
  have hplacing := written.mem_of_mem_keys (List.mem_map_of_mem hmem)
  refine (List.mem_append.mp hplacing).resolve_left fun htransform => ?_
  rw [List.contains_iff_mem.mpr htransform] at hfree
  cases hfree

/-- A timeline that does not stay with the transform animates the anchor, and its opposite
animates the position. -/
theorem animates_besides_transform (written : body.Written [] [] (ownSlots placingKeys))
    {timeline result : Timeline R}
    (h : timeline ∈ body.timelines.filter fun timeline => !timeline.touches transformKeys)
    (returned : (if timeline.movesAnchor then timeline.retarget else .ok timeline) = .ok result) :
    ∃ key ∈ anchorKeys, timeline.Animates key.1 [⟨.own, key.1⟩] ∧
      result.Animates key.2 [⟨.own, key.2⟩] := by
  obtain ⟨hmem, hfree⟩ := List.mem_filter.mp h
  obtain ⟨key, hkey, animates⟩ := written.exists_key hmem
  rw [animates.touches_eq (notMem_ownKeys hkey), Bool.not_eq_true', ← Bool.not_eq_true,
    List.contains_iff_mem] at hfree
  have hanchor := (List.mem_append.mp hkey).resolve_left hfree
  rw [movesAnchor_eq hkey animates, if_pos (List.contains_iff_mem.mpr hanchor)] at returned
  obtain ⟨anchor, hmem, rfl⟩ := List.mem_map.mp hanchor
  exact ⟨anchor, hmem, animates, animates.retarget hmem returned⟩

theorem movesAnchorOf_splitAtAnchor (written : body.Written [] [] (ownSlots placingKeys))
    (returned : body.splitAtAnchor = .ok (wrapper, inner)) : body.MovesAnchorOf inner := by
  obtain ⟨attributes, hattributes, hrest⟩ := bind_eq_ok.mp returned
  obtain ⟨timelines, htimelines, hpure⟩ := bind_eq_ok.mp hrest
  cases hpure
  obtain ⟨x, y, hx, hy, rfl⟩ :=
    eq_of_retargetAttributes (keys_besides_transform written) hattributes
  have hkept : ∀ key ∈ anchorKeys, Members.get? (body.attributes.filter fun entry =>
      !transformKeys.contains entry.1) key.1 = body.attributes.get? key.1 := by
    have hanchor : ∀ key ∈ anchorKeys, (!transformKeys.contains key.1) = true := by decide
    exact fun key hkey =>
      Members.get?_filter (fun name => !transformKeys.contains name) (hanchor key hkey)
  rw [hkept ("anchorX", "x") (by decide)] at hx
  rw [hkept ("anchorY", "y") (by decide)] at hy
  refine ⟨rfl, fun key hkey => ?_, ?_⟩
  · rcases List.mem_cons.mp hkey with rfl | hkey
    · exact ⟨x, hx, rfl⟩
    · obtain rfl := List.mem_singleton.mp hkey
      exact ⟨y, hy, rfl⟩
  · exact forall₂_imp_of_mem (mapM_eq_ok.mp htimelines) fun timeline h result hresult =>
      animates_besides_transform written h hresult

namespace Body.MovesAnchorOf

variable (moves : body.MovesAnchorOf inner)

include moves

/-- Anchor attributes that are animated by different timelines stay so as position. -/
theorem apart (written : body.Written [] [] (ownSlots placingKeys)) :
    inner.timelines.Pairwise Timeline.Apart := by
  have hbefore := written.apart.sublist (List.filter_sublist
    (p := fun timeline => !timeline.touches transformKeys))
  refine pairwise_of_forall₂ ?_ moves.timelines hbefore
  rintro first second first' second' ⟨key, hkey, animates, animates'⟩
    ⟨other, hother, hanimates, hanimates'⟩ apart slot patches hpatches
  rw [animates'.patches_iff, List.mem_singleton] at patches
  rw [hanimates'.patches_iff, List.mem_singleton] at hpatches
  have hinjective : ∀ key ∈ anchorKeys, ∀ other ∈ anchorKeys, key.2 = other.2 → key = other := by
    decide
  have hsame := congrArg Slot.name (patches.symm.trans hpatches)
  obtain rfl := hinjective key hkey other hother hsame
  exact apart ⟨.own, key.1⟩ (animates.patches_iff.mpr (List.mem_singleton_self _))
    (hanimates.patches_iff.mpr (List.mem_singleton_self _))

/-- Where the anchor is animated, the element is moved by a timeline from zero. -/
theorem zero_of_patches (written : body.Written [] [] (ownSlots placingKeys))
    {result : Timeline R} (h : result ∈ inner.timelines) {slot : Slot}
    (patches : result.Patches slot) {value : Value R}
    (hvalue : inner.attributes.slot? slot = some value) :
    slot ∈ (anchorKeys.map (·.2)).map (Slot.mk .own) ∧ value = .num (.whole 0) ∧
      ∃ timeline ∈ body.timelines, timeline.movesAnchor = true := by
  obtain ⟨timeline, htimeline, key, hkey, animates, animates'⟩ :=
    exists_of_mem_right moves.timelines h
  have hmem := List.mem_of_mem_filter htimeline
  have hanchor : ∀ key ∈ anchorKeys, key.1 ∉ targetKeys ∧ key.2 ∉ targetKeys ∧
      key.1 ∈ placingKeys := by decide
  obtain ⟨hproper, hproper', hplacing⟩ := hanchor key hkey
  rw [animates'.patches_iff, List.mem_singleton] at patches
  subst patches
  -- an animated anchor is no constant, and a missing one counts as zero
  have hnone : body.attributes.get? key.1 = none := by
    by_contra hsome
    obtain ⟨found, hfound⟩ := Option.ne_none_iff_exists'.mp hsome
    rw [← Members.slot?_own hproper] at hfound
    have hpatches := animates.patches_iff.mpr (List.mem_singleton_self _)
    exact List.not_mem_nil (written.sharesOnly timeline hmem _ found hpatches hfound).1
  obtain ⟨moved, hmoved, hget⟩ := moves.values key hkey
  rw [hnone, Option.getD_none] at hmoved
  rw [Members.slot?_own hproper', hget] at hvalue
  cases hvalue
  cases hmoved
  refine ⟨List.mem_map_of_mem (List.mem_map_of_mem hkey), rfl, timeline, hmem, ?_⟩
  rw [movesAnchor_eq hplacing animates, List.contains_iff_mem]
  exact List.mem_map_of_mem hkey

end Body.MovesAnchorOf

end Anchors

end MotionScene
