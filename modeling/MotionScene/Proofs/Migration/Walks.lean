import MotionScene.Proofs.Migration.Handles
import MotionScene.Proofs.Migration.Places

/-!
# Where walks through a layer change it

A walk through a path property, a shape list or the masks of a layer changes the beziers,
entries or masks that it comes to (`BezierAt`, `EntryAt`, `MaskAt`) and nothing else
(`sameBut_changeBeziers`, `sameBut_changeShapes`, `sameBut_changeMasks`).  What stands at one
of these places afterwards was made of what stood there before, so a second walk comes to the
same places (`exists_bezierAt`, `exists_entryAt`, `exists_maskAt`).
-/

namespace MotionScene

variable {R : Type}

/-! ## Values that were changed -/

section Changed

theorem adjustMembers_eq_object {change : Change (Members R)} {value : Value R} {own : Members R}
    (adjusted : value.adjustMembers change = .ok (.object own)) :
    ∃ members, value = .object members ∧ change members = .ok own := by
  cases value with
  | object members =>
      obtain ⟨_, hown, ⟨⟩⟩ := map_eq_ok.mp adjusted
      exact ⟨members, rfl, hown⟩
  | _ => cases adjusted

variable {change : Change (Value R)}

theorem adjustItems_eq_list {value : Value R} {own : List (Value R)}
    (adjusted : value.adjustItems change = .ok (.list own)) :
    ∃ items, value = .list items ∧
      List.Forall₂ (fun item result => change item = .ok result) items own := by
  cases value with
  | list items =>
      obtain ⟨_, hown, ⟨⟩⟩ := map_eq_ok.mp adjusted
      exact ⟨items, rfl, mapM_eq_ok.mp hown⟩
  | _ => cases adjusted

theorem adjustItems_eq_object {value : Value R} {own : Members R}
    (adjusted : value.adjustItems change = .ok (.object own)) : value = .object own := by
  cases value with
  | list items =>
      obtain ⟨_, -, ⟨⟩⟩ := map_eq_ok.mp adjusted
  | _ => cases adjusted <;> rfl

theorem adjustFirst_eq_cons {value first : Value R} {rest : List (Value R)}
    (adjusted : value.adjustFirst change = .ok (.list (first :: rest))) :
    ∃ source, value = .list (source :: rest) ∧ change source = .ok first := by
  unfold Value.adjustFirst at adjusted
  split at adjusted
  · obtain ⟨_, hfirst, hpure⟩ := bind_eq_ok.mp adjusted
    cases pure_eq_ok.mp hpure
    exact ⟨_, rfl, hfirst⟩
  · rename_i hlist
    cases adjusted
    exact absurd rfl (hlist _ _)

end Changed

/-! ## Beziers -/

/-- The beziers of a path property with their places: a static one, or those at the start and
at the end of its keyframes. -/
inductive BezierAt : Value R → Place → Members R → Prop
  | static {members bezier : Members R} (content : members.get? "k" = some (.object bezier))
      (isBezier : isBezier (.object bezier) = true) :
      BezierAt (.object members) [.key "k"] bezier
  | keyframe {members keyframe bezier : Members R} {items rest : List (Value R)} {index : Nat}
      {side : String} (content : members.get? "k" = some (.list items))
      (item : items[index]? = some (.object keyframe)) (known : side ∈ ["s", "e"])
      (first : keyframe.get? side = some (.list (.object bezier :: rest)))
      (isBezier : isBezier (.object bezier) = true) :
      BezierAt (.object members) [.key "k", .item index, .key side, .item 0] bezier

section Beziers

variable {change : Change (Members R)} {named : Place → Prop}

theorem sameBut_changeBezier {value result : Value R}
    (hchange : ∀ bezier own, value = .object bezier → isBezier value = true →
      change bezier = .ok own → SameBut named (.object bezier) (.object own))
    (changed : changeBezier change value = .ok result) : SameBut named value result := by
  unfold changeBezier at changed
  split at changed
  · rename_i hbezier
    exact sameBut_adjustMembers changed fun bezier own hvalue => hchange bezier own hvalue hbezier
  · cases changed
    exact .refl _

/-- The beziers of a keyframe, of which the one at the start is changed first. -/
theorem sameBut_keyframe {keyframe result : Members R}
    (hchange : ∀ side bezier rest own, side ∈ ["s", "e"] →
      keyframe.get? side = some (.list (.object bezier :: rest)) →
      isBezier (.object bezier) = true → change bezier = .ok own →
      SameBut (fun rest => named (.key side :: .item 0 :: rest)) (.object bezier) (.object own))
    (changed : (do
      let keyframe ← keyframe.adjust "s" (Value.adjustFirst (changeBezier change))
      keyframe.adjust "e" (Value.adjustFirst (changeBezier change))) = .ok result) :
    SameBut named (.object keyframe) (.object result) := by
  obtain ⟨started, hstarted, hended⟩ := bind_eq_ok.mp changed
  have hside : ∀ {side : String} {before after : Members R}, side ∈ ["s", "e"] →
      before.get? side = keyframe.get? side →
      before.adjust side (Value.adjustFirst (changeBezier change)) = .ok after →
      SameBut named (.object before) (.object after) := by
    intro side before after hknown hsame hadjusted
    refine sameBut_adjust hadjusted fun value own hvalue hfirst => ?_
    refine sameBut_adjustFirst hfirst fun first rest own hlist hbezier => ?_
    refine sameBut_changeBezier (fun bezier own hobject isBezier hown => ?_) hbezier
    subst hlist hobject
    exact hchange side bezier rest own hknown (hsame.symm.trans hvalue) isBezier hown
  refine (hside (by decide) rfl hstarted).trans (hside (by decide) ?_ hended)
  exact Members.get?_adjust_of_ne hstarted (by decide)

/-- Changing the beziers of a path property changes nothing else. -/
theorem sameBut_changeBeziers {property result : Value R}
    (hchange : ∀ place bezier own, BezierAt property place bezier → change bezier = .ok own →
      SameBut (fun rest => named (place ++ rest)) (.object bezier) (.object own))
    (changed : changeBeziers change property = .ok result) : SameBut named property result := by
  refine sameBut_adjustMember changed fun members content own hproperty hcontent hown => ?_
  subst hproperty
  split at hown
  · rename_i hbezier
    refine sameBut_adjustMembers hown fun bezier own hobject hchanged => ?_
    subst hobject
    exact hchange _ _ _ (.static hcontent hbezier) hchanged
  · refine sameBut_adjustItems hown fun items index item own hitems hitem hchanged => ?_
    refine sameBut_adjustMembers hchanged fun keyframe own hkeyframe hsides => ?_
    subst hitems hkeyframe
    refine sameBut_keyframe (fun side bezier rest own hknown hfirst hbezier => ?_) hsides
    exact hchange _ _ _ (.keyframe hcontent hitem hknown hfirst hbezier)

/-- The bezier at a place was made of the one that stood there. -/
theorem exists_bezierAt {property result : Value R} (changed : changeBeziers change property = .ok result)
    {place : Place} {own : Members R} (h : BezierAt result place own) :
    ∃ bezier, BezierAt property place bezier ∧ change bezier = .ok own := by
  cases h with
  | @static members _ content hown =>
      obtain ⟨source, rfl, hadjusted⟩ := adjustMembers_eq_object changed
      obtain ⟨value, hvalue, hchanged⟩ := exists_of_rel_right (Members.rel_adjust hadjusted) content
      split at hchanged
      · rename_i hbezier
        obtain ⟨bezier, rfl, hbecame⟩ := adjustMembers_eq_object hchanged
        exact ⟨bezier, .static hvalue hbezier, hbecame⟩
      · rename_i hbezier
        obtain rfl := adjustItems_eq_object hchanged
        exact absurd hown hbezier
  | @keyframe members keyframe _ items rest index side content item known first hown =>
      obtain ⟨source, rfl, hadjusted⟩ := adjustMembers_eq_object changed
      obtain ⟨value, hvalue, hchanged⟩ := exists_of_rel_right (Members.rel_adjust hadjusted) content
      split at hchanged
      · rename_i hbezier
        obtain ⟨bezier, hobject⟩ : ∃ bezier, value = .object bezier := by
          cases value <;> first | exact ⟨_, rfl⟩ | cases hbezier
        subst hobject
        obtain ⟨_, -, ⟨⟩⟩ := map_eq_ok.mp hchanged
      · obtain ⟨sources, rfl, hitems⟩ := adjustItems_eq_list hchanged
        obtain ⟨old, hold, hkeyframe⟩ := exists_of_rel_right (forall₂_getElem? hitems index) item
        obtain ⟨before, rfl, hsides⟩ := adjustMembers_eq_object hkeyframe
        obtain ⟨started, hstarted, hended⟩ := bind_eq_ok.mp hsides
        -- only the step for this side concerns the bezier
        obtain ⟨given, hgiven, hfirst⟩ : ∃ given, Members.get? before side = some given ∧
            given.adjustFirst (changeBezier change) = .ok (.list (.object own :: rest)) := by
          rcases List.mem_pair.mp known with rfl | rfl
          · rw [Members.get?_adjust_of_ne hended (by decide)] at first
            exact exists_of_rel_right (Members.rel_adjust hstarted) first
          · rw [← Members.get?_adjust_of_ne hstarted (by decide)]
            exact exists_of_rel_right (Members.rel_adjust hended) first
        obtain ⟨front, rfl, hfront⟩ := adjustFirst_eq_cons hfirst
        unfold changeBezier at hfront
        split at hfront
        · rename_i hbezier
          obtain ⟨bezier, rfl, hbecame⟩ := adjustMembers_eq_object hfront
          exact ⟨bezier, .keyframe hvalue hold known hgiven hbezier, hbecame⟩
        · rename_i hbezier
          cases hfront
          exact absurd hown hbezier

end Beziers

/-! ## Shape lists -/

/-- The entries of a shape list that are no groups, with their places, through groups at any
depth. -/
inductive EntryAt : Value R → Place → Members R → Prop
  | leaf {items : List (Value R)} {index : Nat} {entry : Members R}
      (item : items[index]? = some (.object entry)) (leaf : isGroupEntry entry = false) :
      EntryAt (.list items) [.item index] entry
  | grouped {items : List (Value R)} {index : Nat} {group entry : Members R} {inner : Value R}
      {place : Place} (item : items[index]? = some (.object group))
      (isGroup : isGroupEntry group = true) (content : group.get? "it" = some inner)
      (within : EntryAt inner place entry) :
      EntryAt (.list items) (.item index :: .key "it" :: place) entry

section Shapes

variable {change : Change (Members R)} {named : Place → Prop}

theorem forall₂_changeEntries {items own : List (Value R)}
    (changed : changeEntries change items = .ok own) :
    List.Forall₂ (fun entry result => changeEntry change entry = .ok result) items own := by
  induction items generalizing own with
  | nil =>
      rw [changeEntries] at changed
      cases changed
      exact .nil
  | cons entry rest ih =>
      rw [changeEntries] at changed
      obtain ⟨later, hlater, hrest⟩ := bind_eq_ok.mp changed
      obtain ⟨first, hfirst, hpure⟩ := bind_eq_ok.mp hrest
      obtain rfl := pure_eq_ok.mp hpure
      exact .cons hfirst (ih hlater)

theorem sizeOf_lt_of_get? {members : Members R} {key : String} {value : Value R}
    (h : members.get? key = some value) : sizeOf value < sizeOf members := by
  have hmem := List.sizeOf_lt_of_mem (Members.mem_of_get? h)
  simp only [Prod.mk.sizeOf_spec] at hmem
  omega

/-- Changing the entries of a shape list changes nothing else. -/
theorem sameBut_changeShapes : ∀ (shapes : Value R) {result : Value R} {named : Place → Prop},
    (∀ place entry own, EntryAt shapes place entry → change entry = .ok own →
      SameBut (fun rest => named (place ++ rest)) (.object entry) (.object own)) →
    changeShapes change shapes = .ok result → SameBut named shapes result
  | .list items, result, named, hchange, changed => by
      rw [changeShapes] at changed
      obtain ⟨own, hown, rfl⟩ := map_eq_ok.mp changed
      refine .of_forall₂ (forall₂_changeEntries hown) fun index item result hitem hentry => ?_
      cases item with
      | object members =>
          rw [changeEntry] at hentry
          split at hentry
          · rename_i hgroup
            obtain ⟨own, hown, rfl⟩ := map_eq_ok.mp hentry
            rw [changeItems_eq] at hown
            refine sameBut_adjust hown fun inner own hinner hchanged => ?_
            have hsize : sizeOf inner < sizeOf (Value.list items) := by
              have hmember := sizeOf_lt_of_get? hinner
              have hlist := List.sizeOf_lt_of_mem (List.mem_of_getElem? hitem)
              simp only [Value.object.sizeOf_spec, Value.list.sizeOf_spec] at hlist ⊢
              omega
            exact sameBut_changeShapes inner
              (fun place entry own hat => hchange _ entry own (.grouped hitem hgroup hinner hat))
              hchanged
          · rename_i hleaf
            obtain ⟨own, hown, rfl⟩ := map_eq_ok.mp hentry
            exact hchange _ _ _ (.leaf hitem (by simpa using hleaf)) hown
      | _ =>
          rw [changeEntry] at hentry
          · cases hentry
            exact .refl _
          · rintro _ ⟨⟩
  | .null, result, named, hchange, changed | .bool _, result, named, hchange, changed
  | .num _, result, named, hchange, changed | .text _, result, named, hchange, changed
  | .object _, result, named, hchange, changed => by
      rw [changeShapes] at changed
      · cases changed
        exact .refl _
      · rintro _ ⟨⟩
termination_by shapes => sizeOf shapes
decreasing_by exact hsize

theorem changeShapes_eq_list {shapes : Value R} {own : List (Value R)}
    (changed : changeShapes change shapes = .ok (.list own)) : ∃ items, shapes = .list items ∧
      List.Forall₂ (fun entry result => changeEntry change entry = .ok result) items own := by
  cases shapes with
  | list items =>
      rw [changeShapes] at changed
      obtain ⟨_, hown, ⟨⟩⟩ := map_eq_ok.mp changed
      exact ⟨items, rfl, forall₂_changeEntries hown⟩
  | _ =>
      rw [changeShapes] at changed
      · cases changed
      · rintro _ ⟨⟩

/-- An object of a changed list was an object; a group stays a group. -/
theorem changeEntry_eq_object (hkind : KeepsKind change) {value : Value R} {own : Members R}
    (changed : changeEntry change value = .ok (.object own)) :
    ∃ members, value = .object members ∧ isGroupEntry own = isGroupEntry members ∧
      (if isGroupEntry members then Members.adjust "it" (changeShapes change) members
        else change members) = .ok own := by
  cases value with
  | object members =>
      rw [changeEntry] at changed
      split at changed
      · rename_i hgroup
        obtain ⟨_, hown, ⟨⟩⟩ := map_eq_ok.mp changed
        rw [changeItems_eq] at hown
        refine ⟨members, rfl, ?_, by rwa [if_pos hgroup]⟩
        rw [isGroupEntry, isGroupEntry, Members.get_adjust_of_ne hown (by decide)]
      · rename_i hleaf
        obtain ⟨_, hown, ⟨⟩⟩ := map_eq_ok.mp changed
        refine ⟨members, rfl, ?_, by rwa [if_neg hleaf]⟩
        rw [isGroupEntry, isGroupEntry, hkind _ _ hown]
  | _ =>
      rw [changeEntry] at changed
      · cases changed
      · rintro _ ⟨⟩

/-- The entry at a place was made of the one that stood there. -/
theorem exists_entryAt (hkind : KeepsKind change) {shapes result : Value R}
    (changed : changeShapes change shapes = .ok result) {place : Place} {own : Members R}
    (h : EntryAt result place own) :
    ∃ entry, EntryAt shapes place entry ∧ change entry = .ok own := by
  induction h generalizing shapes with
  | @leaf items index own item leaf =>
      obtain ⟨sources, rfl, hitems⟩ := changeShapes_eq_list changed
      obtain ⟨source, hsource, hentry⟩ := exists_of_rel_right (forall₂_getElem? hitems index) item
      obtain ⟨entry, rfl, hsame, hown⟩ := changeEntry_eq_object hkind hentry
      rw [← hsame, leaf, if_neg Bool.false_ne_true] at hown
      exact ⟨entry, .leaf hsource (hsame ▸ leaf), hown⟩
  | @grouped items index group own inner place item isGroup content _ ih =>
      obtain ⟨sources, rfl, hitems⟩ := changeShapes_eq_list changed
      obtain ⟨source, hsource, hentry⟩ := exists_of_rel_right (forall₂_getElem? hitems index) item
      obtain ⟨members, rfl, hsame, hown⟩ := changeEntry_eq_object hkind hentry
      rw [← hsame, isGroup, if_pos rfl] at hown
      obtain ⟨given, hgiven, hinner⟩ := exists_of_rel_right (Members.rel_adjust hown) content
      obtain ⟨entry, hat, hbecame⟩ := ih hinner
      exact ⟨entry, .grouped hsource (hsame ▸ isGroup) hgiven hat, hbecame⟩

end Shapes

/-! ## Masks -/

/-- The masks of a layer that is flagged to have some, with their places. -/
inductive MaskAt [Scalar R] (layer : Members R) : Place → Members R → Prop
  | intro {masks : List (Value R)} {index : Nat} {mask : Members R}
      (flagged : (layer.get "hasMask").holds = true)
      (content : layer.get? "masksProperties" = some (.list masks))
      (item : masks[index]? = some (.object mask)) :
      MaskAt layer [.key "masksProperties", .item index] mask

section Masks

variable [Scalar R] {change : Change (Members R)} {named : Place → Prop} {layer result : Members R}

/-- What a change of masks makes of the value that holds them. -/
theorem changeMasks_cases {masks own : Value R} (changed : (match masks with
      | .list _ => masks.adjustItems (Value.adjustMembers change)
      | .bool true => .error .wrongKind
      | .num n => if n.isZero then .ok masks else .error .wrongKind
      | masks => .ok masks) = .ok own) :
    masks.adjustItems (Value.adjustMembers change) = .ok own := by
  cases masks with
  | list items => exact changed
  | bool b =>
      cases b with
      | true => cases changed
      | false => exact changed
  | num n =>
      dsimp only at changed
      split at changed
      · exact changed
      · cases changed
  | _ => exact changed

/-- Changing the masks of a layer changes nothing else. -/
theorem sameBut_changeMasks
    (hchange : ∀ place mask own, MaskAt layer place mask → change mask = .ok own →
      SameBut (fun rest => named (place ++ rest)) (.object mask) (.object own))
    (changed : changeMasks change layer = .ok result) :
    SameBut named (.object layer) (.object result) := by
  unfold changeMasks at changed
  split at changed
  · rename_i hflagged
    refine sameBut_adjust changed fun masks own hmasks hown => ?_
    refine sameBut_adjustItems (changeMasks_cases hown) fun items index item own hlist hitem => ?_
    refine fun hadjusted => sameBut_adjustMembers hadjusted fun mask own hmask => ?_
    subst hlist hmask
    exact hchange _ _ _ (.intro hflagged hmasks hitem)
  · cases changed
    exact .refl _

/-- The mask at a place was made of the one that stood there. -/
theorem exists_maskAt (changed : changeMasks change layer = .ok result) {place : Place}
    {own : Members R} (h : MaskAt result place own) :
    ∃ mask, MaskAt layer place mask ∧ change mask = .ok own := by
  obtain @⟨masks, index, _, flagged, hmasks, item⟩ := h
  rw [get_changeMasks changed (by decide)] at flagged
  unfold changeMasks at changed
  rw [if_pos flagged] at changed
  obtain ⟨value, hvalue, hown⟩ := exists_of_rel_right (Members.rel_adjust changed) hmasks
  obtain ⟨sources, rfl, hitems⟩ := adjustItems_eq_list (changeMasks_cases hown)
  obtain ⟨source, hsource, hmask⟩ := exists_of_rel_right (forall₂_getElem? hitems index) item
  obtain ⟨mask, rfl, hbecame⟩ := adjustMembers_eq_object hmask
  exact ⟨mask, .intro flagged hvalue hsource, hbecame⟩

end Masks

end MotionScene
