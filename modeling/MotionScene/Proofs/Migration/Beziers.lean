import MotionScene.Proofs.Migration.Completion

/-!
# The beziers of a layer

A layer has beziers in its masks, if it is flagged to have some, and a shape layer in the
outlines of its shape list, groups within groups included (`layerBeziers`).  Walking over a
layer changes each of them in its place: whatever relates beziers to what a change makes of
them relates the beziers of a layer to those of the changed one (`beziersOf_changeBeziers`,
`maskBeziers_changeMasks`, `leaves_changeShapes`).
-/

namespace MotionScene

variable {R : Type}

/-! ## Path properties -/

/-- A value as a bezier, if it is one. -/
def ownBezier (value : Value R) : List (Members R) :=
  if isBezier value then [value.members] else []

/-- The bezier at the front of a list. -/
def firstBezier : Value R → List (Members R)
  | .list (first :: _) => ownBezier first
  | _ => []

/-- The beziers that the content of a path property holds. -/
def beziersIn (content : Value R) : List (Members R) :=
  if isBezier content then [content.members]
  else content.items.flatMap fun keyframe =>
    firstBezier (keyframe.members.get "s") ++ firstBezier (keyframe.members.get "e")

/-- The beziers of a path property: a static one, or those at the start and at the end of
its keyframes. -/
def beziersOf (property : Value R) : List (Members R) :=
  beziersIn (property.members.get "k")

/-- The beziers of the masks of a layer that is flagged to have some. -/
def maskBeziers [Scalar R] (layer : Members R) : List (Members R) :=
  if (layer.get "hasMask").holds then
    (layer.get "masksProperties").items.flatMap fun mask => beziersOf (mask.members.get "pt")
  else []

/-- The beziers of an entry of a shape list that is an outline. -/
def outlineBeziers (entry : Members R) : List (Members R) :=
  if (entry.get "ty").isText "sh" then beziersOf (entry.get "ks") else []

/-- The beziers in the outlines of a shape layer. -/
def shapeBeziers (layer : Members R) : List (Members R) :=
  if isLayerKind .shape layer then (shapeLeaves (layer.get "shapes")).flatMap outlineBeziers
  else []

/-- All beziers of a layer. -/
def layerBeziers [Scalar R] (layer : Members R) : List (Members R) :=
  maskBeziers layer ++ shapeBeziers layer

theorem maskBeziers_congr [Scalar R] {layer other : Members R}
    (hflag : other.get "hasMask" = layer.get "hasMask")
    (hmasks : other.get "masksProperties" = layer.get "masksProperties") :
    maskBeziers other = maskBeziers layer := by
  rw [maskBeziers, maskBeziers, hflag, hmasks]

theorem shapeBeziers_congr {layer other : Members R} (hkind : other.get "ty" = layer.get "ty")
    (hshapes : other.get "shapes" = layer.get "shapes") :
    shapeBeziers other = shapeBeziers layer := by
  rw [shapeBeziers, shapeBeziers, isLayerKind, isLayerKind, hkind, hshapes]

/-- The members that tell which beziers a layer has. -/
def bezierKeys : List String := ["ty", "hasMask", "masksProperties", "shapes"]

theorem layerBeziers_congr [Scalar R] {layer other : Members R}
    (h : ∀ key ∈ bezierKeys, other.get? key = layer.get? key) :
    layerBeziers other = layerBeziers layer := by
  have hget : ∀ key ∈ bezierKeys, other.get key = layer.get key := by
    intro key hkey
    exact Members.get_congr (h key hkey)
  rw [layerBeziers, layerBeziers,
    maskBeziers_congr (hget "hasMask" (by decide)) (hget "masksProperties" (by decide)),
    shapeBeziers_congr (hget "ty" (by decide)) (hget "shapes" (by decide))]

theorem shapeBeziers_of_ne {layer : Members R} (h : LayerKind.ofCode (layer.get "ty") ≠ .shape) :
    shapeBeziers layer = [] :=
  if_neg (by rwa [isLayerKind, decide_eq_true_iff])

/-! ## Changed beziers -/

section Changed

variable {related : Members R → Members R → Prop} {change : Change (Members R)}
  (hvertices : ∀ bezier result, related bezier result → result.get "v" = bezier.get "v")
  (hchange : ∀ bezier result, change bezier = .ok result → related bezier result)

include hvertices hchange

theorem ownBezier_adjustMembers {value result : Value R} (bezier : isBezier value = true)
    (changed : value.adjustMembers change = .ok result) :
    isBezier result = true ∧ related value.members result.members := by
  cases value with
  | object members =>
      obtain ⟨own, hown, rfl⟩ := map_eq_ok.mp changed
      have hrelated := hchange _ _ hown
      refine ⟨?_, hrelated⟩
      rw [isBezier, hvertices _ _ hrelated]
      exact bezier
  | _ => cases bezier

theorem ownBezier_changeBezier {value result : Value R}
    (changed : changeBezier change value = .ok result) :
    List.Forall₂ related (ownBezier value) (ownBezier result) := by
  unfold changeBezier at changed
  split at changed
  · rename_i hbezier
    obtain ⟨hresult, hrelated⟩ := ownBezier_adjustMembers hvertices hchange hbezier changed
    rw [ownBezier, ownBezier, if_pos hbezier, if_pos hresult]
    exact .cons hrelated .nil
  · rename_i hbezier
    cases changed
    rw [ownBezier, if_neg hbezier]
    exact .nil

theorem firstBezier_adjustFirst {value result : Value R}
    (changed : value.adjustFirst (changeBezier change) = .ok result) :
    List.Forall₂ related (firstBezier value) (firstBezier result) := by
  unfold Value.adjustFirst at changed
  split at changed
  · obtain ⟨own, hown, hpure⟩ := bind_eq_ok.mp changed
    obtain rfl := pure_eq_ok.mp hpure
    exact ownBezier_changeBezier hvertices hchange hown
  · rename_i hshape
    cases changed
    have hempty : firstBezier value = [] := by
      unfold firstBezier
      split
      · exact absurd rfl (hshape _ _)
      · rfl
    rw [hempty]
    exact .nil

/-- The beziers of a keyframe, of which the one at the start is changed first. -/
theorem keyframe_beziers {keyframe result : Members R}
    (changed : (do
      let keyframe ← keyframe.adjust "s" (Value.adjustFirst (changeBezier change))
      keyframe.adjust "e" (Value.adjustFirst (changeBezier change))) = .ok result) :
    List.Forall₂ related (firstBezier (keyframe.get "s") ++ firstBezier (keyframe.get "e"))
      (firstBezier (result.get "s") ++ firstBezier (result.get "e")) := by
  obtain ⟨started, hstarted, hended⟩ := bind_eq_ok.mp changed
  refine List.rel_append ?_ ?_
  · rw [Members.get_adjust_of_ne hended (by decide)]
    rcases Members.get_adjust_self hstarted with ⟨hnull, hnull'⟩ | hfirst
    · rw [hnull, hnull']
      exact .nil
    · exact firstBezier_adjustFirst hvertices hchange hfirst
  · rw [← Members.get_adjust_of_ne hstarted (by decide)]
    rcases Members.get_adjust_self hended with ⟨hnull, hnull'⟩ | hlast
    · rw [hnull, hnull']
      exact .nil
    · exact firstBezier_adjustFirst hvertices hchange hlast

theorem beziersIn_adjustItems {content result : Value R} (hbezier : isBezier content = false)
    (changed : content.adjustItems (Value.adjustMembers fun keyframe => do
      let keyframe ← keyframe.adjust "s" (Value.adjustFirst (changeBezier change))
      keyframe.adjust "e" (Value.adjustFirst (changeBezier change))) = .ok result) :
    List.Forall₂ related (beziersIn content) (beziersIn result) := by
  cases content with
  | list items =>
      obtain ⟨own, hown, rfl⟩ := map_eq_ok.mp changed
      refine List.rel_flatMap (mapM_eq_ok.mp hown) fun keyframe result hkeyframe => ?_
      cases keyframe with
      | object members =>
          obtain ⟨own, hown, rfl⟩ := map_eq_ok.mp hkeyframe
          exact keyframe_beziers hvertices hchange hown
      | _ =>
          cases hkeyframe
          exact .nil
  | object members =>
      cases changed
      rw [beziersIn, hbezier]
      exact .nil
  | _ =>
      cases changed
      exact .nil

/-- Changing the beziers of a path property changes each in its place. -/
theorem beziersOf_changeBeziers {property result : Value R}
    (changed : changeBeziers change property = .ok result) :
    List.Forall₂ related (beziersOf property) (beziersOf result) := by
  cases property with
  | object members =>
      obtain ⟨own, hown, rfl⟩ := map_eq_ok.mp changed
      show List.Forall₂ related (beziersIn (Members.get members "k"))
        (beziersIn (Members.get own "k"))
      rcases Members.get_adjust_self hown with ⟨hnull, hnull'⟩ | hcontent
      · rw [hnull, hnull']
        exact .nil
      · split at hcontent
        · rename_i hbezier
          obtain ⟨hresult, hrelated⟩ := ownBezier_adjustMembers hvertices hchange hbezier hcontent
          rw [beziersIn, beziersIn, if_pos hbezier, if_pos hresult]
          exact .cons hrelated .nil
        · rename_i hbezier
          exact beziersIn_adjustItems hvertices hchange (Bool.eq_false_iff.mpr hbezier) hcontent
  | _ =>
      cases changed
      exact .nil

end Changed

/-! ## Changed shape lists -/

/-- A change of entries that leaves their kinds alone. -/
def KeepsKind (change : Change (Members R)) : Prop :=
  ∀ entry changed, change entry = .ok changed → changed.get "ty" = entry.get "ty"

section Shapes

variable {change : Change (Members R)}

mutual

/-- Changing a shape list changes its leaves in their places; groups stay groups. -/
theorem leaves_changeShapes (hkind : KeepsKind change) : ∀ (shapes : Value R) {result : Value R},
    changeShapes change shapes = .ok result →
      List.Forall₂ (fun entry changed => change entry = .ok changed)
        (shapeLeaves shapes) (shapeLeaves result)
  | .list items, result, changed => by
      rw [changeShapes] at changed
      obtain ⟨own, hown, rfl⟩ := map_eq_ok.mp changed
      rw [shapeLeaves, shapeLeaves]
      exact leaves_changeEntries hkind items hown
  | .null, result, changed | .bool _, result, changed | .num _, result, changed
  | .text _, result, changed | .object _, result, changed => by
      rw [changeShapes] at changed
      · cases changed
        rw [shapeLeaves]
        · exact .nil
        · exact nofun
      · exact nofun
termination_by shapes => sizeOf shapes

theorem leaves_changeEntries (hkind : KeepsKind change) :
    ∀ (items : List (Value R)) {result : List (Value R)}, changeEntries change items = .ok result →
      List.Forall₂ (fun entry changed => change entry = .ok changed)
        (leavesOfEntries items) (leavesOfEntries result)
  | [], result, changed => by
      rw [changeEntries] at changed
      cases changed
      exact .nil
  | entry :: rest, result, changed => by
      rw [changeEntries] at changed
      obtain ⟨later, hlater, hrest⟩ := bind_eq_ok.mp changed
      obtain ⟨own, hown, hpure⟩ := bind_eq_ok.mp hrest
      obtain rfl := pure_eq_ok.mp hpure
      rw [leavesOfEntries, leavesOfEntries]
      exact List.rel_append (leaves_changeEntry hkind entry hown)
        (leaves_changeEntries hkind rest hlater)
termination_by items => sizeOf items

theorem leaves_changeEntry (hkind : KeepsKind change) : ∀ (entry : Value R) {result : Value R},
    changeEntry change entry = .ok result →
      List.Forall₂ (fun entry changed => change entry = .ok changed)
        (leavesOfEntry entry) (leavesOfEntry result)
  | .object members, result, changed => by
      rw [changeEntry] at changed
      split at changed
      · rename_i hgroup
        obtain ⟨own, hown, rfl⟩ := map_eq_ok.mp changed
        have hsame : isGroupEntry own = true := by
          rw [changeItems_eq] at hown
          rwa [isGroupEntry, Members.get_adjust_of_ne hown (by decide)]
        rw [leavesOfEntry, leavesOfEntry, if_pos hgroup, if_pos hsame]
        exact leaves_changeItems hkind members hown
      · rename_i hleaf
        obtain ⟨own, hown, rfl⟩ := map_eq_ok.mp changed
        have hsame : ¬ isGroupEntry own = true := by
          rwa [isGroupEntry, hkind _ _ hown]
        rw [leavesOfEntry, leavesOfEntry, if_neg hleaf, if_neg hsame]
        exact .cons hown .nil
  | .null, result, changed | .bool _, result, changed | .num _, result, changed
  | .text _, result, changed | .list _, result, changed => by
      rw [changeEntry] at changed
      · cases changed
        rw [leavesOfEntry]
        · exact .nil
        · exact nofun
      · exact nofun
termination_by entry => sizeOf entry

theorem leaves_changeItems (hkind : KeepsKind change) :
    ∀ (members : List (String × Value R)) {result : Members R},
      changeItems change members = .ok result →
      List.Forall₂ (fun entry changed => change entry = .ok changed)
        (leavesOfItems members) (leavesOfItems result)
  | [], result, changed => by
      rw [changeItems] at changed
      cases changed
      exact .nil
  | (key, value) :: rest, result, changed => by
      rw [changeItems] at changed
      split at changed
      · rename_i hkey
        obtain ⟨own, hown, hpure⟩ := bind_eq_ok.mp changed
        obtain rfl := pure_eq_ok.mp hpure
        rw [leavesOfItems, leavesOfItems, if_pos hkey, if_pos hkey]
        exact leaves_changeShapes hkind value hown
      · rename_i hkey
        obtain ⟨later, hlater, hpure⟩ := bind_eq_ok.mp changed
        obtain rfl := pure_eq_ok.mp hpure
        rw [leavesOfItems, leavesOfItems, if_neg hkey, if_neg hkey]
        exact leaves_changeItems hkind rest hlater
termination_by members => sizeOf members

end

end Shapes

/-! ## Changed layers -/

section Layers

variable {related : Members R → Members R → Prop} {change : Change (Members R)}

theorem get?_changeMasks [Scalar R] {layer result : Members R} {key : String}
    (changed : changeMasks change layer = .ok result) (h : "masksProperties" ≠ key) :
    result.get? key = layer.get? key := by
  unfold changeMasks at changed
  split at changed
  · exact Members.get?_adjust_of_ne changed h
  · rw [Except.ok.inj changed]

theorem get_changeMasks [Scalar R] {layer result : Members R} {key : String}
    (changed : changeMasks change layer = .ok result) (h : "masksProperties" ≠ key) :
    result.get key = layer.get key := by
  exact Members.get_congr (get?_changeMasks changed h)

/-- Changing the masks of a layer changes their beziers in their places. -/
theorem maskBeziers_changeMasks [Scalar R] {layer result : Members R}
    (hchange : ∀ mask changed, change mask = .ok changed →
      List.Forall₂ related (beziersOf (mask.get "pt")) (beziersOf (changed.get "pt")))
    (changed : changeMasks change layer = .ok result) :
    List.Forall₂ related (maskBeziers layer) (maskBeziers result) := by
  unfold changeMasks at changed
  split at changed
  · rename_i hmasked
    rw [maskBeziers, maskBeziers, Members.get_adjust_of_ne changed (by decide), if_pos hmasked,
      if_pos hmasked]
    rcases Members.get_adjust_self changed with ⟨hnull, hnull'⟩ | hmasks
    · rw [hnull, hnull']
      exact .nil
    · generalize Members.get layer "masksProperties" = masks at hmasks
      generalize Members.get result "masksProperties" = changed at hmasks
      cases masks with
      | list items =>
          obtain ⟨own, hown, rfl⟩ := map_eq_ok.mp hmasks
          refine List.rel_flatMap (mapM_eq_ok.mp hown) fun mask result hmask => ?_
          cases mask with
          | object members =>
              obtain ⟨own, hown, rfl⟩ := map_eq_ok.mp hmask
              exact hchange members own hown
          | _ =>
              cases hmask
              exact .nil
      | bool b =>
          cases b with
          | true => cases hmasks
          | false =>
              cases hmasks
              exact .nil
      | num n =>
          dsimp only at hmasks
          split at hmasks
          · cases hmasks
            exact .nil
          · cases hmasks
      | _ =>
          cases hmasks
          exact .nil
  · rename_i hmasked
    cases changed
    rw [maskBeziers, if_neg hmasked]
    exact .nil

/-- What the leaves in the shape list of a shape layer have, in order. -/
def shapeParts {α : Type} (parts : Members R → List α) (layer : Members R) : List α :=
  if isLayerKind .shape layer then (shapeLeaves (layer.get "shapes")).flatMap parts else []

theorem shapeParts_congr {α : Type} (parts : Members R → List α) {layer other : Members R}
    (hkind : other.get "ty" = layer.get "ty") (hshapes : other.get "shapes" = layer.get "shapes") :
    shapeParts parts other = shapeParts parts layer := by
  rw [shapeParts, shapeParts, isLayerKind, isLayerKind, hkind, hshapes]

/-- Changing the shape list of a layer changes what its leaves have in their places. -/
theorem shapeParts_changeShapes {α : Type} {parts : Members R → List α} {related : α → α → Prop}
    {layer result : Members R} (hkind : KeepsKind change)
    (hchange : ∀ entry changed, change entry = .ok changed →
      List.Forall₂ related (parts entry) (parts changed))
    (changed : layer.adjust "shapes" (changeShapes change) = .ok result) :
    List.Forall₂ related (shapeParts parts layer) (shapeParts parts result) := by
  rw [shapeParts, shapeParts, isLayerKind, isLayerKind,
    Members.get_adjust_of_ne changed (by decide)]
  split
  · rcases Members.get_adjust_self changed with ⟨hnull, hnull'⟩ | hshapes
    · rw [hnull, hnull', shapeLeaves]
      · exact .nil
      · exact nofun
    · exact List.rel_flatMap (leaves_changeShapes hkind _ hshapes) fun entry own hown =>
        hchange entry own hown
  · exact .nil

/-- Changing the shape list of a layer changes the beziers of its outlines in their
places. -/
theorem shapeBeziers_changeShapes {layer result : Members R}
    (hkind : KeepsKind change)
    (hchange : ∀ entry changed, change entry = .ok changed →
      List.Forall₂ related (outlineBeziers entry) (outlineBeziers changed))
    (changed : layer.adjust "shapes" (changeShapes change) = .ok result) :
    List.Forall₂ related (shapeBeziers layer) (shapeBeziers result) :=
  shapeParts_changeShapes hkind hchange changed

end Layers

end MotionScene
