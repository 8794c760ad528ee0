import MotionScene.Proofs.Migration.Beziers

/-!
# Handles

Completing the content of a layer adds to every handle of its beziers the vertex of the
handle, once (`converted_completeContent`): `ConvertedOnce` says what that means for the
numbers in a bezier.
-/

namespace MotionScene

variable {R : Type}

/-! ## Handles that stay -/

/-- The two members of a bezier with its handles. -/
def handleKeys : List String := ["i", "o"]

/-- A bezier and one with the same vertices and handles. -/
def SameHandles (bezier result : Members R) : Prop :=
  ∀ key ∈ "v" :: handleKeys, result.get key = bezier.get key

instance : IsEquiv (Members R) SameHandles where
  refl _ _ _ := rfl
  symm _ _ h key hkey := (h key hkey).symm
  trans _ _ _ h h' key hkey := (h' key hkey).trans (h key hkey)

/-! ## Converted beziers -/

/-- Items that have a partner become what a relation says; those without one stay. -/
inductive Paired {α β : Type} (becomes : α → β → α → Prop) : List α → List β → List α → Prop
  | nil {partners : List β} : Paired becomes [] partners []
  | alone {items : List α} : Paired becomes items [] items
  | cons {item result : α} {partner : β} {items results : List α} {partners : List β}
      (first : becomes item partner result) (rest : Paired becomes items partners results) :
      Paired becomes (item :: items) (partner :: partners) (result :: results)

variable [Scalar R]

/-- A coordinate that is a number, with another one added. -/
def Sum (coordinate addend result : Value R) : Prop :=
  ∀ m n : Number R, coordinate = .num m → addend = .num n →
    ∃ sum, m.add n = .ok sum ∧ result = .num sum

/-- A handle with the first two coordinates of its vertex added. -/
def HandleMoved (handle vertex result : Value R) : Prop :=
  match handle, vertex with
  | .list coordinates, .list addends =>
    ∃ sums, result = .list sums ∧ Paired Sum coordinates (addends.take 2) sums
  | handle, _ => result = handle

/-- Handles, each with its vertex added; handles without a vertex stay. -/
def HandlesMoved (vertices : List (Value R)) (handles result : Value R) : Prop :=
  match handles with
  | .list items => ∃ moved, result = .list moved ∧ Paired HandleMoved items vertices moved
  | handles => result = handles

/-- A bezier and what it is with each vertex added to its handles once. -/
structure ConvertedOnce (bezier result : Members R) : Prop where
  vertices : result.get "v" = bezier.get "v"
  handles : ∀ key ∈ handleKeys,
    HandlesMoved (bezier.get "v").items (bezier.get key) (result.get key)

theorem ConvertedOnce.of_same {first second third : Members R} (same : SameHandles first second)
    (converted : ConvertedOnce second third) : ConvertedOnce first third where
  vertices := converted.vertices.trans (same "v" (by decide))
  handles key hkey := by
    rw [← same "v" (by decide), ← same key (List.mem_cons_of_mem _ hkey)]
    exact converted.handles key hkey

/-! ## Absolute handles -/

theorem paired_addCoordinates {limit : Nat} {coordinates addends sums : List (Value R)}
    (returned : addCoordinates limit coordinates addends = .ok sums) :
    Paired Sum coordinates (addends.take limit) sums := by
  induction limit generalizing coordinates addends sums with
  | zero =>
      cases returned
      exact .alone
  | succ limit ih =>
      cases coordinates with
      | nil =>
          cases returned
          exact .nil
      | cons x xs =>
          cases addends with
          | nil =>
              cases returned
              exact .alone
          | cons y ys =>
              obtain ⟨sum, hsum, hrest⟩ := bind_eq_ok.mp returned
              obtain ⟨later, hlater, hpure⟩ := bind_eq_ok.mp hrest
              obtain rfl := pure_eq_ok.mp hpure
              refine .cons ?_ (ih hlater)
              rintro m n rfl rfl
              obtain ⟨total, htotal, rfl⟩ := map_eq_ok.mp hsum
              exact ⟨total, htotal, rfl⟩

theorem handleMoved_absoluteHandle {handle vertex result : Value R}
    (returned : absoluteHandle handle vertex = .ok result) : HandleMoved handle vertex result := by
  unfold absoluteHandle at returned
  split at returned
  · obtain ⟨sums, hsums, rfl⟩ := map_eq_ok.mp returned
    exact ⟨sums, rfl, paired_addCoordinates hsums⟩
  · rename_i hlists
    cases returned
    unfold HandleMoved
    split
    · exact absurd rfl (hlists _ _ rfl)
    · rfl

theorem paired_absoluteHandles {handles vertices results : List (Value R)}
    (returned : absoluteHandles handles vertices = .ok results) :
    Paired HandleMoved handles vertices results := by
  induction handles generalizing vertices results with
  | nil =>
      cases returned
      exact .nil
  | cons handle handles ih =>
      cases vertices with
      | nil =>
          cases returned
          exact .alone
      | cons vertex vertices =>
          obtain ⟨first, hfirst, hrest⟩ := bind_eq_ok.mp returned
          obtain ⟨later, hlater, hpure⟩ := bind_eq_ok.mp hrest
          obtain rfl := pure_eq_ok.mp hpure
          exact .cons (handleMoved_absoluteHandle hfirst) (ih hlater)

theorem handlesMoved_absoluteSide {vertices : List (Value R)} {value result : Value R}
    (returned : absoluteSide vertices value = .ok result) : HandlesMoved vertices value result := by
  unfold absoluteSide at returned
  split at returned
  · obtain ⟨moved, hmoved, hresult⟩ := map_eq_ok.mp returned
    exact ⟨moved, hresult.symm, paired_absoluteHandles hmoved⟩
  · rename_i hlist
    rw [← Except.ok.inj returned]
    unfold HandlesMoved
    split
    · exact absurd rfl (hlist _)
    · rfl

theorem handlesMoved_adjust {bezier result : Members R} {key : String}
    {vertices : List (Value R)}
    (returned : bezier.adjust key (absoluteSide vertices) = .ok result) :
    HandlesMoved vertices (bezier.get key) (result.get key) := by
  rcases Members.get_adjust_self returned with ⟨hnull, hnull'⟩ | hside
  · rw [hnull, hnull']
    rfl
  · exact handlesMoved_absoluteSide hside

/-- Adding the vertices to the handles of a bezier converts it once. -/
theorem converted_makeAbsolute {bezier result : Members R}
    (returned : makeAbsolute bezier = .ok result) : ConvertedOnce bezier result := by
  obtain ⟨incoming, hincoming, houtgoing⟩ := bind_eq_ok.mp returned
  refine ⟨?_, fun key hkey => ?_⟩
  · rw [Members.get_adjust_of_ne houtgoing (by decide),
      Members.get_adjust_of_ne hincoming (by decide)]
  · rcases List.mem_cons.mp hkey with rfl | hkey
    · rw [Members.get_adjust_of_ne houtgoing (by decide)]
      exact handlesMoved_adjust hincoming
    · have hsame : incoming.get "o" = bezier.get "o" :=
        Members.get_adjust_of_ne hincoming (by decide)
      rw [List.mem_singleton.mp hkey, ← hsame]
      exact handlesMoved_adjust houtgoing

/-! ## Completed content -/

theorem converted_completeBeziers {property result : Value R}
    (returned : completeBeziers property = .ok result) :
    List.Forall₂ ConvertedOnce (beziersOf property) (beziersOf result) :=
  beziersOf_changeBeziers (fun _ _ converted => converted.vertices)
    (fun _ _ => converted_makeAbsolute) returned

theorem converted_adjust {members result : Members R} {key : String}
    (returned : members.adjust key completeBeziers = .ok result) :
    List.Forall₂ ConvertedOnce (beziersOf (members.get key)) (beziersOf (result.get key)) := by
  rcases Members.get_adjust_self returned with ⟨hnull, hnull'⟩ | hproperty
  · rw [hnull, hnull']
    exact .nil
  · exact converted_completeBeziers hproperty

theorem converted_completeMasks {layer result : Members R}
    (returned : completeMasks layer = .ok result) :
    List.Forall₂ ConvertedOnce (maskBeziers layer) (maskBeziers result) :=
  maskBeziers_changeMasks (fun _ _ => converted_adjust) returned

theorem converted_completeShapes {layer result : Members R}
    (returned : completeShapes layer = .ok result) :
    List.Forall₂ ConvertedOnce (shapeBeziers layer) (shapeBeziers result) := by
  refine shapeBeziers_changeShapes (fun entry changed hentry => ?_)
    (fun entry changed hentry => ?_) returned
  · split at hentry
    · exact Members.get_adjust_of_ne hentry (by decide)
    · rw [Except.ok.inj hentry]
  · split at hentry
    · rename_i hkind
      rw [outlineBeziers, outlineBeziers, Members.get_adjust_of_ne hentry (by decide),
        if_pos hkind, if_pos hkind]
      exact converted_adjust hentry
    · rename_i hkind
      rw [outlineBeziers, if_neg hkind, ← Except.ok.inj hentry, outlineBeziers, if_neg hkind]
      exact .nil

/-- Completing the content of a layer converts every bezier of it once. -/
theorem converted_completeContent {layer result : Members R}
    (returned : completeContent layer = .ok result) :
    List.Forall₂ ConvertedOnce (layerBeziers layer) (layerBeziers result) := by
  obtain ⟨masked, hmasked, hrest⟩ := bind_eq_ok.mp returned
  have hmasks := converted_completeMasks hmasked
  have hkind : masked.get "ty" = layer.get "ty" := get_changeMasks hmasked (by decide)
  have hshapes := shapeBeziers_congr hkind (get_changeMasks hmasked (by decide))
  rw [layerBeziers, layerBeziers, ← hshapes]
  split at hrest
  · refine List.rel_append ?_ (converted_completeShapes hrest)
    rwa [maskBeziers_congr (Members.get_adjust_of_ne hrest (by decide))
      (Members.get_adjust_of_ne hrest (by decide))]
  · -- marking a text touches none of the members with beziers
    rename_i htext
    have hother : ∀ key, "singleShape" ≠ key → result.get key = masked.get key := by
      intro key hkey
      rw [← pure_eq_ok.mp hrest, completeText]
      split
      · exact Members.get_set_of_ne _ _ hkey
      · rfl
    rw [shapeBeziers_congr (hother "ty" (by decide)) (hother "shapes" (by decide)),
      maskBeziers_congr (hother "hasMask" (by decide)) (hother "masksProperties" (by decide)),
      shapeBeziers_of_ne (by rw [htext]; decide)]
    exact List.rel_append hmasks .nil
  · rename_i hshape _
    rw [← pure_eq_ok.mp hrest, shapeBeziers_of_ne hshape]
    exact List.rel_append hmasks .nil

end MotionScene
