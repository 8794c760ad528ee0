import MotionScene.Proofs.Migration.Alike

/-!
# What completing a list makes of its layers

Completing a layer list leaves every layer in its place (`Completed.finishes`).  A layer
with a transform has its beziers converted once and, if it is a precomposition, gets the
layers its reference is expanded to; all others keep the handles and layers they have.
-/

namespace MotionScene

variable {R : Type} [Scalar R]

/-! ## Migrated layers -/

/-- A layer and what it becomes: its beziers are converted once if it has a transform and
keep their handles otherwise. -/
structure Migrated (source layer : Members R) : Prop where
  completable : isCompletable layer = isCompletable source
  converted : isCompletable source = true →
    List.Forall₂ ConvertedOnce (layerBeziers source) (layerBeziers layer)
  kept : isCompletable source = false →
    List.Forall₂ SameHandles (layerBeziers source) (layerBeziers layer)

theorem Migrated.of_alike {first second third : Members R} (alike : Alike first second)
    (migrated : Migrated second third) : Migrated first third where
  completable := migrated.completable.trans alike.isCompletable
  converted h := by
    refine forall₂_comp ?_ alike.beziers (migrated.converted (alike.isCompletable.trans h))
    exact fun _ _ _ => ConvertedOnce.of_same
  kept h :=
    forall₂_comp IsTrans.trans alike.beziers (migrated.kept (alike.isCompletable.trans h))

/-- The layers that a layer has within it. -/
def layersWithin (layer : Members R) : List (Value R) :=
  (layer.get "layers").items

/-- What completing a list makes of one of its layers. -/
structure Finishes (expands : Value R → List (Value R) → Prop) (source layer : Members R) :
    Prop where
  migrated : Migrated source layer
  reference : layer.get "refId" = source.get "refId"
  expanded : isCompletable source = true → isPrecomp source = true →
    expands (source.get "refId") (layersWithin layer)
  plain : ¬ (isCompletable source = true ∧ isPrecomp source = true) →
    layersWithin layer = layersWithin source

section Finishes

variable {expands : Value R → List (Value R) → Prop}

theorem Finishes.congr {source layer told : Members R} (finishes : Finishes expands source layer)
    (same : ∀ key ∈ roleKeys ++ bezierKeys, told.get? key = layer.get? key) :
    Finishes expands source told := by
  have alike := Alike.of_get? same
  have hbeziers : layerBeziers told = layerBeziers layer :=
    layerBeziers_congr fun key hkey => same key (List.mem_append_right _ hkey)
  have hwithin : layersWithin told = layersWithin layer := by
    rw [layersWithin, layersWithin, alike.get (by decide)]
  obtain ⟨⟨hcompletable, hconverted, hkept⟩, hreference, hexpanded, hplain⟩ := finishes
  refine ⟨⟨alike.isCompletable.trans hcompletable, ?_, ?_⟩,
    (alike.get (by decide)).trans hreference, ?_, ?_⟩
  · rwa [hbeziers]
  · rwa [hbeziers]
  · rwa [hwithin]
  · rwa [hwithin]

theorem migrated_completeContent {source layer : Members R}
    (completable : isCompletable source = true) (completed : completeContent source = .ok layer) :
    Migrated source layer where
  completable := by
    rw [isCompletable, isCompletable, Members.has, Members.has,
      get?_completeContent completed (by decide)]
  converted _ := converted_completeContent completed
  kept h := by
    rw [completable] at h
    cases h

/-- Completing one layer of a list converts its beziers once, if it has a transform. -/
theorem CompletedLayer.finishes {source layer : Value R}
    (completed : CompletedLayer expands source layer) :
    OnMembers (Finishes expands) source layer := by
  cases completed with
  | kept incomplete =>
      cases source with
      | object members =>
          have hnot := incomplete members rfl
          refine ⟨members, rfl, ⟨rfl, fun h => ?_, fun _ => List.forall₂_refl _⟩, rfl,
            fun h => ?_, fun _ => rfl⟩
          · rw [hnot] at h
            cases h
          · rw [hnot] at h
            cases h
      | _ => rfl
  | @content source result completable hcontent plain =>
      refine ⟨result, rfl, migrated_completeContent completable hcontent,
        reference_completeContent hcontent, fun _ h => ?_, fun _ => ?_⟩
      · rw [← isPrecomp_completeContent hcontent, plain] at h
        cases h
      · rw [layersWithin, layersWithin, Members.get, Members.get,
          get?_completeContent hcontent (by decide)]
  | @expanded source result layers completable hcontent precomp expansion =>
      have hset : ∀ key, "layers" ≠ key →
          (result.set "layers" (.list layers)).get? key = result.get? key :=
        fun _ hkey => Members.get?_set_of_ne _ _ hkey
      obtain ⟨hcompletable, hconverted, hkept⟩ := migrated_completeContent completable hcontent
      have hbeziers : layerBeziers (result.set "layers" (.list layers)) = layerBeziers result :=
        layerBeziers_congr fun key hkey => hset key fun h => by
          subst h
          exact absurd hkey (by decide)
      have hwithin : layersWithin (result.set "layers" (.list layers)) = layers := by
        rw [layersWithin, Members.get_set_self]
        rfl
      refine ⟨_, rfl, ⟨?_, ?_, ?_⟩, ?_, fun _ _ => ?_, fun h => ?_⟩
      · rw [← hcompletable, isCompletable, isCompletable, Members.has_set_of_ne _ _ (by decide)]
      · rwa [hbeziers]
      · rwa [hbeziers]
      · rw [Members.get_set_of_ne _ _ (by decide), reference_completeContent hcontent]
      · rw [hwithin, ← reference_completeContent hcontent]
        exact expansion
      · exact absurd ⟨completable, isPrecomp_completeContent hcontent ▸ precomp⟩ h

/-- Being told about a matte changes one member only. -/
theorem onMembers_toldBy (next? : Option (Value R)) (layer : Value R) :
    OnMembers (fun own told => ∀ key, "td" ≠ key → told.get? key = own.get? key) layer
      (toldBy next? layer) := by
  cases layer with
  | object members =>
      unfold toldBy
      split
      · rename_i hlayer
        cases hlayer
        split
        · exact ⟨_, rfl, fun _ hkey => Members.get?_set_of_ne _ _ hkey⟩
        · exact ⟨_, rfl, fun _ _ => rfl⟩
      · exact ⟨_, rfl, fun _ _ => rfl⟩
  | _ =>
      unfold toldBy
      split
      · rename_i hlayer
        cases hlayer
      · rfl

/-- Being told about mattes changes no member but the one for that. -/
theorem forall₂_told (layers completed : List (Value R)) :
    List.Forall₂ (OnMembers fun own told => ∀ key, "td" ≠ key → told.get? key = own.get? key)
      completed (tellMattes layers completed) := by
  induction layers generalizing completed with
  | nil =>
      rw [tellMattes]
      · exact List.forall₂_same.mpr fun layer _ => onMembers_toldBy none layer
      · rintro _ _ _ _ ⟨⟩
  | cons layer rest ih =>
      cases completed with
      | nil => exact .nil
      | cons first later => exact .cons (onMembers_toldBy rest.head? first) (ih later)

/-- Completing a list finishes every layer in its place. -/
theorem Completed.finishes {sources layers : List (Value R)}
    (completed : Completed expands sources layers) :
    List.Forall₂ (OnMembers (Finishes expands)) sources layers := by
  obtain ⟨own, hown, rfl⟩ := completed
  refine forall₂_comp (fun _ _ _ finished told => finished.comp (fun _ _ _ finishes same => ?_)
    told) (hown.imp fun _ _ => CompletedLayer.finishes) (forall₂_told sources own)
  exact finishes.congr fun key hkey => same key fun h => by
    subst h
    exact absurd hkey (by decide)

end Finishes

end MotionScene
