import MotionScene.Proofs.Migration.Lockstep
import MotionScene.Proofs.Migration.Rewording

/-!
# Documents at rest

A migrated document tells the version that it was migrated from, and its handles are told
from relative ones by nothing.  So when it is migrated again, colors of an old version are
rescaled again, and the vertices are added to the handles of outlines again.  A document is
at rest (`AtRest`) if neither changes anything.  Then migrating it again shows the layers that
it has (`exists_completeDocument_again`).
-/

namespace MotionScene

variable {R : Type} [Scalar R]

/-- The outlines of a layer are as they are with their vertices added to their handles. -/
def OutlinesRest (layer : Members R) : Prop :=
  ∀ bezier ∈ shapeBeziers layer, makeAbsolute bezier = .ok bezier

/-- Only shape layers have outlines. -/
theorem OutlinesRest.of_kind {layer : Members R} (kind : isLayerKind .shape layer = false) :
    OutlinesRest layer := by
  intro bezier h
  rw [shapeBeziers, kind] at h
  cases h

/-- A document whose colors are not rescaled, and in which no handle of an outline is moved,
when it is migrated. -/
structure AtRest (document : Members R) : Prop where
  colors : usesByteColors (Version.ofValue (document.get "v")) document = true →
    rescaleColors document = .ok document
  outlines : ∀ owner? layers, layersOwned? document owner? = some layers →
    (∀ position, owner? = some position → IsUsed document position) →
    ∀ layer : Members R, .object layer ∈ layers → isCompletable layer = true → OutlinesRest layer

/-! ## What is used -/

/-- A completed list refers to what it referred to before. -/
theorem RefersTo.completed {expands : Value R → List (Value R) → Prop}
    {sources layers : List (Value R)} (completed : Completed expands sources layers)
    {reference : Value R} (refers : RefersTo sources reference) : RefersTo layers reference := by
  obtain ⟨source, hmem, completable, precomp, rfl⟩ := refers
  obtain ⟨own, hown, rfl⟩ := completed
  obtain ⟨made, hmade, hcompleted⟩ := exists_of_mem_left hown hmem
  cases hcompleted with
  | kept incomplete =>
      rw [incomplete source rfl] at completable
      cases completable
  | content _ hcontent plain =>
      rw [isPrecomp_completeContent hcontent, precomp] at plain
      cases plain
  | @expanded _ content expansion _ hcontent =>
      obtain ⟨_, htold, told, rfl, hsame⟩ := exists_of_mem_left (forall₂_told sources own) hmade
      have hkey : ∀ key ∉ "td" :: "layers" :: contentKeys,
          Members.get? told key = source.get? key := by
        intro key hkey
        rw [List.mem_cons, List.mem_cons, not_or, not_or] at hkey
        rw [hsame key (Ne.symm hkey.1), Members.get?_set_of_ne _ _ (Ne.symm hkey.2.1),
          get?_completeContent hcontent hkey.2.2]
      refine ⟨told, htold, ?_, ?_, ?_⟩
      · rw [isCompletable, Members.has, hkey _ (by decide)]
        exact completable
      · rw [isPrecomp, isLayerKind, Members.get, hkey _ (by decide)]
        exact precomp
      · exact Members.get_congr (hkey _ (by decide))

/-- A completed document uses the assets that it used before. -/
theorem isUsed_completeDocument {document result : Members R}
    (returned : (completeDocument document).outcome = .ok result) {position : Nat}
    (used : IsUsed document position) : IsUsed result position := by
  obtain ⟨layers, finished, htop, hlayers, hassets⟩ := members_completeDocument returned
  obtain ⟨horder, hcompleted⟩ := completed_top htop
  have hnames : ∀ {reference position source},
      referencedAsset? (document.get "assets").items reference = some (position, source) →
      referencedAsset? (result.get "assets").items reference =
        some (position, (finished.lookup position).getD source) := by
    intro reference position source names
    rw [hassets, referencedAsset?_finishAssets horder, names]
    rfl
  induction used with
  | top refers names =>
      refine .top ?_ (hnames names)
      rw [hlayers]
      exact refers.completed hcompleted
  | @nested user used outer uses ih =>
      obtain ⟨source, reference, given, hsource, hrefers, names⟩ := uses
      obtain ⟨own, hown⟩ := Option.isSome_iff_exists.mp ((finished_iff_used htop user).mpr outer)
      refine ih.nested ⟨own, reference, _, ?_,
        hrefers.completed (horder.completed_from hown hsource), hnames names⟩
      rw [hassets, assetLayers?_finishAssets horder, hsource, hown]
      rfl

/-! ## Completing again -/

/-- The layers of a completed list at rest are ready to be completed again. -/
theorem ready_of_completed {expands : Value R → List (Value R) → Prop}
    {sources layers others : List (Value R)} (completed : Completed expands sources layers)
    (reworded : List.Forall₂ (OnMembers Reworded) layers others)
    (rest : ∀ layer : Members R, .object layer ∈ layers → isCompletable layer = true →
      OutlinesRest layer) : List.Forall₂ (OnMembers Ready) layers others := by
  refine forall₂_imp_of_mem reworded fun value hmem other hother => ?_
  cases value with
  | object layer =>
      obtain ⟨other, rfl, hsame⟩ := hother
      refine ⟨other, rfl, fun key hkey => hsame key fun h => hkey (h ▸ by decide), ?_⟩
      intro completable
      obtain ⟨source, -, ⟨-, hincomplete⟩ | ⟨-, content, hcontent, hlayer⟩⟩ :=
        exists_completedContent completed hmem
      · rw [completable] at hincomplete
        cases hincomplete
      · have hkeys : ∀ key ∈ bezierKeys, Members.get? layer key = content.get? key :=
          fun key hkey => hlayer key (by revert key; decide)
        have hown : ∀ key ∈ bezierKeys, Members.get? other key = content.get? key := by
          intro key hkey
          rw [hsame key (by revert key; decide), hkeys key hkey]
        have hshapes : shapeBeziers content = shapeBeziers layer := by
          refine shapeBeziers_congr ?_ ?_ <;> rw [Members.get, Members.get, hkeys _ (by decide)]
        obtain ⟨result, hresult, hshapes⟩ := exists_completeContent_again hcontent hown
          fun bezier hbezier => rest layer hmem completable bezier (hshapes ▸ hbezier)
        refine ⟨result, hresult, fun kind => ?_⟩
        rw [isLayerKind, Members.get, hkeys _ (by decide)] at kind
        rw [hshapes kind, hkeys _ (by decide)]
  | _ => exact hother

section Again

variable {document result again : Members R} {layers : List (Value R)} {finished : Finished R}

/-- The assets of a completed document at rest mirror those that it was completed from. -/
theorem mirrored_assets (returned : (completeDocument document).outcome = .ok result)
    (htop : (completeTop document).outcome = .ok (layers, finished))
    (hassets : (result.get "assets").items = finishAssets finished (document.get "assets").items)
    (reworded : RewordedLists result again)
    (alike : List.Forall₂ (OnMembers AlikeAsset) (result.get "assets").items
      (again.get "assets").items)
    (rest : AtRest result) :
    Mirrored finished (document.get "assets").items (again.get "assets").items := by
  obtain ⟨horder, -⟩ := completed_top htop
  refine ⟨fun _ _ _ hsuffix => horder.lookup_of_suffix hsuffix, fun reference => ?_⟩
  have hresult := referencedAsset?_finishAssets horder reference
  have hagain := rel_referencedAsset? alike reference
  rw [hassets, hresult] at hagain
  cases hfound : referencedAsset? (document.get "assets").items reference with
  | none =>
      rw [hfound] at hagain
      rw [eq_none_of_rel hagain rfl]
      exact .none
  | some found =>
      obtain ⟨position, source⟩ := found
      rw [hfound] at hagain
      obtain ⟨⟨other, others⟩, hother, hposition, -⟩ := exists_of_rel_left hagain rfl
      obtain rfl : other = position := hposition
      rw [hother]
      refine .some ⟨rfl, fun own hlookup => ?_⟩
      have hsource := assetLayers?_of_referencedAsset? hfound
      have howned : layersOwned? result (some other) = some own := by
        rw [layersOwned?, hassets, assetLayers?_finishAssets horder, hsource, hlookup]
        rfl
      obtain ⟨lists, hlists, hreworded⟩ := exists_of_rel_left (reworded (some other)) howned
      obtain rfl : others = lists :=
        Option.some.inj ((assetLayers?_of_referencedAsset? hother).symm.trans hlists)
      refine ready_of_completed (horder.completed_from hlookup hsource) hreworded
        fun layer hmem completable => rest.outlines _ _ howned (fun used hused => ?_) layer hmem
          completable
      obtain rfl : other = used := Option.some.inj hused
      exact isUsed_completeDocument returned ((finished_iff_used htop other).mp (by rw [hlookup]; rfl))

/-- Completing a document at rest again shows the layers that it has. -/
theorem exists_completeDocument_again
    (returned : (completeDocument document).outcome = .ok result) (rest : AtRest result)
    (reworded : RewordedLists result again) (alike : AlikeDocuments result again) :
    ∃ last, (completeDocument again).outcome = .ok last ∧
      ShownAlike (result.get "layers") (last.get "layers") := by
  obtain ⟨layers, finished, htop, hlayers, hassets⟩ := members_completeDocument returned
  obtain ⟨-, hcompleted⟩ := completed_top htop
  have hmirrored := mirrored_assets returned htop hassets reworded alike.assets.items rest
  have hcount : (again.get "assets").items.length = (document.get "assets").items.length := by
    rw [← alike.assets.items.length_eq, hassets]
    exact List.length_mapIdx
  have howned : layersOwned? result none = some layers := by
    rw [layersOwned?, hlayers]
    rfl
  obtain ⟨lists, hlists, hreworded⟩ := exists_of_rel_left (reworded none) howned
  have hready : List.Forall₂ (OnMembers Ready) layers (again.get "layers").items := by
    obtain rfl : (again.get "layers").items = lists := Option.some.inj hlists
    exact ready_of_completed hcompleted hreworded fun layer hmem completable =>
      rest.outlines _ _ howned (fun _ howner => by cases howner) layer hmem completable
  obtain ⟨own, known, hown, -, hshown⟩ := exists_completeLayers
    (follows_expandReference hmirrored (document.get "assets").items.length [])
    (grows_expandReference _ _ _) htop (List.suffix_refl _) hready .nil
  rw [← hcount] at hown
  obtain ⟨last, hlast⟩ : ∃ last, (completeDocument again).outcome = .ok last := by
    unfold completeDocument
    rw [Traced.outcome_bind_of_ok (show (completeTop again).outcome = .ok (own, known) from hown)]
    dsimp only
    split
    · exact ⟨_, rfl⟩
    · exact ⟨_, rfl⟩
  obtain ⟨own', known', hown', hlast', -⟩ := members_completeDocument hlast
  obtain ⟨rfl, -⟩ := Prod.mk.inj (Except.ok.inj (hown'.symm.trans hown))
  exact ⟨last, hlast, by rwa [hlayers, hlast']⟩

end Again

end MotionScene
