import MotionScene.Proofs.Migration.Conversion

/-!
# Layers that keep their colors

Colors are compared layer by layer (`Recolored`): the color lists of a layer stand in the order
in which its shape list has them, groups within groups included (`layerColors`).  Handing on
closed flags and completing a layer keep its colors (`recolored_closePaths`,
`recolored_completeContent`).  Completing a document keeps those of all its layers, at the top
and in its assets (`recolored_completeDocument`), and what it fills a precomposition with has
the colors of the layers that the asset had (`filledFrom_completeDocument`).
-/

namespace MotionScene

variable {R : Type}

/-! ## The colors of a layer -/

/-- The color lists of a shape layer: of its fills and strokes, each a static one or those at
the start and at the end of the keyframes. -/
def layerColors (layer : Members R) : List (List (Value R)) :=
  shapeParts colorLists layer

/-- A layer and one that has, in the place of every color, one that a rule relates to it. -/
def Recolored (rule : List (Value R) → List (Value R) → Prop) (layer result : Members R) : Prop :=
  List.Forall₂ rule (layerColors layer) (layerColors result)

theorem recolored_eq_iff {layer result : Members R} :
    Recolored Eq layer result ↔ layerColors layer = layerColors result := by
  rw [Recolored, List.forall₂_eq_eq_eq]

instance : IsEquiv (Members R) (Recolored Eq) where
  refl _ := recolored_eq_iff.mpr rfl
  symm _ _ h := recolored_eq_iff.mpr (recolored_eq_iff.mp h).symm
  trans _ _ _ h h' := recolored_eq_iff.mpr ((recolored_eq_iff.mp h).trans (recolored_eq_iff.mp h'))

theorem Recolored.trans_eq {rule : List (Value R) → List (Value R) → Prop}
    {first second third : Members R} (h : Recolored rule first second)
    (h' : Recolored Eq second third) : Recolored rule first third := by
  rw [Recolored, ← recolored_eq_iff.mp h']
  exact h

theorem recolored_of_get? {layer result : Members R}
    (h : ∀ key ∈ ["ty", "shapes"], result.get? key = layer.get? key) :
    Recolored Eq layer result := by
  have hget : ∀ key ∈ ["ty", "shapes"], result.get key = layer.get key := by
    intro key hkey
    exact Members.get_congr (h key hkey)
  rw [recolored_eq_iff, layerColors, layerColors,
    shapeParts_congr _ (hget _ (by decide)) (hget _ (by decide))]

/-- A change of a member that says nothing about shapes. -/
theorem recolored_of_adjust {key : String} (hkey : key ∉ ["ty", "shapes"])
    {change : Change (Value R)} {layer result : Members R}
    (adjusted : layer.adjust key change = .ok result) : Recolored Eq layer result :=
  recolored_of_get? fun _ hother => Members.get?_adjust_of_ne adjusted fun h => hkey (h ▸ hother)

/-- The color lists of an entry are told by two of its members. -/
theorem colorLists_congr {entry other : Members R} (hkind : other.get "ty" = entry.get "ty")
    (hcolor : other.get "c" = entry.get "c") : colorLists other = colorLists entry := by
  rw [colorLists, colorLists, hasColor, hasColor, hkind, hcolor]

/-- A change of the outlines in the shape list of a layer. -/
theorem recolored_changeOutlines {change : Change (Members R)}
    (hchange : ∀ entry changed, change entry = .ok changed → ∀ key, "ks" ≠ key →
      changed.get key = entry.get key)
    {layer result : Members R}
    (changed : layer.adjust "shapes" (changeShapes change) = .ok result) :
    Recolored Eq layer result := by
  refine shapeParts_changeShapes (fun entry own hown => hchange entry own hown _ (by decide))
    (fun entry own hown => ?_) changed
  rw [colorLists_congr (hchange entry own hown _ (by decide)) (hchange entry own hown _ (by decide))]
  exact List.forall₂_refl _

/-! ## Steps that keep the colors -/

section Kept

variable [Scalar R]

theorem recolored_closePaths {layer result : Members R} (closed : closePaths layer = .ok result) :
    Recolored Eq layer result := by
  obtain ⟨masked, hmasked, hrest⟩ := bind_eq_ok.mp closed
  have hmask : Recolored Eq layer masked := recolored_of_get? fun key hkey =>
    get?_changeMasks hmasked (by rintro rfl; exact absurd hkey (by decide))
  split at hrest
  · refine IsTrans.trans _ _ _ hmask (recolored_changeOutlines (fun entry own hown key hkey => ?_)
      hrest)
    split at hown
    · exact get_closeUnder hown hkey
    · rw [Except.ok.inj hown]
  · rwa [← pure_eq_ok.mp hrest]

theorem recolored_completeContent {layer result : Members R}
    (completed : completeContent layer = .ok result) : Recolored Eq layer result := by
  obtain ⟨masked, hmasked, hrest⟩ := bind_eq_ok.mp completed
  have hmask : Recolored Eq layer masked := recolored_of_get? fun key hkey =>
    get?_changeMasks hmasked (by rintro rfl; exact absurd hkey (by decide))
  refine IsTrans.trans _ _ _ hmask ?_
  split at hrest
  · refine recolored_changeOutlines (fun entry own hown key hkey => ?_) hrest
    split at hown
    · exact Members.get_adjust_of_ne hown hkey
    · rw [Except.ok.inj hown]
  · rw [← pure_eq_ok.mp hrest, completeText]
    split
    · exact recolored_of_get? fun key hkey => Members.get?_set_of_ne _ _ (by
        rintro rfl
        exact absurd hkey (by decide))
    · exact refl masked
  · rw [← pure_eq_ok.mp hrest]
    exact refl masked

theorem recolored_completedLayer {expands : Value R → List (Value R) → Prop}
    {layer result : Value R} (completed : CompletedLayer expands layer result) :
    OnMembers (Recolored Eq) layer result := by
  cases completed with
  | kept => exact refl layer
  | content _ hcontent => exact ⟨_, rfl, recolored_completeContent hcontent⟩
  | expanded _ hcontent =>
      refine ⟨_, rfl, (recolored_completeContent hcontent).trans_eq ?_⟩
      exact recolored_of_get? fun key hkey => Members.get?_set_of_ne _ _ (by
        rintro rfl
        exact absurd hkey (by decide))

/-- Completing a list keeps the colors of every layer. -/
theorem Completed.recolored {expands : Value R → List (Value R) → Prop}
    {layers result : List (Value R)} (completed : Completed expands layers result) :
    List.Forall₂ (OnMembers (Recolored Eq)) layers result := by
  obtain ⟨own, hown, rfl⟩ := completed
  refine forall₂_comp IsTrans.trans (hown.imp fun _ _ => recolored_completedLayer)
    ((forall₂_told layers own).imp fun _ _ told => told.imp fun _ _ same => ?_)
  exact recolored_of_get? fun key hkey => same key (by
    rintro rfl
    exact absurd hkey (by decide))

end Kept

/-! ## Layers in their places -/

/-- A document and one whose layers are related to its own, in their places: at the top and in
the asset at each position. -/
structure OnLayers (related : Members R → Members R → Prop) (document result : Members R) :
    Prop where
  top : List.Forall₂ (OnMembers related) (document.get "layers").items (result.get "layers").items
  assets : ∀ position, Option.Rel (List.Forall₂ (OnMembers related))
    (assetLayers? (document.get "assets").items position)
    (assetLayers? (result.get "assets").items position)

namespace OnLayers

theorem comp {first second both : Members R → Members R → Prop}
    (hboth : ∀ x y z, first x y → second y z → both x z) {document middle result : Members R}
    (h : OnLayers first document middle) (h' : OnLayers second middle result) :
    OnLayers both document result where
  top := forall₂_comp (fun _ _ _ hx hy => hx.comp hboth hy) h.top h'.top
  assets position := by
    have hrel := h.assets position
    have hrel' := h'.assets position
    generalize assetLayers? (document.get "assets").items position = layers? at hrel
    generalize assetLayers? (middle.get "assets").items position = middle? at hrel hrel'
    generalize assetLayers? (result.get "assets").items position = result? at hrel'
    cases hrel with
    | none =>
        cases hrel'
        exact .none
    | some hlayers =>
        cases hrel' with
        | some hlayers' =>
            exact .some (forall₂_comp (fun _ _ _ hx hy => hx.comp hboth hy) hlayers hlayers')

theorem of_get {related : Members R → Members R → Prop} [IsEquiv (Members R) related]
    {document result : Members R}
    (h : ∀ key ∈ layerKeys, result.get key = document.get key) :
    OnLayers related document result where
  top := by
    rw [h "layers" (by decide)]
    exact List.forall₂_refl _
  assets position := by
    rw [h "assets" (by decide)]
    cases assetLayers? (document.get "assets").items position with
    | none => exact .none
    | some layers => exact .some (List.forall₂_refl _)

theorem symm {related : Members R → Members R → Prop} [IsEquiv (Members R) related]
    {document result : Members R} (h : OnLayers related document result) :
    OnLayers related result document where
  top := forall₂_symm h.top
  assets position := by
    have hrel := h.assets position
    generalize assetLayers? (document.get "assets").items position = layers? at hrel ⊢
    generalize assetLayers? (result.get "assets").items position = result? at hrel ⊢
    cases hrel with
    | none => exact .none
    | some hlayers => exact .some (forall₂_symm hlayers)

/-- A document whose layers are related to those in the same places is one whose layers are
related to themselves. -/
theorem of_mem_layersOf {related : Members R → Members R → Prop} {document : Members R}
    (h : OnLayers related document document) {layer : Members R}
    (hlayer : layer ∈ layersOf document) : related layer layer := by
  have hself : ∀ {layers : List (Value R)}, List.Forall₂ (OnMembers related) layers layers →
      .object layer ∈ layers → related layer layer := by
    intro layers hlayers hmem
    obtain ⟨own, hown, hrelated⟩ := List.forall₂_same.mp hlayers _ hmem
    obtain rfl := Value.object.inj hown
    exact hrelated
  rcases mem_layersOf.mp hlayer with hmem | ⟨position, layers, hlayers, hmem⟩
  · exact hself h.top hmem
  · obtain ⟨own, hown, hrelated⟩ := exists_of_rel_left (h.assets position) hlayers
    rw [hlayers] at hown
    obtain rfl := Option.some.inj hown
    exact hself hrelated hmem

end OnLayers

theorem onLayers_changeLayers {related : Members R → Members R → Prop}
    {change : Change (Members R)}
    (hchange : ∀ layer own, change layer = .ok own → related layer own)
    {document result : Members R} (changed : changeLayers change document = .ok result) :
    OnLayers related document result := by
  rw [changeLayers_eq] at changed
  obtain ⟨middle, htop, hassets⟩ := bind_eq_ok.mp changed
  refine ⟨?_, fun position => ?_⟩
  · rw [Members.get_adjust_of_ne hassets (by decide)]
    exact (onItems_adjust (fun _ _ => onMembers_adjustMembers hchange) htop).items
  · rw [← Members.get_adjust_of_ne htop (by decide)]
    have hitems : OnItems (OnMembers fun asset own =>
        OnItems (OnMembers related) (asset.get "layers") (own.get "layers"))
        (middle.get "assets") (result.get "assets") := by
      refine onItems_adjust (fun _ _ => onMembers_adjustMembers fun asset own hown => ?_) hassets
      exact onItems_adjust (fun _ _ => onMembers_adjustMembers hchange) hown
    refine rel_bind (forall₂_getElem? hitems.items position) fun asset own hasset => ?_
    cases asset with
    | object members =>
        obtain ⟨own, rfl, hown⟩ := hasset
        exact hown.items?
    | _ =>
        cases hasset
        exact .none

/-- Completing a document keeps the colors of every layer. -/
theorem recolored_completeDocument [Scalar R] {document result : Members R}
    (returned : (completeDocument document).outcome = .ok result) :
    OnLayers (Recolored Eq) document result := by
  obtain ⟨layers, finished, htop, hlayers, hassets⟩ := members_completeDocument returned
  obtain ⟨horder, hcompleted⟩ := completed_top htop
  refine ⟨?_, fun position => ?_⟩
  · rw [hlayers]
    exact hcompleted.recolored
  · rw [hassets, assetLayers?_finishAssets horder]
    cases hsource : assetLayers? (document.get "assets").items position with
    | none => exact .none
    | some source =>
        refine .some ?_
        cases hlookup : finished.lookup position with
        | none => exact List.forall₂_refl _
        | some own => exact (horder.completed_from hlookup hsource).recolored

/-! ## Layers that are filled in -/

section Filled

variable [Scalar R]

/-- The precompositions that completing a document fills: those at the top, in the assets that
are used, and in what others are filled with. -/
inductive IsFilled (document result : Members R) : Members R → Prop
  | top {layer : Members R} (hmem : .object layer ∈ (result.get "layers").items)
      (completable : isCompletable layer = true) (precomp : isPrecomp layer = true) :
      IsFilled document result layer
  | asset {position : Nat} {layers : List (Value R)} {layer : Members R}
      (used : IsUsed document position)
      (hlayers : assetLayers? (result.get "assets").items position = some layers)
      (hmem : .object layer ∈ layers) (completable : isCompletable layer = true)
      (precomp : isPrecomp layer = true) : IsFilled document result layer
  | within {outer layer : Members R} (filled : IsFilled document result outer)
      (hmem : .object layer ∈ layersWithin outer) (completable : isCompletable layer = true)
      (precomp : isPrecomp layer = true) : IsFilled document result layer

/-- A precomposition has nothing within it, or the layers that the document holds for an asset
it names, which are related to those that the asset had. -/
def FilledFrom (related : Members R → Members R → Prop) (document result layer : Members R) :
    Prop :=
  layer.get "layers" = .list [] ∨ ∃ position sources layers,
    referencedAsset? (document.get "assets").items (layer.get "refId") = some (position, sources) ∧
    assetLayers? (result.get "assets").items position = some layers ∧
    layer.get "layers" = .list layers ∧ List.Forall₂ (OnMembers related) sources layers

theorem IsFilled.precomp {document result layer : Members R}
    (filled : IsFilled document result layer) :
    isCompletable layer = true ∧ isPrecomp layer = true := by
  cases filled with
  | top _ completable precomp => exact ⟨completable, precomp⟩
  | asset _ _ _ completable precomp => exact ⟨completable, precomp⟩
  | within _ _ completable precomp => exact ⟨completable, precomp⟩

section Completed

variable {document result : Members R} {layers : List (Value R)} {finished : Finished R}
  (htop : (completeTop document).outcome = .ok (layers, finished))
  (hlayers : result.get "layers" = .list layers)
  (hassets : (result.get "assets").items = finishAssets finished (document.get "assets").items)

include htop hlayers hassets

/-- A filled layer stands in a list that was completed with some of the finished assets. -/
theorem completed_around_filled {layer : Members R} (filled : IsFilled document result layer) :
    ∃ cut known sources list, known <:+ finished ∧ .object layer ∈ list ∧
      Completed (ExpandsTo (document.get "assets").items cut known) sources list := by
  obtain ⟨horder, hcompleted⟩ := completed_top htop
  induction filled with
  | top hmem =>
      rw [hlayers] at hmem
      exact ⟨_, finished, _, layers, List.suffix_refl _, hmem, hcompleted⟩
  | @asset position list _ used hlist hmem =>
      obtain ⟨own, hown⟩ := Option.isSome_iff_exists.mp ((finished_iff_used htop position).mpr used)
      rw [hassets, assetLayers?_finishAssets horder, hown] at hlist
      obtain ⟨source, hsource, rfl⟩ := Option.map_eq_some_iff.mp hlist
      exact ⟨_, _, source, own, finishedBefore_suffix _ _, hmem,
        horder.completed_from hown hsource⟩
  | @within outer _ filled hmem _ _ ih =>
      obtain ⟨cut, known, sources, list, hsuffix, houter, haround⟩ := ih
      obtain ⟨expansion, -, hexpands, hexpansion⟩ :=
        haround.exists_expansion houter filled.precomp.1 filled.precomp.2
      rw [layersWithin, hexpansion] at hmem
      unfold ExpandsTo at hexpands
      split at hexpands
      · rw [hexpands] at hmem
        cases hmem
      · rename_i position source hasset
        rcases hexpands with hlookup | ⟨-, -, rfl⟩
        · exact ⟨_, _, source, expansion, (finishedBefore_suffix _ _).trans hsuffix, hmem,
            (horder.of_suffix hsuffix).completed_from hlookup
              (assetLayers?_of_referencedAsset? hasset)⟩
        · cases hmem

end Completed

/-- What completing a document fills a precomposition with has the colors of the asset. -/
theorem filledFrom_completeDocument {document result : Members R}
    (returned : (completeDocument document).outcome = .ok result) {layer : Members R}
    (filled : IsFilled document result layer) :
    FilledFrom (Recolored Eq) document result layer := by
  obtain ⟨top, finished, htop, hlayers, hassets⟩ := members_completeDocument returned
  obtain ⟨horder, -⟩ := completed_top htop
  obtain ⟨cut, known, sources, list, hsuffix, hmem, haround⟩ :=
    completed_around_filled htop hlayers hassets filled
  obtain ⟨expansion, -, hexpands, hexpansion⟩ :=
    haround.exists_expansion hmem filled.precomp.1 filled.precomp.2
  unfold ExpandsTo at hexpands
  split at hexpands
  · exact .inl (hexpands ▸ hexpansion)
  · rename_i position source hasset
    rcases hexpands with hlookup | ⟨-, -, hempty⟩
    · -- what was known around the layer is what the document holds in the end
      have hsource := assetLayers?_of_referencedAsset? hasset
      have hknown := horder.lookup_of_suffix hsuffix hlookup
      refine .inr ⟨position, source, expansion, hasset, ?_, hexpansion,
        (horder.completed_from hknown hsource).recolored⟩
      rw [hassets, assetLayers?_finishAssets horder, hsource, hknown]
      rfl
    · exact .inl (hempty ▸ hexpansion)

/-- What a precomposition is filled with, told from an earlier document. -/
theorem FilledFrom.of_alike {rule : List (Value R) → List (Value R) → Prop}
    {first second result layer : Members R} (alike : AlikeDocuments first second)
    (h : OnLayers (Recolored rule) first second)
    (filled : FilledFrom (Recolored Eq) second result layer) :
    FilledFrom (Recolored rule) first result layer := by
  refine filled.imp_right ?_
  rintro ⟨position, own, layers, hnames, hlayers, hwithin, hown⟩
  obtain ⟨⟨_, sources⟩, hsources, rfl, -⟩ :=
    exists_of_rel_right (rel_referencedAsset? alike.assets.items (layer.get "refId")) hnames
  refine ⟨position, sources, layers, hsources, hlayers, hwithin, ?_⟩
  obtain ⟨other, hother, hrelated⟩ :=
    exists_of_rel_left (h.assets position) (assetLayers?_of_referencedAsset? hsources)
  rw [assetLayers?_of_referencedAsset? hnames] at hother
  obtain rfl := Option.some.inj hother
  exact forall₂_comp (fun _ _ _ hx hy => hx.comp (fun _ _ _ => Recolored.trans_eq) hy) hrelated hown

/-- Filled layers are the same for documents that are alike. -/
theorem IsFilled.of_alike {first second result layer : Members R}
    (alike : AlikeDocuments first second) (filled : IsFilled first result layer) :
    IsFilled second result layer := by
  induction filled with
  | top hmem completable precomp => exact .top hmem completable precomp
  | asset used hlayers hmem completable precomp =>
      exact .asset ((isUsed_iff alike _).mpr used) hlayers hmem completable precomp
  | within _ hmem completable precomp ih => exact .within ih hmem completable precomp

end Filled

end MotionScene
