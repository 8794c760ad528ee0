import MotionScene.Proofs.Migration.Handles
import MotionScene.Proofs.Migration.Uses

/-!
# Documents that are alike

Two documents are alike when their layers stand in the same places, say the same about what
they are and what they refer to, and have beziers with the same handles.  Whatever only
depends on these things is the same for both: the assets that references name
(`rel_referencedAsset?`) and the assets that are used (`isUsed_iff`).
-/

namespace MotionScene

variable {R : Type}

/-! ## Lists and objects -/

/-- A list with related items in their places; any other value stays. -/
def OnItems (related : Value R → Value R → Prop) (value result : Value R) : Prop :=
  match value with
  | .list items => ∃ own, result = .list own ∧ List.Forall₂ related items own
  | value => result = value

/-- An object with related members; any other value stays. -/
def OnMembers (related : Members R → Members R → Prop) (value result : Value R) : Prop :=
  match value with
  | .object members => ∃ own, result = .object own ∧ related members own
  | value => result = value

section Related

variable {related : Value R → Value R → Prop} {relatedMembers : Members R → Members R → Prop}

instance [IsEquiv (Value R) related] : IsEquiv (Value R) (OnItems related) where
  refl value := by
    cases value with
    | list items => exact ⟨items, rfl, List.forall₂_refl items⟩
    | _ => rfl
  symm first second h := by
    cases first with
    | list items =>
        obtain ⟨own, rfl, hown⟩ := h
        exact ⟨items, rfl, forall₂_symm hown⟩
    | _ =>
        cases h
        rfl
  trans first second third h h' := by
    cases first with
    | list items =>
        obtain ⟨own, rfl, hown⟩ := h
        obtain ⟨more, rfl, hmore⟩ := h'
        exact ⟨more, rfl, forall₂_comp IsTrans.trans hown hmore⟩
    | _ =>
        cases h
        exact h'

instance [IsEquiv (Members R) relatedMembers] :
    IsEquiv (Value R) (OnMembers relatedMembers) where
  refl value := by
    cases value with
    | object members => exact ⟨members, rfl, refl members⟩
    | _ => rfl
  symm first second h := by
    cases first with
    | object members =>
        obtain ⟨own, rfl, hown⟩ := h
        exact ⟨members, rfl, symm hown⟩
    | _ =>
        cases h
        rfl
  trans first second third h h' := by
    cases first with
    | object members =>
        obtain ⟨own, rfl, hown⟩ := h
        obtain ⟨more, rfl, hmore⟩ := h'
        exact ⟨more, rfl, IsTrans.trans _ _ _ hown hmore⟩
    | _ =>
        cases h
        exact h'

theorem onItems_adjustItems {change : Change (Value R)}
    (hchange : ∀ value changed, change value = .ok changed → related value changed)
    {value result : Value R} (changed : value.adjustItems change = .ok result) :
    OnItems related value result := by
  cases value with
  | list items =>
      obtain ⟨own, hown, rfl⟩ := map_eq_ok.mp changed
      exact ⟨own, rfl, (mapM_eq_ok.mp hown).imp hchange⟩
  | _ =>
      cases changed
      rfl

theorem onItems_adjust {key : String} {change : Change (Value R)}
    (hchange : ∀ value changed, change value = .ok changed → related value changed)
    {members result : Members R}
    (adjusted : members.adjust key (Value.adjustItems change) = .ok result) :
    OnItems related (members.get key) (result.get key) := by
  rcases Members.get_adjust_self adjusted with ⟨hnull, hnull'⟩ | hitems
  · rw [hnull, hnull']
    rfl
  · exact onItems_adjustItems hchange hitems

theorem onMembers_adjustMembers {change : Change (Members R)}
    (hchange : ∀ members changed, change members = .ok changed → relatedMembers members changed)
    {value result : Value R} (changed : value.adjustMembers change = .ok result) :
    OnMembers relatedMembers value result := by
  cases value with
  | object members =>
      obtain ⟨own, hown, rfl⟩ := map_eq_ok.mp changed
      exact ⟨own, rfl, hchange members own hown⟩
  | _ =>
      cases changed
      rfl

theorem OnItems.items? {value result : Value R} (h : OnItems related value result) :
    Option.Rel (List.Forall₂ related) value.items? result.items? := by
  cases value with
  | list items =>
      obtain ⟨own, rfl, hown⟩ := h
      exact .some hown
  | _ =>
      cases h
      exact .none

theorem OnItems.items {value result : Value R} (h : OnItems related value result) :
    List.Forall₂ related value.items result.items := by
  cases value with
  | list items =>
      obtain ⟨own, rfl, hown⟩ := h
      exact hown
  | _ =>
      cases h
      exact .nil

theorem OnMembers.members? {value result : Value R} (h : OnMembers relatedMembers value result) :
    Option.Rel relatedMembers value.members? result.members? := by
  cases value with
  | object members =>
      obtain ⟨own, rfl, hown⟩ := h
      exact .some hown
  | _ =>
      cases h
      exact .none

theorem OnMembers.exists_object {value : Value R} {own : Members R}
    (h : OnMembers relatedMembers value (.object own)) :
    ∃ members, value = .object members ∧ relatedMembers members own := by
  cases value with
  | object members =>
      obtain ⟨_, ⟨⟩, hown⟩ := h
      exact ⟨members, rfl, hown⟩
  | _ => cases h

theorem OnMembers.imp {first second : Members R → Members R → Prop}
    (himp : ∀ members own, first members own → second members own) {value result : Value R}
    (h : OnMembers first value result) : OnMembers second value result := by
  cases value with
  | object members =>
      obtain ⟨own, rfl, hown⟩ := h
      exact ⟨own, rfl, himp _ _ hown⟩
  | _ => exact h

theorem OnMembers.comp {first second both : Members R → Members R → Prop}
    (hboth : ∀ x y z, first x y → second y z → both x z) {value middle result : Value R}
    (h : OnMembers first value middle) (h' : OnMembers second middle result) :
    OnMembers both value result := by
  cases value with
  | object members =>
      obtain ⟨own, rfl, hown⟩ := h
      obtain ⟨more, rfl, hmore⟩ := h'
      exact ⟨more, rfl, hboth _ _ _ hown hmore⟩
  | _ =>
      cases h
      exact h'

end Related

/-! ## Layers with the same handles -/

variable [Scalar R]

/-- The members that say what a layer is, what it refers to and what is below it. -/
def roleKeys : List String := ["ks", "ty", "refId", "layers"]

/-- A layer and one in the same role whose beziers have the same handles. -/
structure Alike (source layer : Members R) : Prop where
  role : ∀ key ∈ roleKeys, layer.get? key = source.get? key
  beziers : List.Forall₂ SameHandles (layerBeziers source) (layerBeziers layer)

namespace Alike

theorem of_get? {source layer : Members R}
    (h : ∀ key ∈ roleKeys ++ bezierKeys, layer.get? key = source.get? key) :
    Alike source layer := by
  refine ⟨fun key hkey => h key (List.mem_append_left _ hkey), ?_⟩
  rw [layerBeziers_congr fun key hkey => h key (List.mem_append_right _ hkey)]
  exact List.forall₂_refl _

instance : IsEquiv (Members R) Alike where
  refl _ := of_get? fun _ _ => rfl
  symm _ _ h := ⟨fun key hkey => (h.role key hkey).symm, forall₂_symm h.beziers⟩
  trans _ _ _ h h' :=
    ⟨fun key hkey => (h'.role key hkey).trans (h.role key hkey),
      forall₂_comp IsTrans.trans h.beziers h'.beziers⟩

theorem of_adjust {key : String} (hkey : key ∉ roleKeys ++ bezierKeys) {change : Change (Value R)}
    {source layer : Members R} (adjusted : source.adjust key change = .ok layer) :
    Alike source layer :=
  of_get? fun _ hother => Members.get?_adjust_of_ne adjusted fun h => hkey (h ▸ hother)

/-- A change of the outlines in the shape list of a layer. -/
theorem of_changeShapes {change : Change (Members R)} (hkind : KeepsKind change)
    (hchange : ∀ entry changed, change entry = .ok changed →
      List.Forall₂ SameHandles (outlineBeziers entry) (outlineBeziers changed))
    {source layer : Members R}
    (changed : source.adjust "shapes" (changeShapes change) = .ok layer) : Alike source layer where
  role key hkey := Members.get?_adjust_of_ne changed fun h => by
    subst h
    exact absurd hkey (by decide)
  beziers := by
    refine List.rel_append ?_ (shapeBeziers_changeShapes hkind hchange changed)
    rw [maskBeziers_congr (Members.get_adjust_of_ne changed (by decide))
      (Members.get_adjust_of_ne changed (by decide))]
    exact List.forall₂_refl _

end Alike

/-- An asset and one with the same identifier whose layers are alike. -/
structure AlikeAsset (asset result : Members R) : Prop where
  id : result.get "id" = asset.get "id"
  layers : OnItems (OnMembers Alike) (asset.get "layers") (result.get "layers")

/-- A document and one whose layers are alike, at the top and in the assets. -/
structure AlikeDocuments (document result : Members R) : Prop where
  layers : OnItems (OnMembers Alike) (document.get "layers") (result.get "layers")
  assets : OnItems (OnMembers AlikeAsset) (document.get "assets") (result.get "assets")

instance : IsEquiv (Members R) AlikeAsset where
  refl _ := ⟨rfl, refl _⟩
  symm _ _ h := ⟨h.id.symm, symm h.layers⟩
  trans _ _ _ h h' := ⟨h'.id.trans h.id, IsTrans.trans _ _ _ h.layers h'.layers⟩

instance : IsEquiv (Members R) AlikeDocuments where
  refl _ := ⟨refl _, refl _⟩
  symm _ _ h := ⟨symm h.layers, symm h.assets⟩
  trans _ _ _ h h' :=
    ⟨IsTrans.trans _ _ _ h.layers h'.layers, IsTrans.trans _ _ _ h.assets h'.assets⟩

/-! ## References between alike documents -/

namespace Alike

variable {source layer : Members R}

theorem get (alike : Alike source layer) {key : String} (hkey : key ∈ roleKeys) :
    layer.get key = source.get key := by
  exact Members.get_congr (alike.role key hkey)

theorem isCompletable (alike : Alike source layer) :
    isCompletable layer = isCompletable source := by
  rw [MotionScene.isCompletable, MotionScene.isCompletable, Members.has, Members.has,
    alike.role "ks" (by decide)]

theorem isPrecomp (alike : Alike source layer) : isPrecomp layer = isPrecomp source := by
  rw [MotionScene.isPrecomp, MotionScene.isPrecomp, isLayerKind, isLayerKind,
    alike.get (by decide)]

end Alike

theorem refersTo_of_alike {layers others : List (Value R)}
    (alike : List.Forall₂ (OnMembers Alike) layers others) {reference : Value R}
    (refers : RefersTo layers reference) : RefersTo others reference := by
  obtain ⟨layer, hmem, completable, precomp, rfl⟩ := refers
  obtain ⟨_, hother, other, rfl, hlayer⟩ := exists_of_mem_left alike hmem
  exact ⟨other, hother, hlayer.isCompletable.trans completable, hlayer.isPrecomp.trans precomp,
    hlayer.get (by decide)⟩

section Assets

variable {assets others : List (Value R)}
  (alike : List.Forall₂ (OnMembers AlikeAsset) assets others)

include alike

theorem assetPosition?_of_alike (reference : Value R) :
    assetPosition? others reference = assetPosition? assets reference := by
  refine assetPosition?_congr ?_
  induction alike with
  | nil => rfl
  | @cons asset other _ _ hasset _ ih =>
      rw [List.map_cons, List.map_cons, ih]
      congr 1
      cases asset with
      | object members =>
          obtain ⟨own, rfl, hown⟩ := hasset
          rw [isAsset, isAsset, hown.id]
      | _ =>
          cases hasset
          rfl

theorem rel_assetLayers? (position : Nat) :
    Option.Rel (List.Forall₂ (OnMembers Alike)) (assetLayers? assets position)
      (assetLayers? others position) := by
  refine rel_bind (forall₂_getElem? alike position) fun asset other hasset => ?_
  cases asset with
  | object members =>
      obtain ⟨own, rfl, hown⟩ := hasset
      exact hown.layers.items?
  | _ =>
      cases hasset
      exact .none

/-- References name the same assets, with layers that are alike. -/
theorem rel_referencedAsset? (reference : Value R) :
    Option.Rel (fun found other => other.1 = found.1 ∧
        List.Forall₂ (OnMembers Alike) found.2 other.2)
      (referencedAsset? assets reference) (referencedAsset? others reference) := by
  rw [referencedAsset?, referencedAsset?, assetPosition?_of_alike alike]
  cases assetPosition? assets reference with
  | none => exact .none
  | some position =>
      exact rel_bind (rel_assetLayers? alike position) fun _ _ hlayers => .some ⟨rfl, hlayers⟩

theorem uses_of_alike {user used : Nat} (uses : Uses assets user used) :
    Uses others user used := by
  obtain ⟨layers, reference, source, hlayers, hrefers, hnames⟩ := uses
  obtain ⟨own, hown, hlike⟩ := exists_of_rel_left (rel_assetLayers? alike user) hlayers
  obtain ⟨⟨_, found⟩, hfound, rfl, -⟩ :=
    exists_of_rel_left (rel_referencedAsset? alike reference) hnames
  exact ⟨own, reference, found, hown, refersTo_of_alike hlike hrefers, hfound⟩

end Assets

theorem isUsed_of_alike {document result : Members R} (alike : AlikeDocuments document result)
    {position : Nat} (used : IsUsed document position) : IsUsed result position := by
  induction used with
  | @top reference _ _ refers names =>
      obtain ⟨⟨_, found⟩, hfound, rfl, -⟩ :=
        exists_of_rel_left (rel_referencedAsset? alike.assets.items reference) names
      exact .top (refersTo_of_alike alike.layers.items refers) hfound
  | nested _ uses ih => exact ih.nested (uses_of_alike alike.assets.items uses)

theorem isUsed_iff {document result : Members R} (alike : AlikeDocuments document result)
    (position : Nat) : IsUsed result position ↔ IsUsed document position :=
  ⟨isUsed_of_alike (symm alike), isUsed_of_alike alike⟩

end MotionScene
