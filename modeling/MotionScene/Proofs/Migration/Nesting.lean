import Mathlib.Data.List.Chain
import MotionScene.Proofs.Migration.Finishing

/-!
# Layers within layers

A completed list has the layers of finished assets within its precompositions, theirs
within those, and so on.  Wherever a layer stands below a completed list, it is what
became of the layer that the references of the given list lead to (`Completed.shownFor`),
and going down, the assets that are named all differ (`positions_of_chain`): what is within
an expansion was completed before its own asset was finished.
-/

namespace MotionScene

open Relation

variable {R : Type} [Scalar R]

/-! ## Nested expansions -/

/-- Layers that have no layers within them yet. -/
def Unnested (layers : List (Value R)) : Prop :=
  ∀ layer, .object layer ∈ layers → layersWithin layer = []

omit [Scalar R] in
theorem Unnested.layersWithin_eq {layers : List (Value R)} (unnested : Unnested layers)
    {index : Nat} {layer : Members R} (h : layers[index]?.bind Value.members? = some layer) :
    layersWithin layer = [] := by
  obtain ⟨value, hvalue, hmembers⟩ := Option.bind_eq_some_iff.mp h
  cases value with
  | object members =>
      cases hmembers
      exact unnested layer (List.mem_of_getElem? hvalue)
  | _ => cases hmembers

/-- The layers of the asset that a layer refers to, if it is to be expanded. -/
def layersReferred (assets : List (Value R)) (layer : Members R) : List (Value R) :=
  if isCompletable layer && isPrecomp layer then
    ((referencedAsset? assets (layer.get "refId")).map (·.2)).getD []
  else []

section Expansions

variable {assets : List (Value R)} {cut : Nat → Prop} {known : Finished R}

theorem FinishedInOrder.of_suffix {finished : Finished R}
    (hfinished : FinishedInOrder assets finished) (h : known <:+ finished) :
    FinishedInOrder assets known := by
  obtain ⟨extra, rfl⟩ := h
  induction extra with
  | nil => exact hfinished
  | cons entry extra ih => exact ih hfinished.2.2

/-- The layers of a finished asset were completed from the ones it had. -/
theorem FinishedInOrder.completed_from (hfinished : FinishedInOrder assets known)
    {position : Nat} {source layers : List (Value R)}
    (hlookup : known.lookup position = some layers)
    (hsource : assetLayers? assets position = some source) :
    Completed (ExpandsTo assets (ReflTransGen (Uses assets) · position)
      (finishedBefore known (some position))) source layers := by
  obtain ⟨-, given, hgiven, hcompleted⟩ := hfinished.completed_before hlookup
  rw [hsource] at hgiven
  cases hgiven
  exact hcompleted

/-- The layers within an expanded layer are those of a finished asset, completed when the
assets finished before it were known. -/
structure ExpandedFrom (assets : List (Value R)) (known : Finished R) (source layer : Members R)
    (position : Nat) (own : List (Value R)) : Prop where
  referred : layersReferred assets source = own
  named : assetPosition? assets (layer.get "refId") = some position
  asset : assetLayers? assets position = some own
  finished : (known.lookup position).isSome
  fresh : (finishedBefore known (some position)).lookup position = none
  completed : Completed (ExpandsTo assets (ReflTransGen (Uses assets) · position)
    (finishedBefore known (some position))) own (layersWithin layer)

theorem Finishes.expandedFrom (horder : FinishedInOrder assets known) {source layer : Members R}
    (finishes : Finishes (ExpandsTo assets cut known) source layer)
    (plain : layersWithin source = []) (expanded : layersWithin layer ≠ []) :
    ∃ position own, ExpandedFrom assets known source layer position own := by
  by_cases h : isCompletable source = true ∧ isPrecomp source = true
  · have hexpands := finishes.expanded h.1 h.2
    unfold ExpandsTo at hexpands
    split at hexpands
    · exact absurd hexpands expanded
    · rename_i position own hasset
      rcases hexpands with hlookup | ⟨-, -, hempty⟩
      · obtain ⟨hfresh, -⟩ := horder.completed_before hlookup
        have hown := assetLayers?_of_referencedAsset? hasset
        refine ⟨position, own, ⟨?_, ?_, hown, by rw [hlookup]; rfl, hfresh,
          horder.completed_from hlookup hown⟩⟩
        · rw [layersReferred, h.1, h.2, hasset]
          rfl
        · rw [finishes.reference, assetPosition?_of_referencedAsset? hasset]
      · exact absurd hempty expanded
  · exact absurd ((finishes.plain h).trans plain) expanded

end Expansions

/-! ## Places -/

/-- The layer at an index of a list, or of the layers within the layer that a place leads
to: the indices of a place are taken one below the other. -/
def layerAt? (within : Members R → List (Value R)) :
    List (Value R) → (place : List Nat) → (index : Nat) → Option (Members R)
  | layers, [], index => layers[index]?.bind Value.members?
  | layers, outer :: place, index => (layers[outer]?.bind Value.members?).bind fun layer =>
    layerAt? within (within layer) place index

/-- Layers that a document shows for given ones: as many, and every layer at a place below
them is what becomes of the one that the references of the given layers lead to. -/
structure ShownFor (assets sources layers : List (Value R)) : Prop where
  length : layers.length = sources.length
  migrated : ∀ place index layer, layerAt? layersWithin layers place index = some layer →
    ∃ source, layerAt? (layersReferred assets) sources place index = some source ∧
      Migrated source layer

section Places

omit [Scalar R] in
theorem layerAt?_nil (within : Members R → List (Value R)) (place : List Nat) (index : Nat) :
    layerAt? within [] place index = none := by
  cases place <;> rfl

omit [Scalar R] in
theorem rel_layerAt? {related : Members R → Members R → Prop}
    {within within' : Members R → List (Value R)}
    (hwithin : ∀ layer other, related layer other →
      List.Forall₂ (OnMembers related) (within layer) (within' other))
    {layers others : List (Value R)} (h : List.Forall₂ (OnMembers related) layers others)
    (place : List Nat) (index : Nat) :
    Option.Rel related (layerAt? within layers place index)
      (layerAt? within' others place index) := by
  induction place generalizing layers others with
  | nil => exact rel_bind (forall₂_getElem? h index) fun _ _ hlayer => hlayer.members?
  | cons outer place ih =>
      refine rel_bind (rel_bind (forall₂_getElem? h outer) fun _ _ hlayer => hlayer.members?) ?_
      exact fun layer other hlayer => ih (hwithin layer other hlayer)

variable {assets : List (Value R)}
  (hassets : ∀ position source, assetLayers? assets position = some source → Unnested source)

include hassets

/-- A completed list is shown for the given one: the induction is on the place, one expansion
at a time. -/
theorem Completed.shownFor {cut : Nat → Prop} {known : Finished R}
    (horder : FinishedInOrder assets known) {sources layers : List (Value R)}
    (completed : Completed (ExpandsTo assets cut known) sources layers)
    (hsources : Unnested sources) : ShownFor assets sources layers := by
  refine ⟨completed.finishes.length_eq.symm, fun place index layer hlayer => ?_⟩
  induction place generalizing cut known sources layers with
  | nil =>
      have hrel := rel_bind (forall₂_getElem? completed.finishes index) fun _ _ h => h.members?
      obtain ⟨source, hsource, hfinishes⟩ := exists_of_rel_right hrel hlayer
      exact ⟨source, hsource, hfinishes.migrated⟩
  | cons outer place ih =>
      obtain ⟨around, haround, hinner⟩ := Option.bind_eq_some_iff.mp hlayer
      have hrel := rel_bind (forall₂_getElem? completed.finishes outer) fun _ _ h => h.members?
      obtain ⟨source, hsource, hfinishes⟩ := exists_of_rel_right hrel haround
      have hexpanded : layersWithin around ≠ [] := by
        intro hempty
        rw [hempty, layerAt?_nil] at hinner
        cases hinner
      obtain ⟨position, own, hfrom⟩ :=
        hfinishes.expandedFrom horder (hsources.layersWithin_eq hsource) hexpanded
      have horder' := horder.of_suffix (finishedBefore_suffix known (some position))
      obtain ⟨inner, hinner', hmigrated⟩ :=
        ih horder' hfrom.completed (hassets position own hfrom.asset) hinner
      refine ⟨inner, ?_, hmigrated⟩
      rw [layerAt?, hsource, Option.bind_some, hfrom.referred, hinner']

end Places

/-! ## Chains -/

/-- Along a chain that starts in a completed list the layers name different assets, all
finished: what is within an expansion was completed when its own asset was not. -/
theorem positions_of_chain {assets : List (Value R)}
    (hassets : ∀ position source, assetLayers? assets position = some source → Unnested source)
    {cut : Nat → Prop} {known : Finished R} (horder : FinishedInOrder assets known)
    {sources layers : List (Value R)}
    (completed : Completed (ExpandsTo assets cut known) sources layers)
    (hsources : Unnested sources) {chain : List (Members R)}
    (hfirst : ∀ layer ∈ chain.head?, .object layer ∈ layers)
    (hnested : chain.IsChain fun outer inner => .object inner ∈ layersWithin outer)
    (hexpanded : ∀ layer ∈ chain, layersWithin layer ≠ []) :
    ∃ positions : List Nat,
      (chain.map fun layer => assetPosition? assets (layer.get "refId")) = positions.map some ∧
      positions.Nodup ∧ ∀ position ∈ positions, (known.lookup position).isSome := by
  induction chain generalizing cut known sources layers with
  | nil => exact ⟨[], rfl, List.nodup_nil, by simp⟩
  | cons outer chain ih =>
      obtain ⟨hinner, hrest⟩ := List.isChain_cons.mp hnested
      obtain ⟨value, hvalue, houter⟩ :=
        exists_of_mem_right completed.finishes (hfirst outer rfl)
      obtain ⟨source, rfl, hfinishes⟩ := houter.exists_object
      obtain ⟨position, own, hfrom⟩ := hfinishes.expandedFrom horder (hsources source hvalue)
        (hexpanded outer List.mem_cons_self)
      have hsuffix := finishedBefore_suffix known (some position)
      obtain ⟨positions, hmap, hnodup, hknown⟩ := ih (horder.of_suffix hsuffix) hfrom.completed
        (hassets position own hfrom.asset) hinner hrest
        fun layer hlayer => hexpanded layer (List.mem_cons_of_mem _ hlayer)
      refine ⟨position :: positions, ?_, List.nodup_cons.mpr ⟨fun hmem => ?_, hnodup⟩,
        List.forall_mem_cons.mpr ⟨hfrom.finished, fun other hother => ?_⟩⟩
      · rw [List.map_cons, List.map_cons, hmap, hfrom.named]
      · have hagain := hknown position hmem
        rw [hfrom.fresh] at hagain
        cases hagain
      · exact isSome_lookup_of_suffix hsuffix (hknown other hother)

end MotionScene
