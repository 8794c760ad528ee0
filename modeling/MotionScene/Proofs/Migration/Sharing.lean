import MotionScene.Migration.Document
import MotionScene.Proofs.Migration.FreshCopies
import MotionScene.Proofs.Migration.Steps

/-!
# Sharing does not show

The layers of an asset are completed once and shared by all its uses.  This module shows
that nobody can tell from a migrated document.

* Every precomposition that is reached from the top has the layers that the document
  itself holds for the asset, unless it was cut (`expansion_of_reached`).
* Where no asset uses itself, the layers at the top are those of `freshLayers`, which
  completes a copy of the layers of the asset for every single use and keeps no record
  of what it did (`freshLayers_top`).

A use is cut when its asset is not finished before the asset around it
(`finishedBefore`), which only happens where the used asset leads back to that one.
-/

namespace MotionScene

open Relation

variable {R : Type} [Scalar R]

/-! ## The migrated document -/

omit [Scalar R] in
theorem getElem?_finishAssets (finished : Finished R) (assets : List (Value R))
    (position : Nat) : (finishAssets finished assets)[position]? =
      assets[position]?.map (finishAsset finished position) := by
  rw [finishAssets, List.getElem?_mapIdx]

omit [Scalar R] in
@[simp] theorem finishAssets_nil (assets : List (Value R)) : finishAssets [] assets = assets := by
  refine List.ext_getElem? fun position => ?_
  rw [getElem?_finishAssets]
  cases assets[position]? with
  | none => rfl
  | some asset => cases asset <;> rfl

/-- The layers and the assets of a completed document. -/
theorem members_completeDocument {document result : Members R}
    (returned : (completeDocument document).outcome = .ok result) :
    ∃ layers finished, (completeTop document).outcome = .ok (layers, finished) ∧
      result.get "layers" = .list layers ∧
      (result.get "assets").items = finishAssets finished (document.get "assets").items := by
  obtain ⟨⟨layers, finished⟩, htop, hrest⟩ := Traced.outcome_bind_eq_ok.mp returned
  refine ⟨layers, finished, htop, ?_⟩
  dsimp only at hrest
  split at hrest
  · cases hrest
    refine ⟨?_, ?_⟩
    · rw [Members.get_set_of_ne _ _ (by decide), Members.get_set_self]
    · rw [Members.get_set_self]
      rfl
  · -- the assets are left as they are: there are none, or none is finished
    rename_i hkept
    cases hrest
    refine ⟨Members.get_set_self _ _ _, ?_⟩
    rw [Members.get_set_of_ne _ _ (by decide)]
    rw [Members.has_set_of_ne _ _ (by decide)] at hkept
    cases hassets : document.get? "assets" with
    | none => simp [Members.get, hassets, Value.items, Value.items?, finishAssets]
    | some assets =>
        have hfinished : finished = [] := by simpa [Members.has, hassets] using hkept
        rw [hfinished, finishAssets_nil]

/-- Whether an asset has an identifier. -/
def isAsset (reference asset : Value R) : Bool :=
  match asset with
  | .object members => (Members.get members "id").same reference
  | _ => false

theorem isAsset_finishAsset (reference : Value R) (finished : Finished R) (position : Nat)
    (asset : Value R) :
    isAsset reference (finishAsset finished position asset) = isAsset reference asset := by
  unfold finishAsset
  split
  · rw [isAsset, isAsset, Members.get_set_of_ne _ _ (by decide)]
  · rfl

/-- The search for an asset sees assets only through their identifiers. -/
theorem assetPosition?_congr {assets others : List (Value R)} {reference : Value R}
    (h : others.map (isAsset reference) = assets.map (isAsset reference)) :
    assetPosition? others reference = assetPosition? assets reference := by
  calc assetPosition? others reference
      = (others.map (isAsset reference)).findIdx? id := by
        rw [List.findIdx?_map]
        rfl
    _ = (assets.map (isAsset reference)).findIdx? id := by rw [h]
    _ = assetPosition? assets reference := by
        rw [List.findIdx?_map]
        rfl

/-- Finishing assets changes no identifier. -/
theorem assetPosition?_finishAssets (finished : Finished R) (assets : List (Value R))
    (reference : Value R) :
    assetPosition? (finishAssets finished assets) reference = assetPosition? assets reference := by
  refine assetPosition?_congr (List.ext_getElem? fun position => ?_)
  rw [List.getElem?_map, List.getElem?_map, getElem?_finishAssets, Option.map_map]
  congr 1
  funext asset
  exact isAsset_finishAsset reference finished position asset

/-- Only assets with layers are finished. -/
theorem FinishedInOrder.exists_source {assets : List (Value R)} {finished : Finished R}
    (hfinished : FinishedInOrder assets finished) {position : Nat} {layers : List (Value R)}
    (hlookup : finished.lookup position = some layers) :
    ∃ source, assetLayers? assets position = some source := by
  induction finished with
  | nil => cases hlookup
  | cons entry known ih =>
      obtain ⟨owner, own⟩ := entry
      obtain ⟨-, ⟨source, hsource, -⟩, hknown⟩ := hfinished
      by_cases howner : position = owner
      · exact ⟨source, howner ▸ hsource⟩
      · rw [Finished.lookup_cons_of_ne _ _ howner] at hlookup
        exact ih hknown hlookup

/-- A finished asset has its completed layers, any other the ones it had. -/
theorem assetLayers?_finishAssets {finished : Finished R} {assets : List (Value R)}
    (hfinished : FinishedInOrder assets finished) (position : Nat) :
    assetLayers? (finishAssets finished assets) position =
      (assetLayers? assets position).map (finished.lookup position).getD := by
  have hbind : assetLayers? (finishAssets finished assets) position =
      assets[position]?.bind fun asset =>
        ((finishAsset finished position asset).members.get "layers").items? := by
    rw [assetLayers?, getElem?_finishAssets]
    exact Option.bind_map ..
  cases hlookup : finished.lookup position with
  | none =>
      have hkept : finishAsset finished position = id := by
        funext asset
        simp only [finishAsset, hlookup]
        cases asset <;> rfl
      rw [hbind, hkept]
      exact Option.map_id'.symm
  | some layers =>
      obtain ⟨source, hsource⟩ := hfinished.exists_source hlookup
      obtain ⟨asset, hasset, hitems⟩ := Option.bind_eq_some_iff.mp hsource
      rw [hbind, hsource, hasset]
      cases asset with
      | object members =>
          simp only [finishAsset, hlookup, Option.bind_some]
          exact congrArg Value.items? (Members.get_set_self members _ _)
      | _ => cases hitems

theorem referencedAsset?_finishAssets {finished : Finished R} {assets : List (Value R)}
    (hfinished : FinishedInOrder assets finished) (reference : Value R) :
    referencedAsset? (finishAssets finished assets) reference =
      (referencedAsset? assets reference).map fun found =>
        (found.1, (finished.lookup found.1).getD found.2) := by
  rw [referencedAsset?, referencedAsset?, assetPosition?_finishAssets]
  cases assetPosition? assets reference with
  | none => rfl
  | some position =>
      simp only [Option.bind_eq_bind, Option.bind_some, assetLayers?_finishAssets hfinished]
      cases assetLayers? assets position <;> rfl

/-! ## Layers that are reached -/

/-- The layers with a transform that are reached from the top of a document through
precompositions, each with the position of the asset that it belongs to. -/
inductive Reached (document : Members R) : Option Nat → Members R → Prop
  | top {layer : Members R} (hmem : .object layer ∈ (document.get "layers").items)
      (completable : isCompletable layer = true) : Reached document none layer
  | nested {owner? : Option Nat} {layer inner : Members R} {position : Nat}
      {layers : List (Value R)} (outer : Reached document owner? layer)
      (precomp : isPrecomp layer = true)
      (names : referencedAsset? (document.get "assets").items (layer.get "refId") =
        some (position, layers))
      (hmem : .object inner ∈ (layer.get "layers").items)
      (completable : isCompletable inner = true) : Reached document (some position) inner

/-- The assets that are finished for a document, latest first. -/
def finishedAssets (document : Members R) : Finished R :=
  match (completeTop document).outcome with
  | .ok (_, finished) => finished
  | .error _ => []

/-- The assets that are finished before the layers of an owner: all of them for the layers
at the top. -/
def finishedBefore (finished : Finished R) : Option Nat → Finished R
  | none => finished
  | some owner => (finished.dropWhile (·.1 != owner)).tail

/-- A use of an asset in the layers of an owner is cut when the asset is not finished
before the owner: it is then still being completed itself. -/
def IsCut (document : Members R) (owner? : Option Nat) (position : Nat) : Prop :=
  (finishedBefore (finishedAssets document) owner?).lookup position = none

/-- The layers of a finished asset were completed when the assets before it were known,
itself not among them. -/
theorem FinishedInOrder.completed_before {assets : List (Value R)} {finished : Finished R}
    (hfinished : FinishedInOrder assets finished) {owner : Nat} {layers : List (Value R)}
    (hlookup : finished.lookup owner = some layers) :
    (finishedBefore finished (some owner)).lookup owner = none ∧ ∃ source,
      assetLayers? assets owner = some source ∧
      Completed (ExpandsTo assets (ReflTransGen (Uses assets) · owner)
        (finishedBefore finished (some owner))) source layers := by
  induction finished with
  | nil => cases hlookup
  | cons entry known ih =>
      obtain ⟨latest, own⟩ := entry
      obtain ⟨hnew, ⟨source, hsource, hcompleted⟩, hknown⟩ := hfinished
      by_cases howner : owner = latest
      · subst howner
        rw [List.lookup_cons_self] at hlookup
        obtain rfl := Option.some.inj hlookup
        have hbefore : finishedBefore ((owner, own) :: known) (some owner) = known := by
          simp [finishedBefore]
        rw [hbefore]
        exact ⟨hnew, source, hsource, hcompleted⟩
      · rw [Finished.lookup_cons_of_ne _ _ howner] at hlookup
        have hbefore : finishedBefore ((latest, own) :: known) (some owner) =
            finishedBefore known (some owner) := by
          simp [finishedBefore, Ne.symm howner]
        rw [hbefore]
        exact ih hknown hlookup

omit [Scalar R] in
theorem finishedBefore_suffix (finished : Finished R) (owner? : Option Nat) :
    finishedBefore finished owner? <:+ finished := by
  cases owner? with
  | none => exact List.suffix_refl _
  | some owner => exact (List.tail_suffix _).trans (List.dropWhile_suffix _)

/-- An asset leads to an owner, which the layers at the top do not have. -/
def LeadsTo (assets : List (Value R)) (owner? : Option Nat) (position : Nat) : Prop :=
  ∃ owner, owner? = some owner ∧ ReflTransGen (Uses assets) position owner

/-- What completing the top of a document leaves: assets finished in order, and layers
whose references are all expanded. -/
theorem completed_top {document : Members R} {layers : List (Value R)} {finished : Finished R}
    (returned : (completeTop document).outcome = .ok (layers, finished)) :
    FinishedInOrder (document.get "assets").items finished ∧
      Completed (ExpandsTo (document.get "assets").items
          (LeadsTo (document.get "assets").items none) finished)
        (document.get "layers").items layers := by
  have keeps := (orderRule _).keeps _ _ (Active.top (document.get "assets").items)
  have hrefers : ∀ reference, RefersTo (document.get "layers").items reference →
      ReferredBelow (document.get "assets").items [] reference := by
    intro reference _ owner howner
    cases howner
  have hsound : SoundBelow (document.get "assets").items [] [] := ⟨trivial, by simp⟩
  obtain ⟨⟨horder, -⟩, -, hcompleted⟩ :=
    completed_of_completeLayers keeps hrefers hsound returned
  refine ⟨horder, hcompleted.imp fun _ _ _ expands => expands.imp ?_⟩
  simp

section Reached

variable {document result : Members R} {layers : List (Value R)} {finished : Finished R}

/-- A layer that is reached belongs to a list that was completed when the assets before
its owner were known. -/
theorem completed_around (htop : (completeTop document).outcome = .ok (layers, finished))
    (hlayers : result.get "layers" = .list layers)
    (hassets : (result.get "assets").items = finishAssets finished (document.get "assets").items)
    {owner? : Option Nat} {layer : Members R} (reached : Reached result owner? layer) :
    isCompletable layer = true ∧ ∃ source list, .object layer ∈ list ∧
      Completed (ExpandsTo (document.get "assets").items
        (LeadsTo (document.get "assets").items owner?) (finishedBefore finished owner?))
        source list := by
  obtain ⟨horder, hcompleted⟩ := completed_top htop
  induction reached with
  | top hmem completable =>
      rw [hlayers] at hmem
      exact ⟨completable, _, layers, hmem, hcompleted⟩
  | @nested owner? layer inner position _ outer precomp names hmem completable ih =>
      obtain ⟨houter, source, list, hlayer, haround⟩ := ih
      obtain ⟨expansion, -, hexpands, hexpansion⟩ :=
        haround.exists_expansion hlayer houter precomp
      rw [hexpansion] at hmem
      rw [hassets, referencedAsset?_finishAssets horder] at names
      obtain ⟨⟨found, asset⟩, hfound, hpair⟩ := Option.map_eq_some_iff.mp names
      cases hpair
      simp only [ExpandsTo, hfound] at hexpands
      rcases hexpands with hlookup | ⟨-, -, rfl⟩
      · -- the nested list was completed when only the assets before its owner were known
        have hknown := horder.lookup_of_suffix (finishedBefore_suffix _ _) hlookup
        obtain ⟨-, source, -, hinner⟩ := horder.completed_before hknown
        refine ⟨completable, source, expansion, hmem, ?_⟩
        exact hinner.imp fun _ _ _ expands => expands.imp fun _ hleads => ⟨_, rfl, hleads⟩
      · cases hmem

end Reached

/-! ## The two sides of sharing -/

/-- What a precomposition that is reached in a migrated document has for its layers: the
layers that the document holds for the asset it names, or nothing where it names none or
where it is cut, which only happens if that asset leads back to the one around it. -/
structure ExpandedAsShared (encoded document : Members R) (owner? : Option Nat)
    (layer : Members R) : Prop where
  shared : ∀ position layers, referencedAsset? (document.get "assets").items
    (layer.get "refId") = some (position, layers) → ¬ IsCut encoded owner? position →
    layer.get "layers" = .list layers
  cut : ∀ position layers, referencedAsset? (document.get "assets").items
    (layer.get "refId") = some (position, layers) → IsCut encoded owner? position →
    layer.get "layers" = .list [] ∧ LeadsTo (encoded.get "assets").items owner? position
  missing : referencedAsset? (document.get "assets").items (layer.get "refId") = none →
    layer.get "layers" = .list []

theorem expandedAsShared_of_reached {document result : Members R}
    (returned : (completeDocument document).outcome = .ok result) {owner? : Option Nat}
    {layer : Members R} (reached : Reached result owner? layer)
    (precomp : isPrecomp layer = true) : ExpandedAsShared document result owner? layer := by
  obtain ⟨layers, finished, htop, hlayers, hassets⟩ := members_completeDocument returned
  obtain ⟨horder, -⟩ := completed_top htop
  obtain ⟨completable, source, list, hmem, haround⟩ :=
    completed_around htop hlayers hassets reached
  obtain ⟨expansion, -, hexpands, hexpansion⟩ :=
    haround.exists_expansion hmem completable precomp
  have hfinished : finishedAssets document = finished := by rw [finishedAssets, htop]
  have hreference := referencedAsset?_finishAssets horder (layer.get "refId")
  rw [← hassets] at hreference
  rw [ExpandsTo] at hexpands
  cases hfound : referencedAsset? (document.get "assets").items (layer.get "refId") with
  | none =>
      rw [hfound] at hreference hexpands
      dsimp only at hexpands
      subst hexpands
      refine ⟨fun _ _ h => ?_, fun _ _ h => ?_, fun _ => hexpansion⟩
      · rw [hreference] at h
        cases h
      · rw [hreference] at h
        cases h
  | some found =>
      rw [hfound] at hreference hexpands
      dsimp only at hexpands
      refine ⟨fun position layers h hcut => ?_, fun position layers h hcut => ?_, fun h => ?_⟩
      · rw [hreference] at h
        cases h
        rw [IsCut, hfinished] at hcut
        rcases hexpands with hlookup | ⟨hlookup, -, -⟩
        · -- what was known before the owner is what the document holds in the end
          have hknown := horder.lookup_of_suffix (finishedBefore_suffix _ _) hlookup
          rw [hexpansion, hknown, Option.getD_some]
        · exact absurd hlookup hcut
      · rw [hreference] at h
        cases h
        rw [IsCut, hfinished] at hcut
        rcases hexpands with hlookup | ⟨-, hleads, hempty⟩
        · rw [hlookup] at hcut
          cases hcut
        · exact ⟨by rw [hexpansion, hempty], hleads⟩
      · rw [hreference] at h
        cases h

/-- Where no asset uses itself, the layers at the top of a completed document are those
that completing with fresh copies gives, for any number of levels above that of the
assets. -/
theorem freshLayers_top {document result : Members R}
    (returned : (completeDocument document).outcome = .ok result)
    (acyclic : Acyclic (document.get "assets").items) {levels : Nat}
    (hlevels : (document.get "assets").items.length < levels) :
    freshLayers (document.get "assets").items levels (document.get "layers").items =
      .ok (result.get "layers").items := by
  obtain ⟨layers, finished, htop, hlayers, -⟩ := members_completeDocument returned
  obtain ⟨horder, hcompleted⟩ := completed_top htop
  obtain ⟨fewer, rfl⟩ : ∃ fewer, levels = fewer + 1 :=
    Nat.exists_eq_succ_of_ne_zero (Nat.ne_zero_of_lt hlevels)
  rw [hlayers]
  refine freshLayers_of_completed hcompleted ?_ ?_
  · intro reference expansion hmissing hexpands
    simpa [ExpandsTo, hmissing] using hexpands
  · intro reference expansion position source _ hasset hexpands
    have hsource := assetLayers?_of_referencedAsset? hasset
    have hfewer := card_descendants_lt_bound acyclic (lt_length_of_assetLayers? hsource)
    simp only [ExpandsTo, hasset] at hexpands
    rcases hexpands with hlookup | ⟨-, ⟨owner, howner, -⟩, -⟩
    · exact freshLayers_of_finished acyclic horder hlookup hsource (by omega)
    · cases howner

/-- A document with its older encodings migrated and its layers not yet completed. -/
def encodedMembers (value : Value R) : Except Fault (Members R) := do
  let members ← documentMembers value
  (migrateEncodings (Version.ofValue (members.get "v")) members).outcome

/-- Migrating a document completes the one with its encodings migrated. -/
theorem completeDocument_of_migrate {value : Value R} {document : MigratedDocument R}
    (returned : (migrate value).outcome = .ok document) :
    ∃ encoded, encodedMembers value = .ok encoded ∧
      (completeDocument encoded).outcome = .ok document.members := by
  obtain ⟨members, encoded, hmembers, hversion, hencoded, hcompleted⟩ := migrate_eq_ok.mp returned
  rw [hversion] at hencoded
  exact ⟨encoded, bind_eq_ok.mpr ⟨members, hmembers, hencoded⟩, hcompleted⟩

/-- **Sharing does not show.**  In a migrated document every precomposition that is
reached from the top and not cut has the layers that the document holds for its asset;
and where no asset uses itself, the layers at the top are those that completing with a
fresh copy for every use gives. -/
theorem migrate_expands_without_trace_of_sharing {value : Value R}
    {document : MigratedDocument R} (returned : (migrate value).outcome = .ok document) :
    ∃ encoded, encodedMembers value = .ok encoded ∧
      (∀ owner? layer, Reached document.members owner? layer → isPrecomp layer = true →
        ExpandedAsShared encoded document.members owner? layer) ∧
      (Acyclic (encoded.get "assets").items →
        ∀ levels, (encoded.get "assets").items.length < levels →
          freshLayers (encoded.get "assets").items levels (encoded.get "layers").items =
            .ok document.layers) := by
  obtain ⟨encoded, hencoded, hcompleted⟩ := completeDocument_of_migrate returned
  refine ⟨encoded, hencoded, fun owner? layer reached precomp => ?_, fun acyclic levels h => ?_⟩
  · exact expandedAsShared_of_reached hcompleted reached precomp
  · exact freshLayers_top hcompleted acyclic h

/-! ## Sharing at work -/

/-- A precomposition with further members. -/
def precompOf (reference : String) (more : Members Float) : Value Float :=
  .object ([("ty", .text "precomp"), ("ks", .null), ("refId", .text reference)] ++ more)

/-- An asset with layers. -/
def assetOf (id : String) (layers : List (Value Float)) : Value Float :=
  .object [("id", .text id), ("layers", .list layers)]

/-- A layer that asks for a matte. -/
def mattedLayer : Value Float := .object [("ty", .text "null"), ("ks", .null), ("tt", .bool true)]

/-- The assets of a document in which one asset uses another. -/
def nestedAssets : List (Value Float) :=
  [assetOf "outer" [precompOf "inner" []], assetOf "inner" [.object [], mattedLayer]]

/-- A document that uses one asset below another and again at the top. -/
def nestedUse : Members Float :=
  [("layers", .list [precompOf "outer" [], precompOf "inner" []]), ("assets", .list nestedAssets)]

/-- The layers of the inner asset once they are completed. -/
def innerLayers : List (Value Float) := [.object [("td", .bool true)], mattedLayer]

/-- The layer of the outer asset once it is completed. -/
def outerLayer : Members Float :=
  [("ty", .text "precomp"), ("ks", .null), ("refId", .text "inner"), ("layers", .list innerLayers)]

/-- The document migrated. -/
def nestedMigrated : Members Float :=
  [("layers", .list [precompOf "outer" [("layers", .list [.object outerLayer])],
      precompOf "inner" [("layers", .list innerLayers)]]),
    ("assets", .list [assetOf "outer" [.object outerLayer], assetOf "inner" innerLayers])]

theorem uses_nestedAssets {user used : Nat} (uses : Uses nestedAssets user used) :
    user < used := by
  obtain ⟨layers, _, _, hlayers, ⟨members, hmem, completable, precomp, rfl⟩, hasset⟩ := uses
  match user with
  | 0 =>
      cases hlayers
      cases List.mem_singleton.mp hmem
      cases hasset
      exact Nat.zero_lt_one
  | 1 =>
      cases hlayers
      rcases List.mem_pair.mp hmem with h | h
      · cases h
        cases completable
      · cases h
        cases precomp
  | user + 2 => cases hlayers

theorem acyclic_nestedAssets : Acyclic nestedAssets := by
  intro position cycle
  have hlt : ∀ {other}, TransGen (Uses nestedAssets) position other → position < other := by
    intro other leads
    induction leads with
    | single uses => exact uses_nestedAssets uses
    | tail _ uses ih => exact ih.trans (uses_nestedAssets uses)
  exact lt_irrefl _ (hlt cycle)

theorem migrate_nestedUse :
    (migrate (.object nestedUse)).outcome = .ok ⟨nestedMigrated, .unknown⟩ ∧
      Reached nestedMigrated (some 0) outerLayer ∧
      outerLayer.get "layers" = .list innerLayers ∧
      freshLayers nestedAssets 3 (nestedUse.get "layers").items =
        .ok (nestedMigrated.get "layers").items := by
  have returned : (migrate (.object nestedUse)).outcome = .ok ⟨nestedMigrated, .unknown⟩ := rfl
  obtain ⟨encoded, hencoded, hexpanded, hfresh⟩ :=
    migrate_expands_without_trace_of_sharing returned
  obtain rfl : nestedUse = encoded := Except.ok.inj hencoded
  have reached : Reached nestedMigrated (some 0) outerLayer :=
    .nested (.top List.mem_cons_self rfl) rfl rfl List.mem_cons_self rfl
  refine ⟨returned, reached, ?_, hfresh acyclic_nestedAssets 3 (by decide)⟩
  exact (hexpanded _ _ reached rfl).shared 1 innerLayers rfl nofun

end MotionScene
