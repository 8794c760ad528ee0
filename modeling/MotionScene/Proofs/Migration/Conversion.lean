import MotionScene.Proofs.Migration.Encodings
import MotionScene.Proofs.Migration.Nesting

/-!
# Every path is converted once

An expansion ends: along a chain of precompositions within each other no asset is expanded
twice (`ConvertsOnce.apart`), because the layers within an expanded asset were completed
before that asset was finished.  And however often an asset is used, what the migrated
document shows of it was completed exactly once (`migrate_converts_once`): the handles of
its paths have their vertices added once where the layer has a transform, and are what they
were where it has none or where the asset is not used.
-/

namespace MotionScene

variable {R : Type} [Scalar R]

/-! ## Documents -/

/-- A chain of layers in a document, each within the one before it and with layers within
it. -/
structure ExpansionChain (document : Members R) (chain : List (Members R)) : Prop where
  first : ∀ layer ∈ chain.head?, layer ∈ layersOf document
  nested : chain.IsChain fun outer inner => .object inner ∈ layersWithin outer
  expanded : ∀ layer ∈ chain, layersWithin layer ≠ []

omit [Scalar R] in
theorem mem_filterMap_members? {layer : Members R} {items : List (Value R)} :
    layer ∈ items.filterMap Value.members? ↔ .object layer ∈ items := by
  rw [List.mem_filterMap]
  constructor
  · rintro ⟨value, hvalue, hmembers⟩
    cases value with
    | object members =>
        cases hmembers
        exact hvalue
    | _ => cases hmembers
  · exact fun h => ⟨.object layer, h, rfl⟩

omit [Scalar R] in
/-- The layers of a document stand at the top or in an asset. -/
theorem mem_layersOf {document layer : Members R} :
    layer ∈ layersOf document ↔ .object layer ∈ (document.get "layers").items ∨
      ∃ position layers, assetLayers? (document.get "assets").items position = some layers ∧
        .object layer ∈ layers := by
  rw [layersOf, List.flatMap_cons, List.mem_append, mem_filterMap_members?, List.flatMap_map,
    List.mem_flatMap]
  refine or_congr_right ⟨?_, ?_⟩
  · rintro ⟨asset, hasset, hmem⟩
    rw [mem_filterMap_members?] at hmem
    obtain ⟨position, hposition⟩ := List.getElem?_of_mem hasset
    cases hlayers : (asset.members.get "layers").items? with
    | none =>
        rw [Value.items, hlayers] at hmem
        cases hmem
    | some layers =>
        rw [Value.items, hlayers] at hmem
        exact ⟨position, layers, Option.bind_eq_some_iff.mpr ⟨asset, hposition, hlayers⟩, hmem⟩
  · rintro ⟨position, layers, hlayers, hmem⟩
    obtain ⟨asset, hasset, hitems⟩ := Option.bind_eq_some_iff.mp hlayers
    refine ⟨asset, List.mem_of_getElem? hasset, mem_filterMap_members?.mpr ?_⟩
    rwa [Value.items, hitems]

section Completed

variable {document result : Members R} {layers : List (Value R)} {finished : Finished R}
  (htop : (completeTop document).outcome = .ok (layers, finished))
  (hlayers : result.get "layers" = .list layers)
  (hassets : (result.get "assets").items = finishAssets finished (document.get "assets").items)
  (plain : ∀ layer ∈ layersOf document, layersWithin layer = [])

include plain

omit [Scalar R] in
theorem unnested_assets (position : Nat) (source : List (Value R))
    (hsource : assetLayers? (document.get "assets").items position = some source) :
    Unnested source :=
  fun layer hmem => plain layer (mem_layersOf.mpr (.inr ⟨position, source, hsource, hmem⟩))

include htop hlayers hassets

/-- A layer with layers within it stands in a list that was completed. -/
theorem completed_around_expanded {layer : Members R} (hmem : layer ∈ layersOf result)
    (expanded : layersWithin layer ≠ []) :
    ∃ cut known sources list, known <:+ finished ∧ Unnested sources ∧ .object layer ∈ list ∧
      Completed (ExpandsTo (document.get "assets").items cut known) sources list := by
  obtain ⟨horder, hcompleted⟩ := completed_top htop
  rcases mem_layersOf.mp hmem with hmem | ⟨owner, list, hlist, hmem⟩
  · rw [hlayers] at hmem
    exact ⟨_, finished, _, layers, List.suffix_refl _,
      fun layer hlayer => plain layer (mem_layersOf.mpr (.inl hlayer)), hmem, hcompleted⟩
  · rw [hassets, assetLayers?_finishAssets horder] at hlist
    obtain ⟨source, hsource, hlist⟩ := Option.map_eq_some_iff.mp hlist
    have hplain := unnested_assets plain owner source hsource
    cases hlookup : finished.lookup owner with
    | none =>
        rw [hlookup] at hlist
        cases hlist
        exact absurd (hplain layer hmem) expanded
    | some own =>
        rw [hlookup] at hlist
        cases hlist
        exact ⟨_, _, source, own, finishedBefore_suffix _ _, hplain, hmem,
          horder.completed_from hlookup hsource⟩

/-- The layers of a chain name different assets. -/
theorem positions_of_expansionChain {chain : List (Members R)}
    (hchain : ExpansionChain result chain) :
    ∃ positions : List Nat, (chain.map fun layer =>
        assetPosition? (document.get "assets").items (layer.get "refId")) = positions.map some ∧
      positions.Nodup ∧
      ∀ position ∈ positions, position < (document.get "assets").items.length := by
  cases chain with
  | nil => exact ⟨[], rfl, List.nodup_nil, by simp⟩
  | cons outer chain =>
      obtain ⟨hfirst, hnested, hexpanded⟩ := hchain
      obtain ⟨horder, -⟩ := completed_top htop
      obtain ⟨cut, known, sources, list, hsuffix, hsources, hmem, hcompleted⟩ :=
        completed_around_expanded htop hlayers hassets plain (hfirst outer rfl)
          (hexpanded outer List.mem_cons_self)
      obtain ⟨positions, hmap, hnodup, hknown⟩ := positions_of_chain (unnested_assets plain)
        (horder.of_suffix hsuffix) hcompleted hsources
        (fun layer hlayer => by cases hlayer; exact hmem) hnested hexpanded
      refine ⟨positions, hmap, hnodup, fun position hposition => ?_⟩
      -- what is known has layers, and only assets have
      obtain ⟨own, hown⟩ := Option.isSome_iff_exists.mp (hknown position hposition)
      obtain ⟨source, hsource⟩ := (horder.of_suffix hsuffix).exists_source hown
      exact lt_length_of_assetLayers? hsource

end Completed

/-- What migration makes of a document whose layers have no layers within them: no chain of
nested expansions uses an asset twice, and every layer it shows is the one that the
references of the given document lead to, with its beziers converted once if it has a
transform. -/
structure ConvertsOnce (input output : Members R) : Prop where
  apart : ∀ chain, ExpansionChain output chain → (chain.map fun layer =>
    assetPosition? (input.get "assets").items (layer.get "refId")).Nodup
  different : ∀ chain, ExpansionChain output chain → (chain.map (·.get "refId")).Nodup
  short : ∀ chain, ExpansionChain output chain →
    chain.length ≤ (input.get "assets").items.length
  shown : ShownFor (input.get "assets").items (input.get "layers").items
    (output.get "layers").items
  used : ∀ position sources, IsUsed input position →
    assetLayers? (input.get "assets").items position = some sources →
    ∃ layers, assetLayers? (output.get "assets").items position = some layers ∧
      ShownFor (input.get "assets").items sources layers
  unused : ∀ position sources, ¬ IsUsed input position →
    assetLayers? (input.get "assets").items position = some sources →
    ∃ layers, assetLayers? (output.get "assets").items position = some layers ∧
      List.Forall₂ (OnMembers Alike) sources layers

theorem convertsOnce_completeDocument {document result : Members R}
    (returned : (completeDocument document).outcome = .ok result)
    (plain : ∀ layer ∈ layersOf document, layersWithin layer = []) :
    ConvertsOnce document result := by
  obtain ⟨layers, finished, htop, hlayers, hassets⟩ := members_completeDocument returned
  obtain ⟨horder, hcompleted⟩ := completed_top htop
  have hpositions : ∀ chain, ExpansionChain result chain → _ :=
    fun _ => positions_of_expansionChain htop hlayers hassets plain
  have hapart : ∀ chain, ExpansionChain result chain → (chain.map fun layer =>
      assetPosition? (document.get "assets").items (layer.get "refId")).Nodup := by
    intro chain hchain
    obtain ⟨positions, hmap, hnodup, -⟩ := hpositions chain hchain
    rw [hmap]
    exact hnodup.map (Option.some_injective _)
  have houtput : ∀ position source,
      assetLayers? (document.get "assets").items position = some source →
      assetLayers? (result.get "assets").items position =
        some ((finished.lookup position).getD source) := by
    intro position source hsource
    rw [hassets, assetLayers?_finishAssets horder, hsource, Option.map_some]
  refine ⟨hapart, fun chain hchain => ?_, fun chain hchain => ?_, ?_,
    fun position source hused hsource => ?_, fun position source hunused hsource => ?_⟩
  · -- layers with the same reference would name the same asset
    refine List.Nodup.of_map (assetPosition? (document.get "assets").items) ?_
    rw [List.map_map]
    exact hapart chain hchain
  · obtain ⟨positions, hmap, hnodup, hbounded⟩ := hpositions chain hchain
    calc chain.length
        = positions.length := by simpa using congrArg List.length hmap
      _ ≤ (List.range (document.get "assets").items.length).length :=
        hnodup.length_le_of_subset fun position hposition =>
          List.mem_range.mpr (hbounded position hposition)
      _ = (document.get "assets").items.length := List.length_range
  · rw [hlayers]
    exact hcompleted.shownFor (unnested_assets plain) horder
      fun layer hmem => plain layer (mem_layersOf.mpr (.inl hmem))
  · obtain ⟨own, hown⟩ := Option.isSome_iff_exists.mp ((finished_iff_used htop position).mpr hused)
    refine ⟨own, by rw [houtput position source hsource, hown]; rfl, ?_⟩
    exact (horder.completed_from hown hsource).shownFor (unnested_assets plain)
      (horder.of_suffix (finishedBefore_suffix _ _)) (unnested_assets plain position source hsource)
  · have hnone : finished.lookup position = none := by
      rw [← Option.not_isSome_iff_eq_none, finished_iff_used htop]
      exact hunused
    exact ⟨source, by rw [houtput position source hsource, hnone]; rfl, List.forall₂_refl _⟩

theorem forall₂_layersReferred {assets others : List (Value R)}
    (alike : List.Forall₂ (OnMembers AlikeAsset) assets others) {layer other : Members R}
    (hlayer : Alike layer other) : List.Forall₂ (OnMembers Alike) (layersReferred assets layer)
      (layersReferred others other) := by
  rw [layersReferred, layersReferred, hlayer.isCompletable, hlayer.isPrecomp,
    hlayer.get (by decide)]
  split
  · have hrel := rel_referencedAsset? alike (layer.get "refId")
    generalize referencedAsset? assets (layer.get "refId") = found? at hrel ⊢
    generalize referencedAsset? others (layer.get "refId") = other? at hrel ⊢
    cases hrel with
    | some hfound => exact hfound.2
    | none => exact .nil
  · exact .nil

theorem ShownFor.of_alike {assets others sources own layers : List (Value R)}
    (hassets : List.Forall₂ (OnMembers AlikeAsset) assets others)
    (alike : List.Forall₂ (OnMembers Alike) sources own) (shown : ShownFor others own layers) :
    ShownFor assets sources layers := by
  refine ⟨shown.length.trans alike.length_eq.symm, fun place index layer hlayer => ?_⟩
  obtain ⟨source, hsource, hmigrated⟩ := shown.migrated place index layer hlayer
  have hrel := rel_layerAt? (fun _ _ => forall₂_layersReferred hassets) alike place index
  obtain ⟨first, hfirst, hlike⟩ := exists_of_rel_right hrel hsource
  exact ⟨first, hfirst, hmigrated.of_alike hlike⟩

/-- Documents that are alike are converted alike. -/
theorem ConvertsOnce.of_alike {first second output : Members R}
    (alike : AlikeDocuments first second) (converts : ConvertsOnce second output) :
    ConvertsOnce first output := by
  have hassets := alike.assets.items
  refine ⟨fun chain hchain => ?_, converts.different, fun chain hchain => ?_,
    converts.shown.of_alike hassets alike.layers.items,
    fun position sources hused hsources => ?_, fun position sources hunused hsources => ?_⟩
  · simpa only [assetPosition?_of_alike hassets] using converts.apart chain hchain
  · exact hassets.length_eq ▸ converts.short chain hchain
  · obtain ⟨own, hown, hlike⟩ := exists_of_rel_left (rel_assetLayers? hassets position) hsources
    obtain ⟨layers, hlayers, hshown⟩ :=
      converts.used position own ((isUsed_iff alike position).mpr hused) hown
    exact ⟨layers, hlayers, hshown.of_alike hassets hlike⟩
  · obtain ⟨own, hown, hlike⟩ := exists_of_rel_left (rel_assetLayers? hassets position) hsources
    obtain ⟨layers, hlayers, hkept⟩ :=
      converts.unused position own (fun h => hunused ((isUsed_iff alike position).mp h)) hown
    exact ⟨layers, hlayers, forall₂_comp IsTrans.trans hlike hkept⟩

/-- Layers without layers within them stay so in a document that is alike. -/
theorem unnested_of_alike {first second : Members R} (alike : AlikeDocuments first second)
    (plain : ∀ layer ∈ layersOf first, layersWithin layer = []) :
    ∀ layer ∈ layersOf second, layersWithin layer = [] := by
  intro layer hlayer
  have hback : ∃ own ∈ layersOf first, Alike own layer := by
    rcases mem_layersOf.mp hlayer with hmem | ⟨position, layers, hlayers, hmem⟩
    · obtain ⟨_, hvalue, hlike⟩ := exists_of_mem_right alike.layers.items hmem
      obtain ⟨own, rfl, hown⟩ := hlike.exists_object
      exact ⟨own, mem_layersOf.mpr (.inl hvalue), hown⟩
    · obtain ⟨sources, hsources, hrel⟩ :=
        exists_of_rel_right (rel_assetLayers? alike.assets.items position) hlayers
      obtain ⟨_, hvalue, hlike⟩ := exists_of_mem_right hrel hmem
      obtain ⟨own, rfl, hown⟩ := hlike.exists_object
      exact ⟨own, mem_layersOf.mpr (.inr ⟨position, sources, hsources, hvalue⟩), hown⟩
  obtain ⟨own, hown, hlike⟩ := hback
  rw [layersWithin, hlike.get (by decide)]
  exact plain own hown

/-- **Every path is converted once, and every expansion ends.**  For a document whose layers
have no layers within them, migration nests no asset within itself at any depth; what it
shows of each layer with a transform, at the top and within precompositions, has the
vertices added to the handles of its paths exactly once; and the paths of layers without a
transform and of assets that are not used keep their handles. -/
theorem migrate_converts_once {input : Members R} {document : MigratedDocument R}
    (returned : (migrate (.object input)).outcome = .ok document)
    (plain : ∀ layer ∈ layersOf input, layersWithin layer = []) :
    ConvertsOnce input document.members := by
  obtain ⟨encoded, hencoded, hcompleted⟩ := completeDocument_of_migrate returned
  obtain ⟨members, hmembers, hreturned⟩ := bind_eq_ok.mp hencoded
  obtain rfl : input = members := by
    rw [documentMembers] at hmembers
    split at hmembers
    · exact Except.ok.inj hmembers
    · cases hmembers
  have alike := alike_migrateEncodings hreturned
  exact .of_alike alike (convertsOnce_completeDocument hcompleted (unnested_of_alike alike plain))

/-! ## Assets that use each other -/

/-- A point with whole coordinates. -/
def wholePoint (x y : Int) : Value Float :=
  .list [.num (.whole x), .num (.whole y)]

/-- A bezier with one vertex and a handle on each side of it. -/
def singleVertex (incoming outgoing : Value Float) : Members Float :=
  [("v", .list [wholePoint 5 7]), ("i", .list [incoming]), ("o", .list [outgoing])]

/-- A shape layer with one bezier inside a group. -/
def groupedPath (bezier : Members Float) : Members Float :=
  [("ty", .text "shape"), ("ks", .null), ("shapes", .list [.object [("ty", .text "gr"),
    ("it", .list [.object [("ty", .text "sh"), ("ks", .object [("k", .object bezier)])]])]])]

/-- The path as it is given, with handles relative to the vertex. -/
def relativePath : Members Float :=
  groupedPath (singleVertex (wholePoint 1 (-2)) (wholePoint 0 3))

/-- The path as it is shown, with absolute handles. -/
def absolutePath : Members Float :=
  groupedPath (singleVertex (wholePoint 6 5) (wholePoint 5 10))

/-- Two assets that use each other, one of them with a path. -/
def knottedAssets : List (Value Float) :=
  [assetOf "first" [precompOf "second" [], .object relativePath],
    assetOf "second" [precompOf "first" []]]

/-- A document that uses both. -/
def knottedUse : Members Float :=
  [("layers", .list [precompOf "first" [], precompOf "second" []]),
    ("assets", .list knottedAssets)]

/-- A precomposition with layers within it. -/
def expandedOf (reference : String) (layers : List (Value Float)) : Members Float :=
  [("ty", .text "precomp"), ("ks", .null), ("refId", .text reference), ("layers", .list layers)]

/-- The layer of the second asset once it is completed: the first one is being completed then,
so its use is cut. -/
def cutLayer : Value Float := .object (expandedOf "first" [])

/-- A use of the second asset. -/
def secondUse : Members Float := expandedOf "second" [cutLayer]

/-- A use of the first asset. -/
def firstUse : Members Float := expandedOf "first" [.object secondUse, .object absolutePath]

/-- The document migrated. -/
def knottedMigrated : Members Float :=
  [("layers", .list [.object firstUse, .object secondUse]),
    ("assets", .list [assetOf "first" [.object secondUse, .object absolutePath],
      assetOf "second" [cutLayer]])]

theorem plain_knottedUse : ∀ layer ∈ layersOf knottedUse, layersWithin layer = [] := by
  intro layer hlayer
  rcases mem_layersOf.mp hlayer with hmem | ⟨position, layers, hlayers, hmem⟩
  · rcases List.mem_pair.mp hmem with h | h <;> cases h <;> rfl
  · match position with
    | 0 =>
        cases hlayers
        rcases List.mem_pair.mp hmem with h | h <;> cases h <;> rfl
    | 1 =>
        cases hlayers
        cases List.mem_singleton.mp hmem
        rfl
    | position + 2 => cases hlayers

theorem migrate_knottedUse :
    (migrate (.object knottedUse)).outcome = .ok ⟨knottedMigrated, .unknown⟩ ∧
      ExpansionChain knottedMigrated [firstUse, secondUse] ∧
      ([firstUse, secondUse].map (·.get "refId")).Nodup ∧
      layerAt? layersWithin (knottedMigrated.get "layers").items [0] 1 = some absolutePath ∧
      Migrated relativePath absolutePath := by
  have returned : (migrate (.object knottedUse)).outcome = .ok ⟨knottedMigrated, .unknown⟩ := rfl
  have converts := migrate_converts_once returned plain_knottedUse
  have hchain : ExpansionChain knottedMigrated [firstUse, secondUse] := by
    refine ⟨fun layer hlayer => ?_, .cons_cons List.mem_cons_self (.singleton _), ?_⟩
    · cases hlayer
      exact List.mem_cons_self
    · intro layer hlayer
      rcases List.mem_pair.mp hlayer with rfl | rfl <;> nofun
  obtain ⟨source, hsource, hmigrated⟩ := converts.shown.migrated [0] 1 absolutePath rfl
  obtain rfl : relativePath = source := Option.some.inj hsource
  exact ⟨returned, hchain, converts.different _ hchain, rfl, hmigrated⟩

end MotionScene
