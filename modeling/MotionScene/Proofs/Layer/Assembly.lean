import MotionScene.Proofs.Layer.Building
import MotionScene.Proofs.Layer.Tree

/-!
# Layer lists keep their layers

Assembling a layer list builds its layers one by one and moves some of them into others.
However the parent links run, nothing is lost or doubled on the way
(`assembleLayers_keeps_every_layer`): the elements are those of trees in which every layer
that was built stands once, no layer stands below itself, and layers that stand together
stand in reverse order, behind what was there before.
-/

namespace MotionScene

open LayerTree

variable {R : Type} [Scalar R] {clock : Clock R}

/-- What the layer at an index of a list is built into, if it leaves an element. -/
def builtAt (clock : Clock R) (items : List (Value R)) (index : Nat) : Option (Pivoted R) :=
  items[index]?.bind fun layer => (buildLayer clock layer).outcome.toOption.join

/-! ## Built layers -/

/-- The layer at an index of a list is registered behind those built before it. -/
def RegisteredAt (items : List (Value R)) (index : Nat) (before : List (BuiltLayer R))
    (layer : BuiltLayer R) : Prop :=
  ∃ members, items[index]? = some (.object members) ∧
    (register before layer.pivoted members).outcome = .ok layer

/-- The indices of the layers that leave an element, last one first. -/
structure BuiltFrom (clock : Clock R) (items : List (Value R)) (indices : List Nat)
    (layers : List (BuiltLayer R)) : Prop where
  built : List.Forall₂ (fun index layer => builtAt clock items index = some layer.pivoted)
    indices layers
  falling : indices.Pairwise (· > ·)
  complete : ∀ index, (builtAt clock items index).isSome → index ∈ indices
  registered : ∀ {place index layer}, indices[place]? = some index → layers[place]? = some layer →
    RegisteredAt items index (layers.take place) layer

theorem BuiltFrom.skip {item : Value R} {items : List (Value R)} {indices : List Nat}
    {layers : List (BuiltLayer R)} (known : BuiltFrom clock items indices layers)
    (skipped : builtAt clock (item :: items) 0 = none) :
    BuiltFrom clock (item :: items) (indices.map (· + 1)) layers where
  built := List.forall₂_map_left_iff.mpr known.built
  falling := known.falling.map _ fun _ _ h => Nat.succ_lt_succ h
  complete := by
    intro index h
    cases index with
    | zero => simp [skipped] at h
    | succ index => exact List.mem_map_of_mem (known.complete index h)
  registered := by
    intro place index layer hindex hlayer
    rw [List.getElem?_map] at hindex
    obtain ⟨later, hlater, rfl⟩ := Option.map_eq_some_iff.mp hindex
    exact known.registered hlater hlayer

theorem BuiltFrom.add {item : Value R} {items : List (Value R)} {indices : List Nat}
    {layers : List (BuiltLayer R)} (known : BuiltFrom clock items indices layers)
    {layer : BuiltLayer R} (left : builtAt clock (item :: items) 0 = some layer.pivoted)
    (registered : RegisteredAt (item :: items) 0 layers layer) :
    BuiltFrom clock (item :: items) (indices.map (· + 1) ++ [0]) (layers ++ [layer]) where
  built := List.rel_append (List.forall₂_map_left_iff.mpr known.built) (.cons left .nil)
  falling := by
    refine List.pairwise_append.mpr ⟨?_, List.pairwise_singleton _ _, ?_⟩
    · exact known.falling.map _ fun _ _ h => Nat.succ_lt_succ h
    · intro index hindex first hfirst
      obtain ⟨later, -, rfl⟩ := List.mem_map.mp hindex
      rw [List.mem_singleton.mp hfirst]
      exact Nat.succ_pos later
  complete := by
    intro index h
    cases index with
    | zero => exact List.mem_append_right _ (List.mem_singleton_self 0)
    | succ index =>
        exact List.mem_append_left _ (List.mem_map_of_mem (known.complete index h))
  registered := by
    intro place index last hindex hlast
    rcases Nat.lt_trichotomy place layers.length with hlt | rfl | hlt
    · rw [List.getElem?_append_left hlt] at hlast
      rw [List.getElem?_append_left (by simpa [known.built.length_eq] using hlt),
        List.getElem?_map] at hindex
      obtain ⟨later, hlater, rfl⟩ := Option.map_eq_some_iff.mp hindex
      rw [List.take_append_of_le_length hlt.le]
      exact known.registered hlater hlast
    · have hzero : index = 0 := by simpa [known.built.length_eq] using hindex.symm
      have hsame : last = layer := by simpa using hlast.symm
      subst hzero hsame
      simpa using registered
    · rw [List.getElem?_eq_none (by simpa using Nat.succ_le_of_lt hlt)] at hlast
      cases hlast

/-- The induction is on the list; the layers behind one are built before it. -/
theorem builtFrom_buildLayers {items : List (Value R)} {layers : List (BuiltLayer R)}
    (returned : (buildLayers clock items).outcome = .ok layers) :
    ∃ indices, BuiltFrom clock items indices layers := by
  induction items generalizing layers with
  | nil =>
      rw [buildLayers] at returned
      cases returned
      exact ⟨[], .nil, .nil, (fun _ h => by cases h), (fun h => by cases h)⟩
  | cons item items ih =>
      obtain ⟨before, hbefore, hstep⟩ := buildStep_of_buildLayers returned
      obtain ⟨indices, hindices⟩ := ih hbefore
      cases hstep with
      | skip nothing => exact ⟨_, hindices.skip nothing⟩
      | @add members layer hitem built registered =>
          subst hitem
          refine ⟨_, hindices.add ?_ ⟨members, rfl, registered⟩⟩
          show (buildLayer clock (.object members)).outcome.toOption.join = _
          rw [buildLayer, built]
          rfl

/-- Every layer that leaves an element can take other layers in. -/
theorem exists_children_of_builtAt {items : List (Value R)} {index : Nat} {pivoted : Pivoted R}
    (h : builtAt clock items index = some pivoted) :
    ∃ content, pivoted.inner.children? = some content := by
  obtain ⟨layer, -, hjoin⟩ := Option.bind_eq_some_iff.mp h
  have hbuilt : (buildLayer clock layer).outcome = .ok (some pivoted) := by
    cases houtcome : (buildLayer clock layer).outcome with
    | error fault => simp [houtcome, Except.toOption] at hjoin
    | ok left? => simpa [houtcome, Except.toOption] using hjoin
  cases layer with
  | object members =>
      obtain ⟨children, -, hfinished⟩ := exists_content hbuilt
      exact ⟨children, children?_finishLayer hfinished⟩
  | _ => cases hbuilt

/-! ## Every layer is kept -/

/-- What holds of a layer of a list with the layers that moved into it: its element is the
one it was built into, it is not below itself, and the moved layers stand in reverse order
behind the content of the element that takes them in. -/
structure Assembled (clock : Clock R) (items : List (Value R)) (tree : LayerTree R) : Prop where
  built : builtAt clock items tree.layer = some tree.built
  notBelow : tree.layer ∉ indicesOf tree.moved
  falling : (tree.moved.map layer).Pairwise (· > ·)
  behind : ∃ content, tree.built.inner.children? = some content ∧
    tree.grown.inner.children? = some (content ++ elements tree.moved)

theorem BuiltFrom.falling_getD {items : List (Value R)} {indices : List Nat}
    {layers : List (BuiltLayer R)} (known : BuiltFrom clock items indices layers) :
    FallingNames (indices.getD · 0) layers.length := by
  intro place later hlt hlater
  rw [← known.built.length_eq] at hlater
  have hplace := hlt.trans hlater
  have hfalling := List.pairwise_iff_getElem.mp known.falling place later hplace hlater hlt
  simpa [List.getD_eq_getElem?_getD, hplace, hlater] using hfalling

theorem BuiltFrom.builtAt_getD {items : List (Value R)} {indices : List Nat}
    {layers : List (BuiltLayer R)} (known : BuiltFrom clock items indices layers) {place : Nat}
    {layer : BuiltLayer R} (h : layers[place]? = some layer) :
    builtAt clock items (indices.getD place 0) = some layer.pivoted := by
  obtain ⟨hlt, rfl⟩ := List.getElem?_eq_some_iff.mp h
  have hplace : place < indices.length := known.built.length_eq ▸ hlt
  have hbuilt := List.Forall₂.get known.built hplace hlt
  simpa [List.getD_eq_getElem?_getD, hplace] using hbuilt

theorem BuiltFrom.count {items : List (Value R)} {indices : List Nat}
    {layers : List (BuiltLayer R)} (known : BuiltFrom clock items indices layers) (index : Nat) :
    indices.count index = if (builtAt clock items index).isSome then 1 else 0 := by
  have hnodup : indices.Nodup := known.falling.imp fun h => Nat.ne_of_gt h
  split
  · rename_i hsome
    exact List.count_eq_one_of_mem hnodup (known.complete index hsome)
  · rename_i hnone
    refine List.count_eq_zero_of_not_mem fun hmem => hnone ?_
    obtain ⟨layer, -, hbuilt⟩ := exists_of_mem_right known.built.flip hmem
    rw [hbuilt]
    rfl

/-- **Layer lists keep their layers.**  The elements of a layer list are those of a forest
in which every layer that leaves an element stands once and the others do not; layers that
stand together, at the top or below one layer, stand in reverse order. -/
theorem assembleLayers_keeps_every_layer {items : List (Value R)} {elements : List (Element R)}
    (returned : (assembleLayers clock (.list items)).outcome = .ok elements) :
    ∃ forest, elements = LayerTree.elements forest ∧
      (∀ index, (indicesOf forest).count index =
        if (builtAt clock items index).isSome then 1 else 0) ∧
      (forest.map layer).Pairwise (· > ·) ∧
      ∀ tree ∈ allOf forest, Assembled clock items tree := by
  rw [assembleLayers] at returned
  obtain ⟨layers, hlayers, hplace⟩ := Traced.outcome_bind_eq_ok.mp returned
  obtain ⟨placed, hplaced, hgrown⟩ := Traced.outcome_bind_eq_ok.mp hplace
  cases hgrown
  obtain ⟨indices, hindices⟩ := builtFrom_buildLayers hlayers
  obtain ⟨well, hpivoted⟩ := wellPlaced_of_placeAll hplaced
  have hlength : placed.length = layers.length := by
    rw [← List.length_map (f := (·.pivoted)), hpivoted, List.length_map]
  have falling : FallingNames (indices.getD · 0) placed.length :=
    hlength ▸ hindices.falling_getD
  -- the trees call a layer by its index in the list, not by its place
  refine ⟨growTrees (indices.getD · 0) placed, elements_growTrees.symm, fun index => ?_,
    pairwise_growTrees well falling, fun tree htree => ?_⟩
  · have hnames : (List.range placed.length).map (indices.getD · 0) = indices := by
      rw [hlength, ← hindices.built.length_eq]
      refine List.ext_getElem (by simp) fun place hplace hplace' => ?_
      simp [List.getD_eq_getElem?_getD, hplace']
    rw [(indicesOf_growTrees_perm well).count_eq, hnames, hindices.count]
  · obtain ⟨depth, layer, hlayer, rfl⟩ := exists_of_mem_allOf htree
    have hbuilt : builtAt clock items (indices.getD layer.place 0) = some layer.pivoted := by
      -- placing leaves what a layer was built into alone
      have hsame : layers[layer.place]?.map (·.pivoted) = some layer.pivoted := by
        rw [← List.getElem?_map, ← hpivoted, List.getElem?_map, well.getElem?_place hlayer]
        rfl
      obtain ⟨own, hown, hpivot⟩ := Option.map_eq_some_iff.mp hsame
      rw [hindices.builtAt_getD hown, hpivot]
    obtain ⟨content, hcontent⟩ := exists_children_of_builtAt hbuilt
    rw [← built_growTree depth layer] at hcontent
    exact ⟨by rw [layer_growTree, built_growTree, hbuilt], layer_notMem_moved well falling depth hlayer,
      pairwise_moved well falling depth layer, content, hcontent, children?_grown hcontent⟩

/-! ## Knotted links -/

/-- An empty layer with a parent. -/
def emptyLayer (index parent : String) : Value Float :=
  .object [("ty", .text "null"), ("ind", .text index), ("parent", .text parent)]

/-- Two layers that name each other, one that hangs off them with another below it, and
between these a layer that leaves nothing. -/
def knottedLayers : List (Value Float) :=
  [emptyLayer "a" "b", emptyLayer "b" "a", emptyLayer "c" "a", .object [("ty", .text "audio")],
    emptyLayer "d" "c"]

/-- A clock that starts with its document. -/
def plainClock : Clock Float := ⟨.whole 25, .whole 0, .whole 50, .whole 0, ⟨false, .whole 30, true⟩⟩

theorem assembleLayers_knottedLayers :
    let elements := [Element.group [] none, .group [.group [.group [] none] none] none]
    (assembleLayers plainClock (.list knottedLayers)).outcome = .ok elements ∧
      ∃ forest, elements = LayerTree.elements forest ∧
        (∀ index, (indicesOf forest).count index =
          if (builtAt plainClock knottedLayers index).isSome then 1 else 0) ∧
        (forest.map layer).Pairwise (· > ·) ∧
        ∀ tree ∈ allOf forest, Assembled plainClock knottedLayers tree := by
  have returned : (assembleLayers plainClock (.list knottedLayers)).outcome =
      .ok [Element.group [] none, .group [.group [.group [] none] none] none] := by
    rw [knottedLayers, assembleLayers]
    simp only [emptyLayer, buildLayers, buildMembers]
    rfl
  exact ⟨returned, assembleLayers_keeps_every_layer returned⟩

end MotionScene
