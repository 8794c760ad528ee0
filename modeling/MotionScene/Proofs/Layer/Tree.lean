import MotionScene.Proofs.Layer.Growth

/-!
# Trees of layers

The elements of a scene do not say which layers they come from.  A `LayerTree` does: it is
a layer with its built element and the trees of the layers that moved into it.  Placed
layers grow such trees (`growTrees`), and the elements of the trees are those of the scene
(`elements_growTrees`).
-/

namespace MotionScene

variable {R : Type}

/-- A layer, by its index in a list, with what it was built into and the layers that moved
into it. -/
inductive LayerTree (R : Type) where
  | node (layer : Nat) (built : Pivoted R) (moved : List (LayerTree R))

namespace LayerTree

/-- The index of the layer at the root. -/
def layer : LayerTree R → Nat
  | node layer _ _ => layer

/-- What the layer at the root was built into. -/
def built : LayerTree R → Pivoted R
  | node _ built _ => built

/-- The trees of the layers that moved into the one at the root. -/
def moved : LayerTree R → List (LayerTree R)
  | node _ _ moved => moved

mutual

/-- The trees in a tree, each before those below it. -/
def all : LayerTree R → List (LayerTree R)
  | node layer built moved => node layer built moved :: allOf moved

/-- The trees in a forest, each before those below it. -/
def allOf : List (LayerTree R) → List (LayerTree R)
  | [] => []
  | tree :: rest => all tree ++ allOf rest

end

/-- The layers of a forest, each before those below it. -/
def indicesOf (forest : List (LayerTree R)) : List Nat :=
  (allOf forest).map layer

mutual

/-- The built layer with the elements of all layers that moved into it. -/
def grown : LayerTree R → Pivoted R
  | node _ built moved => built.adopt (elements moved)

/-- The elements of the layers at the roots. -/
def elements : List (LayerTree R) → List (Element R)
  | [] => []
  | tree :: rest => (grown tree).outer :: elements rest

end

theorem allOf_eq_flatMap (forest : List (LayerTree R)) : allOf forest = forest.flatMap all := by
  induction forest with
  | nil => rfl
  | cons tree rest ih => rw [allOf, ih, List.flatMap_cons]

theorem elements_eq_map (forest : List (LayerTree R)) :
    elements forest = forest.map fun tree => (grown tree).outer := by
  induction forest with
  | nil => rfl
  | cons tree rest ih => rw [elements, ih, List.map_cons]

theorem grown_eq_adopt (tree : LayerTree R) :
    tree.grown = tree.built.adopt (elements tree.moved) := by
  cases tree
  rw [grown, built, moved]

theorem all_eq_cons (tree : LayerTree R) : tree.all = tree :: allOf tree.moved := by
  cases tree
  rw [all, moved]

mutual

theorem eq_or_mem_moved : ∀ (root : LayerTree R) {tree : LayerTree R}, tree ∈ root.all →
    tree = root ∨ ∃ above ∈ root.all, tree ∈ above.moved
  | node layer built moved, tree, h => by
      rw [all] at h ⊢
      rcases List.mem_cons.mp h with rfl | h
      · exact .inl rfl
      · rcases mem_or_mem_moved moved h with hmoved | ⟨above, habove, hmoved⟩
        · exact .inr ⟨_, List.mem_cons_self, hmoved⟩
        · exact .inr ⟨above, List.mem_cons_of_mem _ habove, hmoved⟩

/-- A tree of a forest is at the top or moved into another tree. -/
theorem mem_or_mem_moved : ∀ (forest : List (LayerTree R)) {tree : LayerTree R},
    tree ∈ allOf forest → tree ∈ forest ∨ ∃ above ∈ allOf forest, tree ∈ above.moved
  | [], tree, h => nomatch h
  | root :: rest, tree, h => by
      rw [allOf] at h ⊢
      rcases List.mem_append.mp h with h | h
      · rcases eq_or_mem_moved root h with rfl | ⟨above, habove, hmoved⟩
        · exact .inl List.mem_cons_self
        · exact .inr ⟨above, List.mem_append_left _ habove, hmoved⟩
      · rcases mem_or_mem_moved rest h with hrest | ⟨above, habove, hmoved⟩
        · exact .inl (List.mem_cons_of_mem _ hrest)
        · exact .inr ⟨above, List.mem_append_right _ habove, hmoved⟩

end

theorem children?_grown {tree : LayerTree R} {content : List (Element R)}
    (h : tree.built.inner.children? = some content) :
    tree.grown.inner.children? = some (content ++ elements tree.moved) := by
  rw [grown_eq_adopt]
  show (tree.built.inner.children?.map (· ++ elements tree.moved)) = _
  rw [h, Option.map_some]

end LayerTree

open LayerTree

/-! ## Growing trees -/

variable {placed : List (PlacedLayer R)} {name : Nat → Nat}

/-- The tree of a layer, down to a depth, with the layers called by the names of their
places. -/
def growTree (name : Nat → Nat) (placed : List (PlacedLayer R)) :
    (depth : Nat) → PlacedLayer R → LayerTree R
  | 0, layer => node (name layer.place) layer.pivoted []
  | depth + 1, layer => node (name layer.place) layer.pivoted
      ((placed.filter (·.movesTo layer)).map (growTree name placed depth))

/-- The trees of the layers that stay at the top. -/
def growTrees (name : Nat → Nat) (placed : List (PlacedLayer R)) : List (LayerTree R) :=
  (tops placed).map (growTree name placed placed.length)

@[simp] theorem layer_growTree (depth : Nat) (layer : PlacedLayer R) :
    (growTree name placed depth layer).layer = name layer.place := by
  cases depth <;> rfl

@[simp] theorem built_growTree (depth : Nat) (layer : PlacedLayer R) :
    (growTree name placed depth layer).built = layer.pivoted := by
  cases depth <;> rfl

theorem outer_growTree (depth : Nat) (layer : PlacedLayer R) :
    (growTree name placed depth layer).grown.outer = grow placed depth layer := by
  induction depth generalizing layer with
  | zero => rw [growTree, grown, elements, Pivoted.adopt_nil, grow]
  | succ depth ih =>
      rw [growTree, grown, elements_eq_map, List.map_map, grow]
      have hchildren : (fun tree : LayerTree R => tree.grown.outer) ∘ growTree name placed depth =
          grow placed depth := funext ih
      rw [hchildren]

theorem elements_growTrees : elements (growTrees name placed) = growForest placed := by
  rw [growTrees, elements_eq_map, List.map_map, growForest]
  exact List.map_congr_left fun layer _ => outer_growTree _ layer

theorem layers_growTree (depth : Nat) (layer : PlacedLayer R) :
    (growTree name placed depth layer).all.map LayerTree.layer =
      (walk placed depth layer).map name := by
  induction depth generalizing layer with
  | zero => simp [growTree, all, allOf, walk, LayerTree.layer]
  | succ depth ih =>
      rw [growTree, all, allOf_eq_flatMap, List.map_cons, List.map_flatMap, List.flatMap_map,
        walk, List.map_cons, List.map_flatMap]
      refine congrArg _ (List.flatMap_congr fun child _ => ?_)
      exact ih child

theorem indicesOf_growTrees : indicesOf (growTrees name placed) = (walkTop placed).map name := by
  rw [indicesOf, growTrees, allOf_eq_flatMap, List.map_flatMap, List.flatMap_map, walkTop,
    List.map_flatMap]
  exact List.flatMap_congr fun layer _ => layers_growTree _ layer

/-- Every tree in a grown tree has been grown as well. -/
theorem exists_of_mem_all {depth : Nat} {layer : PlacedLayer R} (hlayer : layer ∈ placed)
    {tree : LayerTree R} (h : tree ∈ (growTree name placed depth layer).all) :
    ∃ lower, ∃ inner ∈ placed, tree = growTree name placed lower inner := by
  induction depth generalizing layer with
  | zero =>
      rw [growTree, all, allOf] at h
      exact ⟨0, layer, hlayer, List.mem_singleton.mp h⟩
  | succ depth ih =>
      rw [growTree, all, allOf_eq_flatMap, List.flatMap_map] at h
      rcases List.mem_cons.mp h with rfl | h
      · exact ⟨depth + 1, layer, hlayer, rfl⟩
      · obtain ⟨child, hchild, h⟩ := List.mem_flatMap.mp h
        exact ih (List.mem_of_mem_filter hchild) h

theorem exists_of_mem_allOf {tree : LayerTree R} (h : tree ∈ allOf (growTrees name placed)) :
    ∃ depth, ∃ layer ∈ placed, tree = growTree name placed depth layer := by
  rw [growTrees, allOf_eq_flatMap, List.flatMap_map] at h
  obtain ⟨top, htop, h⟩ := List.mem_flatMap.mp h
  exact exists_of_mem_all (List.mem_of_mem_filter htop) h

/-! ## Order and uniqueness -/

/-- Names that fall from place to place. -/
def FallingNames (name : Nat → Nat) (length : Nat) : Prop :=
  ∀ place later, place < later → later < length → name later < name place

theorem FallingNames.injective {length : Nat} (falling : FallingNames name length)
    {place other : Nat} (hplace : place < length) (hother : other < length)
    (h : name place = name other) : place = other := by
  rcases Nat.lt_trichotomy place other with hlt | heq | hlt
  · have hname := falling place other hlt hother
    omega
  · exact heq
  · have hname := falling other place hlt hplace
    omega

section WellPlaced

variable (well : WellPlaced placed) (falling : FallingNames name placed.length)

include well falling

theorem pairwise_names {layers : List (PlacedLayer R)} (h : layers.Sublist placed) :
    (layers.map fun layer => name layer.place).Pairwise (· > ·) := by
  have hplaces : placed.Pairwise fun layer other => layer.place < other.place := by
    refine List.pairwise_map.mp ?_
    rw [well.places]
    exact List.pairwise_lt_range
  refine List.pairwise_map.mpr ((hplaces.sublist h).imp_of_mem fun _ hother hlt => ?_)
  exact falling _ _ hlt (well.place_lt (h.subset hother))

theorem pairwise_growTrees : ((growTrees name placed).map layer).Pairwise (· > ·) := by
  rw [growTrees, List.map_map]
  simp only [Function.comp_def, layer_growTree]
  exact pairwise_names well falling List.filter_sublist

theorem pairwise_moved (depth : Nat) (layer : PlacedLayer R) :
    ((growTree name placed depth layer).moved.map LayerTree.layer).Pairwise (· > ·) := by
  cases depth with
  | zero => exact .nil
  | succ depth =>
      rw [growTree, moved, List.map_map]
      simp only [Function.comp_def, layer_growTree]
      exact pairwise_names well falling List.filter_sublist

/-- No layer is below itself. -/
theorem layer_notMem_moved (depth : Nat) {layer : PlacedLayer R} (hlayer : layer ∈ placed) :
    (growTree name placed depth layer).layer ∉
      indicesOf (growTree name placed depth layer).moved := by
  have hnodup : ((walk placed depth layer).map name).Nodup := by
    refine List.Nodup.map_on (fun place hplace other hother h => ?_) (well.nodup_walk depth layer)
    exact falling.injective (well.lt_of_mem_walk hlayer hplace) (well.lt_of_mem_walk hlayer hother) h
  -- the first name on the walk is that of the layer itself
  rw [← layers_growTree, all_eq_cons, List.map_cons] at hnodup
  exact (List.nodup_cons.mp hnodup).1

omit falling in
theorem indicesOf_growTrees_perm :
    (indicesOf (growTrees name placed)).Perm ((List.range placed.length).map name) := by
  rw [indicesOf_growTrees]
  exact well.walkTop_perm.map name

end WellPlaced

end MotionScene
