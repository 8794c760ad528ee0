import MotionScene.Proofs.Layer.Naming
import MotionScene.Proofs.Timeline.Clock

/-!
# Parent links are honoured

A layer that is known under an index of its own moves into the space of the layer it names
as its parent, unless its links lead back to it; all other layers stay at the top
(`assembleLayers_honours_known_links`).  Being known is part of it: a layer without an
index names its parent in vain (`assembleLayers_leaves_nameless_child`).
-/

namespace MotionScene

open LayerTree Relation

variable {R : Type} [Scalar R] {clock : Clock R} {items : List (Value R)}

/-- A layer moves if it is known, finds its parent and does not follow itself. -/
def Moves (clock : Clock R) (items : List (Value R)) (index : Nat) : Prop :=
  (∃ key, Known clock items index key) ∧ FindsParent clock items index ∧
    ¬ TransGen (NamesParent clock items) index index

namespace BuiltFrom

variable {indices : List Nat} {layers : List (BuiltLayer R)}
  (known : BuiltFrom clock items indices layers) {index : Nat}

include known

/-! ## Moves -/

theorem length_placed {placed : List (PlacedLayer R)}
    (hplaced : (placeAll layers).outcome = .ok placed) : placed.length = indices.length := by
  rw [known.built.length_eq, ← List.length_map (f := (·.pivoted)),
    (wellPlaced_of_placeAll hplaced).2, List.length_map]

section Placed

variable [PartialEquivBEq R] {placed : List (PlacedLayer R)}
  (hplaced : (placeAll layers).outcome = .ok placed)

include hplaced

/-- What a placed layer was built into, and where it moves. -/
theorem of_mem_placed {child : PlacedLayer R} (hchild : child ∈ placed) :
    ∃ index : Nat, indices[child.place]? = some index ∧
      builtAt clock items index = some child.pivoted ∧
      ∀ {parent above : Nat}, indices[parent]? = some above →
        (child.parent? = some parent ↔ (∃ key, Known clock items index key) ∧
          NamesParent clock items index above ∧
          ¬ TransGen (NamesParent clock items) index index) := by
  obtain ⟨parents, hparents, rfl⟩ := placed_of_placeAll hplaced
  obtain ⟨⟨⟨layer, link⟩, place⟩, hentry, rfl⟩ := List.mem_map.mp hchild
  obtain ⟨hlayer, hlink⟩ := List.getElem?_zip_eq_some.mp (List.mem_zipIdx_iff_getElem?.mp hentry)
  obtain ⟨index, hindex⟩ := known.exists_index hlayer
  refine ⟨index, hindex, known.builtAt_place hindex hlayer, fun {parent above} hparent => ?_⟩
  have hnamed : link = .layer parent ↔ ParentOf (linksOf parents) place parent := by
    rw [ParentOf, parentOf_linksOf, hlink, Option.bind_some]
    cases link <;> simp [ParentLink.place?]
  rw [honoured?_eq_some, hnamed, known.parentOf_iff hparents hindex hparent,
    known.cycle_iff hparents hindex, and_assoc]

/-- The layer at the place that another one moves to is the one that it names. -/
theorem names_of_parent? {child : PlacedLayer R} (hchild : child ∈ placed)
    (hindex : indices[child.place]? = some index) {parent : Nat}
    (hparent : child.parent? = some parent) :
    (∃ key, Known clock items index key) ∧
      NamesParent clock items index (indices.getD parent 0) ∧
      ¬ TransGen (NamesParent clock items) index index := by
  obtain ⟨again, hagain, -, hiff⟩ := known.of_mem_placed hplaced hchild
  rw [hindex] at hagain
  cases hagain
  have hlt : parent < indices.length := by
    rw [← known.length_placed hplaced]
    exact (wellPlaced_of_placeAll hplaced).1.parent_lt ⟨child, hchild, rfl, hparent⟩
  have habove : indices[parent]? = some (indices.getD parent 0) := by
    simp [List.getD_eq_getElem?_getD, hlt]
  exact (hiff habove).mp hparent

theorem parent?_isSome_iff {child : PlacedLayer R} (hchild : child ∈ placed)
    (hindex : indices[child.place]? = some index) :
    child.parent?.isSome ↔ Moves clock items index := by
  rw [Moves, known.findsParent_iff, Option.isSome_iff_exists]
  constructor
  · rintro ⟨parent, hparent⟩
    obtain ⟨hknown, hnames, hcycle⟩ := known.names_of_parent? hplaced hchild hindex hparent
    exact ⟨hknown, ⟨_, hnames⟩, hcycle⟩
  · rintro ⟨hknown, ⟨above, hnames⟩, hcycle⟩
    obtain ⟨again, hagain, -, hiff⟩ := known.of_mem_placed hplaced hchild
    rw [hindex] at hagain
    cases hagain
    obtain ⟨key, habove⟩ := hnames.known
    obtain ⟨parent, -, habove, -⟩ := known.exists_place habove.built
    exact ⟨parent, (hiff habove).mpr ⟨hknown, hnames, hcycle⟩⟩

end Placed

/-! ## Grown trees -/

section Trees

variable {placed : List (PlacedLayer R)} (hplaced : (placeAll layers).outcome = .ok placed)

include hplaced

theorem falling_placed : FallingNames (indices.getD · 0) placed.length := by
  rw [known.length_placed hplaced, known.built.length_eq]
  exact known.falling_getD

theorem nodup_indicesOf : (indicesOf (growTrees (indices.getD · 0) placed)).Nodup := by
  obtain ⟨well, -⟩ := wellPlaced_of_placeAll hplaced
  refine (indicesOf_growTrees_perm well).nodup_iff.mpr (List.nodup_range.map_on ?_)
  intro place hplace other hother h
  exact (known.falling_placed hplaced).injective (List.mem_range.mp hplace)
    (List.mem_range.mp hother) h

/-- The name of a placed layer tells which one it is. -/
theorem eq_of_name_eq {child other : PlacedLayer R} (hchild : child ∈ placed)
    (hother : other ∈ placed)
    (h : indices.getD child.place 0 = indices.getD other.place 0) : child = other := by
  obtain ⟨well, -⟩ := wellPlaced_of_placeAll hplaced
  exact well.eq_of_place_eq hchild hother
    ((known.falling_placed hplaced).injective (well.place_lt hchild) (well.place_lt hother) h)

/-- Every tree is built from the layer that it is named for. -/
theorem builtAt_tree [PartialEquivBEq R] : ∀ tree ∈ allOf (growTrees (indices.getD · 0) placed),
    builtAt clock items tree.layer = some tree.built := by
  intro tree htree
  obtain ⟨depth, child, hchild, rfl⟩ := exists_of_mem_allOf htree
  obtain ⟨index, hindex, hbuilt, -⟩ := known.of_mem_placed hplaced hchild
  rw [layer_growTree, built_growTree, ← hbuilt, List.getD_eq_getElem?_getD, hindex,
    Option.getD_some]

/-- Every layer that leaves an element is placed. -/
theorem exists_placed {index : Nat} (hsome : (builtAt clock items index).isSome) :
    ∃ child ∈ placed, indices[child.place]? = some index ∧
      index = indices.getD child.place 0 := by
  obtain ⟨well, -⟩ := wellPlaced_of_placeAll hplaced
  obtain ⟨place, -, hindex, -⟩ := known.exists_place hsome
  have hlt : place < placed.length := by
    rw [known.length_placed hplaced]
    exact (List.getElem?_eq_some_iff.mp hindex).1
  obtain ⟨child, hchild, rfl⟩ := well.exists_layer hlt
  exact ⟨child, hchild, hindex, by rw [List.getD_eq_getElem?_getD, hindex, Option.getD_some]⟩

/-- The trees at the top are those of the layers without a parent. -/
theorem mem_top_iff {child : PlacedLayer R} (hchild : child ∈ placed) :
    indices.getD child.place 0 ∈ (growTrees (indices.getD · 0) placed).map LayerTree.layer ↔
      child.parent? = none := by
  rw [growTrees, List.map_map, List.mem_map]
  simp only [Function.comp_apply, layer_growTree, tops, List.mem_filter, Option.isNone_iff_eq_none]
  constructor
  · rintro ⟨top, ⟨htop, hnone⟩, hname⟩
    exact known.eq_of_name_eq hplaced htop hchild hname ▸ hnone
  · intro hnone
    exact ⟨child, ⟨hchild, hnone⟩, rfl⟩

/-- The tree of a layer that has a parent is moved into that of the parent. -/
theorem exists_above {child : PlacedLayer R} (hchild : child ∈ placed) {parent : Nat}
    (hparent : child.parent? = some parent) :
    ∃ above ∈ allOf (growTrees (indices.getD · 0) placed), above.layer = indices.getD parent 0 ∧
      ∃ below ∈ above.moved, below.layer = indices.getD child.place 0 := by
  obtain ⟨well, -⟩ := wellPlaced_of_placeAll hplaced
  have hmem : indices.getD child.place 0 ∈ indicesOf (growTrees (indices.getD · 0) placed) :=
    (indicesOf_growTrees_perm well).mem_iff.mpr
      (List.mem_map_of_mem (List.mem_range.mpr (well.place_lt hchild)))
  obtain ⟨below, hbelow, hname⟩ := List.mem_map.mp hmem
  rcases mem_or_mem_moved _ hbelow with htop | ⟨above, habove, hmoved⟩
  · -- only layers without a parent are at the top
    have hnone := (known.mem_top_iff hplaced hchild).mp (hname ▸ List.mem_map_of_mem htop)
    rw [hnone] at hparent
    cases hparent
  · refine ⟨above, habove, ?_, below, hmoved, hname⟩
    obtain ⟨depth, upper, -, rfl⟩ := exists_of_mem_allOf habove
    cases depth with
    | zero => cases hmoved
    | succ depth =>
        obtain ⟨again, hagain, rfl⟩ := List.mem_map.mp hmoved
        obtain ⟨hagain, hmoves⟩ := List.mem_filter.mp hagain
        rw [layer_growTree] at hname
        obtain rfl := known.eq_of_name_eq hplaced hagain hchild hname
        rw [of_decide_eq_true hmoves] at hparent
        rw [layer_growTree, Option.some.inj hparent]

end Trees

end BuiltFrom

/-! ## Links are honoured -/

theorem outer_mem_children {above below : LayerTree R}
    (built : builtAt clock items above.layer = some above.built) (hmoved : below ∈ above.moved) :
    ∃ children, above.grown.inner.children? = some children ∧ below.grown.outer ∈ children := by
  obtain ⟨content, hcontent⟩ := exists_children_of_builtAt built
  refine ⟨_, children?_grown hcontent, List.mem_append_right _ ?_⟩
  rw [elements_eq_map]
  exact List.mem_map_of_mem hmoved

/-- **Parent links of known layers are honoured.**  The elements of a layer list are those of
a forest in which no layer stands twice.  A layer that moves is not at the top: its element
is among the children of the inner element of the layer that it names.  Every other layer
that leaves an element is at the top. -/
theorem assembleLayers_honours_known_links [PartialEquivBEq R] {elements : List (Element R)}
    (returned : (assembleLayers clock (.list items)).outcome = .ok elements) :
    ∃ forest, elements = LayerTree.elements forest ∧
      (indicesOf forest).Nodup ∧
      (∀ tree ∈ allOf forest, builtAt clock items tree.layer = some tree.built) ∧
      (∀ index, (builtAt clock items index).isSome → ¬ Moves clock items index →
        index ∈ forest.map layer) ∧
      ∀ index, Moves clock items index → index ∉ forest.map layer ∧
        ∃ above ∈ allOf forest, NamesParent clock items index above.layer ∧
          ∃ below ∈ above.moved, below.layer = index ∧
            ∃ children, above.grown.inner.children? = some children ∧
              below.grown.outer ∈ children := by
  rw [assembleLayers] at returned
  obtain ⟨layers, hlayers, hplace⟩ := Traced.outcome_bind_eq_ok.mp returned
  obtain ⟨placed, hplaced, hgrown⟩ := Traced.outcome_bind_eq_ok.mp hplace
  cases hgrown
  obtain ⟨indices, known⟩ := builtFrom_buildLayers hlayers
  refine ⟨growTrees (indices.getD · 0) placed, elements_growTrees.symm,
    known.nodup_indicesOf hplaced, known.builtAt_tree hplaced, fun index hsome hstays => ?_,
    fun index hmoves => ?_⟩
  · obtain ⟨child, hchild, hindex, rfl⟩ := known.exists_placed hplaced hsome
    rw [known.mem_top_iff hplaced hchild, ← Option.not_isSome_iff_eq_none,
      known.parent?_isSome_iff hplaced hchild hindex]
    exact hstays
  · obtain ⟨key, hknown⟩ := hmoves.1
    obtain ⟨child, hchild, hindex, rfl⟩ := known.exists_placed hplaced hknown.built
    have hsome := (known.parent?_isSome_iff hplaced hchild hindex).mpr hmoves
    obtain ⟨parent, hparent⟩ := Option.isSome_iff_exists.mp hsome
    obtain ⟨above, habove, hname, below, hbelow, hname'⟩ :=
      known.exists_above hplaced hchild hparent
    refine ⟨?_, above, habove, ?_, below, hbelow, hname', ?_⟩
    · rw [known.mem_top_iff hplaced hchild, hparent]
      exact Option.some_ne_none parent
    · rw [hname]
      exact (known.names_of_parent? hplaced hchild hindex hparent).2.1
    · exact outer_mem_children (known.builtAt_tree hplaced above habove) hbelow

/-! ## A follower with an index and one without -/

/-- An empty layer that names the one behind it, with further members. -/
def followingLayers (further : Members R) : List (Value R) :=
  [.object (("ty", .text "null") :: ("parent", .text "a") :: further),
    .object [("ty", .text "null"), ("ind", .text "a")]]

theorem builtAt_followingLayers (clock : Clock R) (further : Members R) :
    (builtAt clock (followingLayers further) 1).isSome := by
  show (buildMembers clock [("ty", .text "null"),
    ("ind", .text "a")] _).outcome.toOption.join.isSome
  rw [buildMembers]
  rfl

theorem moves_followingLayers : Moves Clock.steady (followingLayers [("ind", .text "b")]) 0 := by
  have hbuilt : (builtAt Clock.steady (followingLayers [("ind", .text "b")]) 0).isSome := by
    show (buildMembers Clock.steady [("ty", .text "null"), ("parent", .text "a"),
      ("ind", .text "b")] _).outcome.toOption.join.isSome
    rw [buildMembers]
    rfl
  refine ⟨⟨.text "b", hbuilt, rfl, ?_⟩,
    ⟨.text "a", 1, .text "a", rfl, builtAt_followingLayers .., rfl, rfl⟩, ?_⟩
  · rintro (_ | _ | later) other hlt - hother
    · cases hlt
    · cases hother
      rfl
    · cases hother
  · intro cycle
    obtain ⟨last, -, key, own, hparent, hknown, hsame⟩ := TransGen.tail'_iff.mp cycle
    cases hknown.own
    -- the only parent that is named is the layer behind
    rcases last with _ | _ | last
    · cases hparent
      cases hsame
    · cases hparent
    · cases hparent

theorem assembleLayers_followingLayers :
    let items : List (Value ℝ) := followingLayers [("ind", .text "b")]
    let elements : List (Element ℝ) := [Element.group [.group [] none] none]
    (assembleLayers Clock.steady (.list items)).outcome = .ok elements ∧
      Moves Clock.steady items 0 ∧
      ∃ forest, elements = LayerTree.elements forest ∧
        (indicesOf forest).Nodup ∧
        (∀ tree ∈ allOf forest, builtAt Clock.steady items tree.layer = some tree.built) ∧
        (∀ index, (builtAt Clock.steady items index).isSome → ¬ Moves Clock.steady items index →
          index ∈ forest.map layer) ∧
        ∀ index, Moves Clock.steady items index → index ∉ forest.map layer ∧
          ∃ above ∈ allOf forest, NamesParent Clock.steady items index above.layer ∧
            ∃ below ∈ above.moved, below.layer = index ∧
              ∃ children, above.grown.inner.children? = some children ∧
                below.grown.outer ∈ children := by
  have returned : (assembleLayers Clock.steady
      (.list (followingLayers [("ind", .text "b")]))).outcome =
        .ok [Element.group [.group [] none] none] := by
    rw [followingLayers, assembleLayers]
    simp only [buildLayers, buildMembers]
    rfl
  exact ⟨returned, moves_followingLayers, assembleLayers_honours_known_links returned⟩

/-- A layer without an index stays at the top although it finds its parent. -/
theorem assembleLayers_leaves_nameless_child :
    let items : List (Value Float) := followingLayers []
    FindsParent plainClock items 0 ∧ ¬ TransGen (NamesParent plainClock items) 0 0 ∧
      (assembleLayers plainClock (.list items)).outcome =
        .ok [Element.group [] none, Element.group [] none] := by
  refine ⟨⟨.text "a", 1, .text "a", rfl, builtAt_followingLayers .., rfl, rfl⟩, ?_, ?_⟩
  · intro cycle
    obtain ⟨last, -, key, own, -, hknown, -⟩ := TransGen.tail'_iff.mp cycle
    cases hknown.own
  · rw [followingLayers, assembleLayers]
    simp only [buildLayers, buildMembers]
    rfl

end MotionScene
