import MotionScene.Proofs.Layer.Parts
import MotionScene.Proofs.Timeline.Clock

/-!
# What is drawn of a shape list

The outlines of a shape list are those that are not hidden and lie in no hidden group, at
any depth (`outlinesOf`).  A shape list that compiles becomes a forest whose leaves are these
outlines, each once, in the opposite order; every visible group becomes one tree, which has
a group more than its shape list where the transform of the group has an anchor
(`compileShapes_draws_every_outline_once`).
-/

namespace MotionScene

open Element

variable {R : Type} [Scalar R] {clock : Clock R}

/-! ## Outlines -/

/-- The kind of an entry with these members. -/
def shapeKind (shape : Members R) : ShapeKind :=
  ShapeKind.ofCode (shape.get "ty")

/-- Whether an entry with these members is hidden. -/
def isHidden (shape : Members R) : Bool :=
  (shape.get "hd").holds

mutual

/-- The outlines that a shape list draws, in the order in which they are declared. -/
def outlinesOf : Value R → List (Members R)
  | .list items => outlinesOfItems items
  | _ => []

def outlinesOfItems : List (Value R) → List (Members R)
  | [] => []
  | item :: rest => outlinesOfItem item ++ outlinesOfItems rest

def outlinesOfItem : Value R → List (Members R)
  | .object shape =>
    if isHidden shape then []
    else if shapeKind shape = .group then outlinesIn shape
    else if (shapeKind shape).isGeometry then [shape]
    else []
  | _ => []

/-- The outlines of the shape list among the members of a group. -/
def outlinesIn : List (String × Value R) → List (Members R)
  | [] => []
  | (key, value) :: rest => if key = "it" then outlinesOf value else outlinesIn rest

end

/-- An outline or a group that is not hidden. -/
def drawn? : Value R → Option (Members R)
  | .object shape =>
    if isHidden shape then none
    else if shapeKind shape = .group ∨ (shapeKind shape).isGeometry then some shape
    else none
  | _ => none

/-- The entries of a shape list that become elements, in the order in which they are declared. -/
def drawnEntries (shapes : Value R) : List (Members R) :=
  shapes.items.filterMap drawn?

theorem ShapeKind.ne_group_of_isGeometry {kind : ShapeKind} (h : kind.isGeometry = true) :
    kind ≠ .group ∧ kind ≠ .unknown := by
  constructor <;> (rintro rfl; cases h)

section Entries

variable {shape : Members R}

/-- An entry is drawn unless it is hidden or neither a group nor an outline. -/
theorem undrawn_or_drawn (shape : Members R) :
    (isHidden shape = true ∨
        shapeKind shape ≠ .group ∧ ¬ (shapeKind shape).isGeometry = true) ∨
      ¬ isHidden shape = true ∧
        (shapeKind shape = .group ∨ (shapeKind shape).isGeometry = true) := by
  by_cases hidden : isHidden shape = true
  · exact .inl (.inl hidden)
  · by_cases hkind : shapeKind shape = .group ∨ (shapeKind shape).isGeometry = true
    · exact .inr ⟨hidden, hkind⟩
    · exact .inl (.inr (not_or.mp hkind))

theorem group_drawn (visible : ¬ isHidden shape = true) (hkind : shapeKind shape = .group) :
    drawn? (.object shape) = some shape ∧ outlinesOfItem (.object shape) = outlinesIn shape := by
  rw [drawn?, outlinesOfItem, if_neg visible, if_neg visible, if_pos (.inl hkind), if_pos hkind]
  exact ⟨rfl, rfl⟩

theorem outline_drawn (visible : ¬ isHidden shape = true)
    (hkind : (shapeKind shape).isGeometry = true) :
    drawn? (.object shape) = some shape ∧ outlinesOfItem (.object shape) = [shape] := by
  rw [drawn?, outlinesOfItem, if_neg visible, if_neg visible, if_pos (.inr hkind),
    if_neg (ShapeKind.ne_group_of_isGeometry hkind).1, if_pos hkind]
  exact ⟨rfl, rfl⟩

/-- Hidden entries and entries of other kinds are not drawn and have no outlines. -/
theorem nothing_drawn (h : isHidden shape = true ∨
    shapeKind shape ≠ .group ∧ ¬ (shapeKind shape).isGeometry = true) :
    drawn? (.object shape) = none ∧ outlinesOfItem (.object shape) = [] := by
  rw [drawn?, outlinesOfItem]
  by_cases hidden : isHidden shape = true
  · rw [if_pos hidden, if_pos hidden]
    exact ⟨rfl, rfl⟩
  · obtain ⟨hgroup, hgeometry⟩ := h.resolve_left hidden
    rw [if_neg hidden, if_neg hidden, if_neg (not_or.mpr ⟨hgroup, hgeometry⟩), if_neg hgroup,
      if_neg hgeometry]
    exact ⟨rfl, rfl⟩

variable {modifiers : Modifiers (Members R)}

/-- A visible group becomes one element around those of its shape list. -/
theorem compileEntry_group (visible : ¬ isHidden shape = true) (hkind : shapeKind shape = .group) :
    compileEntry clock modifiers (.object shape) = compileItems clock shape >>= fun children =>
      liftM (groupElement shape (shape.get "it").items children clock) >>= fun element =>
        pure [element] := by
  rw [shapeKind] at hkind
  rw [isHidden] at visible
  rw [compileEntry, hkind, if_neg (by decide), if_neg visible, if_pos rfl]

/-- A visible outline becomes one element. -/
theorem compileEntry_outline (visible : ¬ isHidden shape = true)
    (hkind : (shapeKind shape).isGeometry = true) :
    compileEntry clock modifiers (.object shape) =
      liftM (outlineElement (shapeKind shape) shape modifiers clock) >>= fun element =>
        pure [element] := by
  obtain ⟨hgroup, hknown⟩ := ShapeKind.ne_group_of_isGeometry hkind
  rw [shapeKind] at hkind hgroup hknown
  rw [isHidden] at visible
  rw [compileEntry, if_neg hknown, if_neg visible, if_neg hgroup, if_pos hkind, shapeKind]

/-- Hidden entries and entries of other kinds leave no elements. -/
theorem outcome_compileEntry_nothing (h : isHidden shape = true ∨
    shapeKind shape ≠ .group ∧ ¬ (shapeKind shape).isGeometry = true) :
    (compileEntry clock modifiers (.object shape)).outcome = .ok [] := by
  rw [isHidden, shapeKind] at h
  rw [compileEntry]
  by_cases hunknown : ShapeKind.ofCode (shape.get "ty") = .unknown
  · rw [if_pos hunknown]
    rfl
  · rw [if_neg hunknown]
    by_cases hidden : (shape.get "hd").holds = true
    · rw [if_pos hidden]
      rfl
    · obtain ⟨hgroup, hgeometry⟩ := h.resolve_left hidden
      rw [if_neg hidden, if_neg hgroup, if_neg hgeometry]
      rfl

end Entries

/-- An element that shows the outline of an entry. -/
structure OutlineOf (clock : Clock R) (shape : Members R) (element : Element R) : Prop where
  geometry : (shapeKind shape).isGeometry = true
  type : element.type = (shapeKind shape).elementType
  childless : element.children? = none
  named : ∀ name, element.name? = some name ↔
    clock.options.keepNames = true ∧ shape.get "nm" = .text name
  made : ∃ modifiers, outlineElement (shapeKind shape) shape modifiers clock = .ok element

omit [Scalar R] in
theorem nameOf_eq_some {shape : Members R} {options : Options R} {name : String} :
    nameOf shape options = some name ↔
      options.keepNames = true ∧ shape.get "nm" = .text name := by
  unfold nameOf
  split
  · rename_i hkeep
    rw [and_iff_right hkeep]
    cases shape.get "nm" <;> simp [Value.text?]
  · rename_i hdrop
    exact ⟨nofun, fun h => absurd h.1 hdrop⟩

theorem outlineOf {shape : Members R} {modifiers : Modifiers (Members R)} {element : Element R}
    (hkind : (shapeKind shape).isGeometry = true)
    (returned : outlineElement (shapeKind shape) shape modifiers clock = .ok element) :
    OutlineOf clock shape element := by
  obtain ⟨htype, childless, -⟩ := outlineElement_written hkind returned
  obtain ⟨geometry, -, hrest⟩ := bind_eq_ok.mp returned
  obtain ⟨styled, -, hrest⟩ := bind_eq_ok.mp hrest
  obtain ⟨trimmed, -, hrest⟩ := bind_eq_ok.mp hrest
  obtain ⟨repeated, -, hpure⟩ := bind_eq_ok.mp hrest
  obtain rfl := pure_eq_ok.mp hpure
  exact ⟨hkind, htype, childless, fun name => nameOf_eq_some, modifiers, returned⟩

/-! ## Groups -/

/-- A body with an anchor: a constant one that is not zero, or one that is animated. -/
inductive Body.HasPivot (body : Body R) : Prop
  | constant {key : String} {n : Number R} (hkey : key ∈ anchorKeys.map (·.1))
      (hconstant : body.attributes.get? key = some (.num n)) (nonzero : n.isZero = false)
  | animated {timeline : Timeline R} {keyframe : Keyframe R} {key : String}
      (htimeline : timeline ∈ body.timelines) (hkeyframe : keyframe ∈ timeline.keyframes)
      (hkey : key ∈ anchorKeys.map (·.1)) (patched : key ∈ keyframe.patch.keys)

omit [Scalar R] in
theorem movesAnchor_iff_patched {timeline : Timeline R} : timeline.movesAnchor = true ↔
    ∃ keyframe ∈ timeline.keyframes, ∃ key ∈ anchorKeys.map (·.1), key ∈ keyframe.patch.keys := by
  have hproper : ∀ key ∈ anchorKeys.map (·.1), Keyframe.ownKeys.contains key = false := by decide
  have hkeys : ∀ (keyframe : Keyframe R) (key : String), key ∈ anchorKeys.map (·.1) →
      (key ∈ keyframe.attributes.keys ↔ key ∈ keyframe.patch.keys) := by
    intro keyframe key hkey
    rw [Keyframe.attributes, Members.keys, Members.keys, List.mem_map, List.mem_map]
    refine exists_congr fun entry => and_congr_left fun hentry => ?_
    rw [List.mem_filter, hentry, hproper key hkey]
    exact and_iff_left rfl
  rw [Timeline.movesAnchor, Timeline.touches, List.any_eq_true]
  simp only [Timeline.touchedKeys, List.mem_eraseDups, List.mem_flatMap, List.contains_iff_mem]
  constructor
  · rintro ⟨key, ⟨keyframe, hkeyframe, hpatch⟩, hkey⟩
    exact ⟨keyframe, hkeyframe, key, hkey, (hkeys keyframe key hkey).mp hpatch⟩
  · rintro ⟨keyframe, hkeyframe, key, hkey, hpatch⟩
    exact ⟨key, ⟨keyframe, hkeyframe, (hkeys keyframe key hkey).mpr hpatch⟩, hkey⟩

theorem hasAnchor_iff {body : Body R} (placing : body.Placing) :
    body.hasAnchor = true ↔ body.HasPivot := by
  rw [Body.hasAnchor, Bool.or_eq_true, List.any_eq_true, List.any_eq_true]
  constructor
  · rintro (⟨key, hkey, holds⟩ | ⟨timeline, htimeline, hmoves⟩)
    · rw [Members.get] at holds
      cases hget : body.attributes.get? key.1 with
      | none =>
          rw [hget] at holds
          cases holds
      | some value =>
          obtain ⟨n, rfl⟩ := placing.numbers _ (Members.mem_of_get? hget)
          rw [hget] at holds
          exact .constant (List.mem_map_of_mem hkey) hget ((Bool.not_eq_true' _).mp holds)
    · obtain ⟨keyframe, hkeyframe, key, hkey, hpatch⟩ := movesAnchor_iff_patched.mp hmoves
      exact .animated htimeline hkeyframe hkey hpatch
  · rintro (⟨hkey, hconstant, nonzero⟩ | ⟨htimeline, hkeyframe, hkey, patched⟩)
    · obtain ⟨key, hmem, rfl⟩ := List.mem_map.mp hkey
      refine .inl ⟨key, hmem, ?_⟩
      rw [Members.get, hconstant]
      exact (Bool.not_eq_true' _).mpr nonzero
    · exact .inr ⟨_, htimeline, movesAnchor_iff_patched.mpr ⟨_, hkeyframe, _, hkey, patched⟩⟩

/-- Whether the first transform among the entries of a group has an anchor. -/
def PivotsIn (clock : Clock R) (items : List (Value R)) : Prop :=
  ∃ transform body, groupTransform? items = some transform ∧
    composeTransform transform clock = .ok body ∧ body.HasPivot

/-- How the element of an entry of a shape list looks: one without children for an outline,
and one group for a group, within another one where the transform of the group has an
anchor. -/
inductive DrawnAs (clock : Clock R) : Members R → Element R → Prop
  | outline {shape : Members R} {element : Element R} (shown : OutlineOf clock shape element) :
      DrawnAs clock shape element
  | group {shape : Members R} {body : Body R} {children : List (Element R)}
      (kind : shapeKind shape = .group) (free : ¬ PivotsIn clock (shape.get "it").items)
      (below : List.Forall₂ (DrawnAs clock) (drawnEntries (shape.get "it")).reverse children) :
      DrawnAs clock shape ⟨.group, body, some children, nameOf shape clock.options⟩
  | wrapped {shape : Members R} {wrapper body : Body R} {children : List (Element R)}
      (kind : shapeKind shape = .group) (pivots : PivotsIn clock (shape.get "it").items)
      (below : List.Forall₂ (DrawnAs clock) (drawnEntries (shape.get "it")).reverse children) :
      DrawnAs clock shape ⟨.group, wrapper,
        some [⟨.group, body, some children, nameOf shape clock.options⟩], none⟩

theorem pivotsIn_iff {items : List (Value R)} {transform : Value R} {body : Body R}
    (htransform : groupTransform? items = some transform)
    (hbody : composeTransform transform clock = .ok body) :
    PivotsIn clock items ↔ body.hasAnchor = true := by
  rw [hasAnchor_iff (placing_composeTransform hbody)]
  constructor
  · rintro ⟨other, result, hother, hresult, pivots⟩
    obtain rfl := Option.some_inj.mp (htransform.symm.trans hother)
    exact Except.ok.inj (hbody.symm.trans hresult) ▸ pivots
  · exact fun pivots => ⟨transform, body, htransform, hbody, pivots⟩

/-- A group is one element around its children, or two where its transform has an anchor. -/
theorem groupElement_cases {shape : Members R} {items : List (Value R)}
    {children : List (Element R)} {element : Element R}
    (returned : groupElement shape items children clock = .ok element) :
    ∃ body, (¬ PivotsIn clock items ∧
        element = ⟨.group, body, some children, nameOf shape clock.options⟩) ∨
      (PivotsIn clock items ∧ ∃ wrapper, element = ⟨.group, wrapper,
        some [⟨.group, body, some children, nameOf shape clock.options⟩], none⟩) := by
  unfold groupElement at returned
  dsimp only at returned
  split at returned
  · rename_i transform htransform
    obtain ⟨placed, hplaced, hrest⟩ := bind_eq_ok.mp returned
    obtain ⟨pivoted, hpivoted, hpure⟩ := bind_eq_ok.mp hrest
    obtain rfl := pure_eq_ok.mp hpure
    obtain ⟨composed, hcomposed, -⟩ := bind_eq_ok.mp hplaced
    obtain rfl := Except.ok.inj (hplaced.symm.trans (withTransform_group hcomposed _ _))
    have hpivot := pivotsIn_iff htransform hcomposed
    rcases pivot_cases hpivoted with ⟨hfree, rfl⟩ | ⟨hanchor, wrapper, body, -, rfl⟩
    · exact ⟨_, .inl ⟨by rw [hpivot, hfree]; exact Bool.false_ne_true, rfl⟩⟩
    · exact ⟨body, .inr ⟨hpivot.mpr hanchor, wrapper, rfl⟩⟩
  · rename_i hnone
    rw [ok_bind] at returned
    obtain ⟨pivoted, hpivoted, hpure⟩ := bind_eq_ok.mp returned
    obtain rfl := pure_eq_ok.mp hpure
    obtain rfl := Except.ok.inj hpivoted
    refine ⟨_, .inl ⟨fun ⟨transform, _, htransform, _⟩ => ?_, rfl⟩⟩
    rw [hnone] at htransform
    cases htransform

/-! ## Leaves -/

/-- The elements of a forest that are no groups, each before its children. -/
def leavesOf (elements : List (Element R)) : List (Element R) :=
  (allOf elements).filter fun element => !element.isGroup

omit [Scalar R] in
theorem leavesOf_append (first second : List (Element R)) :
    leavesOf (first ++ second) = leavesOf first ++ leavesOf second := by
  simp only [leavesOf, allOf_eq_flatMap, List.flatMap_append, List.filter_append]

omit [Scalar R] in
theorem leavesOf_group (body : Body R) (children : List (Element R)) (name? : Option String) :
    leavesOf [⟨.group, body, some children, name?⟩] = leavesOf children := by
  rw [leavesOf, allOf, all, allOf, List.append_nil]
  exact List.filter_cons_of_neg (by simp [Element.isGroup])

theorem OutlineOf.leavesOf {shape : Members R} {element : Element R}
    (shown : OutlineOf clock shape element) : leavesOf [element] = [element] := by
  have htype : element.isGroup = false := by
    have hkind := shown.geometry
    rw [Element.isGroup, shown.type]
    revert hkind
    cases shapeKind shape <;> decide
  rw [MotionScene.leavesOf, allOf, allOf, List.append_nil, all_of_childless shown.childless,
    List.filter_cons_of_pos (by rw [htype]; rfl), List.filter_nil]

/-! ## The forest of a shape list -/

/-- A forest that shows entries with the outlines in them: a tree for every entry and a leaf
for every outline, in the opposite order. -/
structure Depicts (clock : Clock R) (entries outlines : List (Members R))
    (elements : List (Element R)) : Prop where
  trees : List.Forall₂ (DrawnAs clock) entries.reverse elements
  leaves : List.Forall₂ (OutlineOf clock) outlines.reverse (leavesOf elements)

namespace Depicts

theorem nil : Depicts clock [] [] [] :=
  ⟨.nil, .nil⟩

variable {entries later outlines laterOutlines : List (Members R)}
  {elements laterElements : List (Element R)}

theorem append (own : Depicts clock entries outlines elements)
    (rest : Depicts clock later laterOutlines laterElements) :
    Depicts clock (entries ++ later) (outlines ++ laterOutlines) (laterElements ++ elements) where
  trees := by
    rw [List.reverse_append]
    exact List.rel_append rest.trees own.trees
  leaves := by
    rw [List.reverse_append, leavesOf_append]
    exact List.rel_append rest.leaves own.leaves

theorem nothing {shape : Members R} (h : isHidden shape = true ∨
    shapeKind shape ≠ .group ∧ ¬ (shapeKind shape).isGeometry = true) :
    Depicts clock (drawn? (.object shape)).toList (outlinesOfItem (.object shape)) [] := by
  obtain ⟨hdrawn, houtlines⟩ := nothing_drawn h
  rw [hdrawn, houtlines]
  exact .nil

theorem outline {shape : Members R} {element : Element R} (shown : OutlineOf clock shape element) :
    Depicts clock [shape] [shape] [element] where
  trees := .cons (.outline shown) .nil
  leaves := by
    rw [shown.leavesOf]
    exact .cons shown .nil

theorem group {shape : Members R} {children : List (Element R)} {element : Element R}
    (kind : shapeKind shape = .group)
    (below : Depicts clock (drawnEntries (shape.get "it")) outlines children)
    (returned : groupElement shape (shape.get "it").items children clock = .ok element) :
    Depicts clock [shape] outlines [element] := by
  rcases groupElement_cases returned with ⟨body, ⟨free, rfl⟩ | ⟨pivots, wrapper, rfl⟩⟩
  · refine ⟨.cons (.group kind free below.trees) .nil, ?_⟩
    rw [leavesOf_group]
    exact below.leaves
  · refine ⟨.cons (.wrapped kind pivots below.trees) .nil, ?_⟩
    rw [leavesOf_group, leavesOf_group]
    exact below.leaves

end Depicts

mutual

theorem compileShapes_depicts : ∀ (shapes : Value R) {elements : List (Element R)},
    (compileShapes clock shapes).outcome = .ok elements →
      Depicts clock (drawnEntries shapes) (outlinesOf shapes) elements
  | .list items, elements, returned => by
      rw [compileShapes] at returned
      exact compileEntries_depicts items _ returned
  | .null, elements, returned | .bool _, elements, returned | .num _, elements, returned
  | .text _, elements, returned | .object _, elements, returned => by
      cases returned
      exact .nil

theorem compileEntries_depicts : ∀ (items : List (Value R))
    (bound : List (Option (Modifiers (Members R)))) {elements : List (Element R)},
    (compileEntries clock items bound).outcome = .ok elements →
      Depicts clock (items.filterMap drawn?) (outlinesOfItems items) elements
  | [], _, elements, returned => by
      cases returned
      exact .nil
  | item :: rest, bound, elements, returned => by
      rw [compileEntries] at returned
      obtain ⟨later, hlater, hrest⟩ := Traced.outcome_bind_eq_ok.mp returned
      obtain ⟨own, hown, hpure⟩ := Traced.outcome_bind_eq_ok.mp hrest
      cases hpure
      have hdrawn : (item :: rest).filterMap drawn? =
          (drawn? item).toList ++ rest.filterMap drawn? := by
        cases h : drawn? item <;> simp [h]
      rw [hdrawn, outlinesOfItems]
      exact (compileEntry_depicts item _ hown).append (compileEntries_depicts rest _ hlater)

theorem compileEntry_depicts : ∀ (item : Value R) (modifiers : Modifiers (Members R))
    {elements : List (Element R)}, (compileEntry clock modifiers item).outcome = .ok elements →
      Depicts clock (drawn? item).toList (outlinesOfItem item) elements
  | .object shape, modifiers, elements, returned => by
      rcases undrawn_or_drawn shape with h | ⟨visible, hgroup | hgeometry⟩
      · rw [outcome_compileEntry_nothing h] at returned
        cases returned
        exact .nothing h
      · rw [compileEntry_group visible hgroup] at returned
        obtain ⟨children, hchildren, hrest⟩ := Traced.outcome_bind_eq_ok.mp returned
        obtain ⟨group, hgroupElement, hpure⟩ := Traced.outcome_bind_eq_ok.mp hrest
        cases hpure
        obtain ⟨hdrawn, houtlines⟩ := group_drawn visible hgroup
        rw [hdrawn, houtlines]
        exact .group hgroup (compileItems_depicts shape hchildren) hgroupElement
      · rw [compileEntry_outline visible hgeometry] at returned
        obtain ⟨outline, houtline, hpure⟩ := Traced.outcome_bind_eq_ok.mp returned
        cases hpure
        obtain ⟨hdrawn, houtlines⟩ := outline_drawn visible hgeometry
        rw [hdrawn, houtlines]
        exact .outline (outlineOf hgeometry houtline)
  | .null, _, elements, returned | .bool _, _, elements, returned | .num _, _, elements, returned
  | .text _, _, elements, returned | .list _, _, elements, returned => by
      cases returned
      exact .nil

theorem compileItems_depicts : ∀ (members : List (String × Value R)) {elements : List (Element R)},
    (compileItems clock members).outcome = .ok elements →
      Depicts clock (drawnEntries (Members.get members "it")) (outlinesIn members) elements
  | [], elements, returned => by
      cases returned
      exact .nil
  | (key, value) :: rest, elements, returned => by
      rw [compileItems] at returned
      rw [outlinesIn, Members.get, Members.get?_cons]
      split at returned
      · rename_i hkey
        rw [if_pos hkey, if_pos hkey]
        exact compileShapes_depicts value returned
      · rename_i hkey
        rw [if_neg hkey, if_neg hkey]
        exact compileItems_depicts rest returned

end

/-- **Every outline is drawn once.**  The leaves of a compiled shape list, met depth first, are
the outlines of the list that are not hidden and lie in no hidden group, in the opposite order:
each is an element of the type of its kind, with the name of its entry where names are kept.
The list itself becomes one tree for each outline and each group that is not hidden, in the
opposite order too, and so does the list of every group below its tree; a group is wrapped into
a second one if and only if its first transform has an anchor that is animated or not zero. -/
theorem compileShapes_draws_every_outline_once {shapes : Value R} {elements : List (Element R)}
    (returned : (compileShapes clock shapes).outcome = .ok elements) :
    List.Forall₂ (OutlineOf clock) (outlinesOf shapes).reverse (leavesOf elements) ∧
      List.Forall₂ (DrawnAs clock) (drawnEntries shapes).reverse elements :=
  have depicts := compileShapes_depicts shapes returned
  ⟨depicts.leaves, depicts.trees⟩

/-! ## Nested groups -/

/-- An ellipse in front of a hidden group and of a group with an anchor, which has a
rectangle, a hidden path, an entry of unknown kind and a second transform in it. -/
def nestedShapes : List (Value R) :=
  [.object [("ty", .text "el"), ("nm", .text "top")],
   .object [("ty", .text "gr"), ("hd", .bool true), ("it", .list [.object [("ty", .text "el")]])],
   .object [("ty", .text "gr"), ("nm", .text "group"), ("it", .list
     [.object [("ty", .text "rc"), ("nm", .text "card")],
      .object [("ty", .text "sh"), ("hd", .bool true)],
      .object [("ty", .text "gf")],
      .object [("ty", .text "tr"),
        ("a", .object [("k", .list [.num (.whole 10), .num (.whole 10)])])],
      .object [("ty", .text "tr"), ("p", .object [("k", .list [.num (.whole 5)])])]])]]

theorem compileShapes_nestedShapes : ∃ elements,
    (compileShapes Clock.steady (.list nestedShapes)).outcome = .ok elements ∧
      (leavesOf elements).map (·.name?) = [some "card", some "top"] ∧
      List.Forall₂ (OutlineOf Clock.steady) (outlinesOf (.list nestedShapes)).reverse
        (leavesOf elements) ∧
      List.Forall₂ (DrawnAs Clock.steady) (drawnEntries (.list nestedShapes)).reverse elements := by
  obtain ⟨elements, returned, hnames⟩ : ∃ elements,
      (compileShapes Clock.steady (.list nestedShapes)).outcome = .ok elements ∧
        (leavesOf elements).map (·.name?) = [some "card", some "top"] :=
    ⟨_, rfl, rfl⟩
  exact ⟨elements, returned, hnames, compileShapes_draws_every_outline_once returned⟩

end MotionScene
