import MotionScene.Proofs.Element.Anchored
import MotionScene.Proofs.Element.Forest
import MotionScene.Proofs.Layer.Made
import MotionScene.Proofs.Shape.Written

/-!
# Parts of a scene

Every element of a forest that was made is an outline or the rectangle of a solid, a group
whose attributes are those of a transform without its anchor, or the inner element of a
pair that a pivot left (`Made.part`).
-/

namespace MotionScene

open Element

variable {R : Type} [Scalar R] {root : Clock R}

/-- Two elements as a pivot leaves them: one around the other, with the two bodies into
which a body was taken apart at its anchor. -/
structure PivotPair (body : Body R) (outer inner : Element R) : Prop where
  around : outer.children? = some [inner]
  split : body.splitAtAnchor = .ok (outer.body, inner.body)

/-- What an element of a forest is, by the attributes that were written onto it. -/
inductive Element.Part (forest : List (Element R)) (element : Element R) : Prop
  | leaf (type : element.type ≠ .group) (childless : element.children? = none)
      (written : element.body.Written [.shape, .style] (sharedSlots element.type)
        (outlineSlots ++ reservedSlots))
  | group (type : element.type = .group) (children : element.children?.isSome)
      (written : element.body.Written [] [] (ownSlots transformKeys))
  | inner {body : Body R} {outer : Element R} (type : element.type = .group)
      (children : element.children?.isSome) (written : body.Written [] [] (ownSlots placingKeys))
      (houter : outer ∈ forest) (pair : PivotPair body outer element)

theorem Element.Part.mono {forest more : List (Element R)} {element : Element R}
    (part : element.Part forest) (h : forest ⊆ more) : element.Part more := by
  cases part with
  | leaf type childless written => exact .leaf type childless written
  | group type children written => exact .group type children written
  | inner type children written houter pair => exact .inner type children written (h houter) pair

omit [Scalar R] in
theorem written_filled {shape : Members R}
    (h : ∀ name ∈ shape.keys, ⟨.shape, name⟩ ∈ geometrySlots) (fill : Value R) :
    Body.Written [.shape, .style] [] (outlineSlots ++ reservedSlots)
      ⟨[("shape", .object shape), ("style", .object [("fill", fill)])], []⟩ := by
  have hshape := written_shape h fun _ h => absurd h List.not_mem_nil
  have hwritten : writeUnder Target.style.key "fill" fill
      (withTarget "style" [("shape", .object shape)]) =
        .ok [("shape", .object shape), ("style", .object [("fill", fill)])] := rfl
  exact (hshape.addStyle.write .style (by decide) hwritten).mono (by decide)

theorem solidRect_written {layer : Members R} {rect : Element R}
    (returned : solidRect layer = .ok rect) :
    rect.type = .rect ∧ rect.children? = none ∧
      rect.body.Written [.shape, .style] [] (outlineSlots ++ reservedSlots) := by
  obtain ⟨cx, -, hrest⟩ := bind_eq_ok.mp returned
  obtain ⟨cy, -, hpure⟩ := bind_eq_ok.mp hrest
  obtain rfl := pure_eq_ok.mp hpure
  have hnames : ∀ name ∈ ["cx", "cy", "width", "height"], ⟨.shape, name⟩ ∈ geometrySlots := by
    decide
  refine ⟨rfl, rfl, written_filled (fun name h => ?_) _⟩
  exact hnames name h

omit [Scalar R] in
theorem all_of_childless {element : Element R} (h : element.children? = none) :
    element.all = [element] := by
  rw [all_eq_cons, Element.children, h]
  rfl

theorem pivot_cases {placed : Element R} {pivoted : Pivoted R}
    (returned : placed.pivot = .ok pivoted) :
    placed.body.hasAnchor = false ∧
        pivoted = ⟨none, { placed with body := placed.body.withoutAnchor }⟩ ∨
      placed.body.hasAnchor = true ∧
        ∃ wrapper body, placed.body.splitAtAnchor = .ok (wrapper, body) ∧
          pivoted = ⟨some wrapper, { placed with body }⟩ := by
  unfold Element.pivot at returned
  split at returned
  · rename_i hanchor
    obtain ⟨⟨wrapper, body⟩, hsplit, hpure⟩ := bind_eq_ok.mp returned
    exact .inr ⟨hanchor, wrapper, body, hsplit, (pure_eq_ok.mp hpure).symm⟩
  · rename_i hfree
    exact .inl ⟨Bool.eq_false_iff.mpr hfree, (Except.ok.inj returned).symm⟩

theorem part_outline {kind : ShapeKind} {shape : Members R} {modifiers : Modifiers (Members R)}
    {clock : Clock R} {element : Element R} (hkind : kind.isGeometry = true)
    (returned : outlineElement kind shape modifiers clock = .ok element) :
    element.children? = none ∧ element.Part [element] := by
  obtain ⟨htype, childless, written⟩ := outlineElement_written hkind returned
  refine ⟨childless, .leaf ?_ childless (htype ▸ written)⟩
  rw [htype]
  revert hkind
  cases kind <;> decide

theorem part_solid {layer : Members R} {rect : Element R} (returned : solidRect layer = .ok rect) :
    rect.children? = none ∧ rect.Part [rect] := by
  obtain ⟨htype, childless, written⟩ := solidRect_written returned
  refine ⟨childless, .leaf ?_ childless (htype ▸ written)⟩
  rw [htype]
  decide

/-- What lies below a group keeps being a part where the group is. -/
theorem part_of_children {children forest : List (Element R)}
    (h : ∀ child ∈ children, ∀ part ∈ child.all, part.Part child.all)
    (hforest : allOf children ⊆ forest) : ∀ part ∈ allOf children, part.Part forest := by
  intro part hpart
  rw [allOf_eq_flatMap] at hpart hforest
  obtain ⟨child, hchild, hpart⟩ := List.mem_flatMap.mp hpart
  refine (h child hchild part hpart).mono fun other hother => hforest ?_
  exact List.mem_flatMap.mpr ⟨child, hchild, hother⟩

/-- Every part of an element that was made is one of those that a scene has; the induction
is on how the element was made. -/
theorem Made.part {element : Element R} (made : Made root element) :
    ∀ part ∈ element.all, part.Part element.all := by
  induction made with
  | outline shifts hkind returned =>
      obtain ⟨childless, hpart⟩ := part_outline hkind returned
      rw [all_of_childless childless]
      exact List.forall_mem_singleton.mpr hpart
  | solid returned =>
      obtain ⟨childless, hpart⟩ := part_solid returned
      rw [all_of_childless childless]
      exact List.forall_mem_singleton.mpr hpart
  | @group clock children more name? transform placed pivoted shifts hplaced hpivoted _ ih =>
      obtain ⟨body, written, rfl⟩ := eq_of_withTransform hplaced
      rcases pivot_cases hpivoted with ⟨hfree, rfl⟩ | ⟨-, wrapper, moved, hsplit, rfl⟩
      · -- a group that has no anchor to move
        let inner : Element R := ⟨.group, body.withoutAnchor, some (children ++ more), name?⟩
        have hall : inner.all = inner :: allOf (children ++ more) := all_eq_cons inner
        show ∀ part ∈ inner.all, part.Part inner.all
        rw [hall]
        refine List.forall_mem_cons.mpr ⟨?_, part_of_children ih (List.subset_cons_self ..)⟩
        exact .group rfl rfl (withoutAnchor_written written hfree)
      · -- a wrapper that keeps the transform, around the group that moves by the anchor
        let inner : Element R := ⟨.group, moved, some (children ++ more), name?⟩
        let outer : Element R := ⟨.group, wrapper, some [inner], none⟩
        have hall : outer.all = outer :: inner :: allOf (children ++ more) := by
          rw [all_eq_cons outer]
          show outer :: allOf [inner] = _
          rw [allOf, allOf, List.append_nil, all_eq_cons inner]
          rfl
        show ∀ part ∈ outer.all, part.Part outer.all
        rw [hall]
        refine List.forall_mem_cons.mpr ⟨.group rfl rfl (splitAtAnchor_written written hsplit),
          List.forall_mem_cons.mpr ⟨?_, part_of_children ih ?_⟩⟩
        · exact .inner rfl rfl written List.mem_cons_self ⟨rfl, hsplit⟩
        · exact fun part h => List.mem_cons_of_mem _ (List.mem_cons_of_mem _ h)

end MotionScene
