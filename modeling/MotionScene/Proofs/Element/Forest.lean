import MotionScene.Proofs.Element.Bodies

/-!
# Timelines of elements

A property of timelines that the body of an element and the elements below it have is one
of the whole element (`Element.carries_iff`).  Pivots and adopted children keep it.
-/

namespace MotionScene

variable {R : Type} {good : Timeline R → Prop}

namespace Element

/-- All timelines of an element and of the elements below it have a property. -/
def Carries (good : Timeline R → Prop) (element : Element R) : Prop :=
  ∀ part ∈ element.all, part.body.Carries good

/-- All timelines of a forest have a property. -/
def CarryAll (good : Timeline R → Prop) (elements : List (Element R)) : Prop :=
  ∀ part ∈ allOf elements, part.body.Carries good

theorem all_eq_cons (element : Element R) : element.all = element :: allOf element.children := by
  obtain ⟨type, body, children?, name?⟩ := element
  cases children? with
  | none => rw [all, children, Option.getD_none, allOf]
  | some children => rw [all, Element.children, Option.getD_some]

mutual

/-- What is below an element of a tree is in the tree. -/
theorem mem_all_trans : ∀ (tree : Element R) {element part : Element R}, element ∈ tree.all →
    part ∈ element.all → part ∈ tree.all
  | ⟨type, body, some children, name?⟩, element, part, h, hpart => by
      rw [all] at h
      rcases List.mem_cons.mp h with rfl | h
      · exact hpart
      · rw [all]
        exact List.mem_cons_of_mem _ (mem_allOf_trans children h hpart)
  | ⟨type, body, none, name?⟩, element, part, h, hpart => by
      rw [all] at h
      rwa [List.mem_singleton.mp h] at hpart

theorem mem_allOf_trans : ∀ (elements : List (Element R)) {element part : Element R},
    element ∈ allOf elements → part ∈ element.all → part ∈ allOf elements
  | [], element, part, h, hpart => by cases h
  | first :: rest, element, part, h, hpart => by
      rw [allOf] at h ⊢
      rcases List.mem_append.mp h with h | h
      · exact List.mem_append_left _ (mem_all_trans first h hpart)
      · exact List.mem_append_right _ (mem_allOf_trans rest h hpart)

end

theorem carries_iff {element : Element R} :
    element.Carries good ↔ element.body.Carries good ∧ CarryAll good element.children := by
  rw [Carries, all_eq_cons, List.forall_mem_cons, CarryAll]

theorem carryAll_iff {elements : List (Element R)} :
    CarryAll good elements ↔ ∀ element ∈ elements, element.Carries good := by
  rw [CarryAll, allOf_eq_flatMap, List.forall_mem_flatMap]
  rfl

theorem carryAll_nil : CarryAll good ([] : List (Element R)) := by
  intro part h
  cases h

theorem carryAll_append {first second : List (Element R)} :
    CarryAll good (first ++ second) ↔ CarryAll good first ∧ CarryAll good second := by
  rw [carryAll_iff, carryAll_iff, carryAll_iff, List.forall_mem_append]

theorem carryAll_singleton {element : Element R} :
    CarryAll good [element] ↔ element.Carries good := by
  rw [carryAll_iff, List.forall_mem_singleton]

theorem carries_group {children : List (Element R)} (h : CarryAll good children)
    (name? : Option String) : (group children name?).Carries good :=
  carries_iff.mpr ⟨Body.carries_empty, h⟩

theorem carries_leaf (type : ElementType) (attributes : Members R) (name? : Option String) :
    (leaf type attributes name?).Carries good :=
  carries_iff.mpr ⟨Body.carries_empty, carryAll_nil⟩

/-- The timelines of an element whose body changes. -/
theorem Carries.of_body {element result : Element R} (carries : element.Carries good)
    (hbody : result.body.Carries good) (hchildren : result.children? = element.children?) :
    result.Carries good := by
  refine carries_iff.mpr ⟨hbody, ?_⟩
  rw [children, hchildren]
  exact (carries_iff.mp carries).2

theorem Carries.adopt {element : Element R} (carries : element.Carries good)
    {more : List (Element R)} (hmore : CarryAll good more) : (element.adopt more).Carries good := by
  obtain ⟨hbody, hchildren⟩ := carries_iff.mp carries
  refine carries_iff.mpr ⟨hbody, ?_⟩
  obtain ⟨type, body, children?, name?⟩ := element
  cases children? with
  | none => exact carryAll_nil
  | some children => exact carryAll_append.mpr ⟨hchildren, hmore⟩

end Element

/-! ## Pivots -/

/-- All timelines of an element and of the group around it have a property. -/
structure Pivoted.Carries (good : Timeline R → Prop) (pivoted : Pivoted R) : Prop where
  wrapper : ∀ body, pivoted.wrapper? = some body → body.Carries good
  inner : pivoted.inner.Carries good

namespace Pivoted

theorem Carries.outer {pivoted : Pivoted R} (carries : pivoted.Carries good) :
    pivoted.outer.Carries good := by
  obtain ⟨wrapper?, inner⟩ := pivoted
  cases wrapper? with
  | none => exact carries.inner
  | some body =>
      refine Element.carries_iff.mpr ⟨carries.wrapper body rfl, ?_⟩
      exact Element.carryAll_singleton.mpr carries.inner

theorem Carries.adopt {pivoted : Pivoted R} (carries : pivoted.Carries good)
    {more : List (Element R)} (hmore : Element.CarryAll good more) :
    (pivoted.adopt more).Carries good :=
  ⟨carries.wrapper, carries.inner.adopt hmore⟩

end Pivoted

theorem Element.Carries.pivot [Scalar R] {root : Clock R} (kept : Kept root good)
    {element : Element R} (carries : element.Carries good) {pivoted : Pivoted R}
    (returned : element.pivot = .ok pivoted) : pivoted.Carries good := by
  unfold Element.pivot at returned
  split at returned
  · obtain ⟨⟨wrapper, inner⟩, hsplit, hpure⟩ := bind_eq_ok.mp returned
    cases hpure
    obtain ⟨hwrapper, hinner⟩ :=
      splitAtAnchor_carries kept (Element.carries_iff.mp carries).1 hsplit
    refine ⟨fun body h => ?_, carries.of_body hinner rfl⟩
    cases h
    exact hwrapper
  · cases returned
    refine ⟨fun body h => (nomatch h), carries.of_body ?_ rfl⟩
    exact (Element.carries_iff.mp carries).1

end MotionScene
