import MotionScene.Proofs.Fault.Shape
import MotionScene.Proofs.Layer.Building

/-!
# Layers of any kind

A layer list fails for arithmetic and for the flaws of the objects in it: for shapes, for
what a precomposition starts at and how large a solid is, for an index that cannot be looked
up, and for such a parent of a layer that is known under an index (`ends_assembleLayers`).
All other layers are built or passed over.
-/

namespace MotionScene

variable {R : Type} [Scalar R] {admitted : Fault → Prop}

/-! ## Members of layers -/

theorem isStrange_of_quantity? {value : Value R}
    (h : (value.orElse (.num (.whole 0))).quantity? = none) : value.isStrange = true := by
  rw [Value.orElse] at h
  split at h
  · rename_i hholds
    rw [Value.isStrange, hholds, h]
    rfl
  · cases h

theorem ends_ofValue {value : Value R} (h : value.isCompound = true → admitted .wrongKind) :
    Ends admitted (fun key? : Option (LayerKey R) => key?.isSome → value.isNull = false)
      (LayerKey.ofValue? value) := by
  cases value with
  | null => exact fun h => by cases h
  | list items | object members => exact h rfl
  | _ => exact fun _ => rfl

section Content

variable (arithmetic : AdmitsArithmetic R admitted) {layer : Members R} {clock : Clock R}

include arithmetic

theorem ends_solidRect (excused : Excused admitted (.object layer))
    (kind : LayerKind.ofCode (layer.get "ty") = .solid) :
    FailsOnly admitted (solidRect layer) := by
  have hwidth : (layer.get "sw").isStrange = true → admitted .wrongKind :=
    fun h => excused.own .width (by rw [Flaw.isIn, kind, h]; rfl)
  have hheight : (layer.get "sh").isStrange = true → admitted .wrongKind :=
    fun h => excused.own .height (by rw [Flaw.isIn, kind, h]; rfl)
  unfold solidRect
  refine Ends.bind (?_ : FailsOnly admitted _) fun _ _ _ =>
    Ends.bind (?_ : FailsOnly admitted _) fun _ _ _ => trivial
  · dsimp only
    split
    · exact Number.ends_divide arithmetic _ fun _ => rfl
    · rename_i hnone
      exact hwidth (isStrange_of_quantity? hnone)
  · dsimp only
    split
    · exact Number.ends_divide arithmetic _ fun _ => rfl
    · rename_i hnone
      exact hheight (isStrange_of_quantity? hnone)

theorem ends_nestedClock (runs : clock.Runs) (excused : Excused admitted (.object layer))
    (kind : LayerKind.ofCode (layer.get "ty") = .precomp) :
    Ends admitted Clock.Runs (nestedClock layer clock) := by
  unfold nestedClock
  split
  · exact Clock.ends_shifted arithmetic runs _
  · rename_i hnone
    exact excused.own .start (by rw [Flaw.isIn, kind, isStrange_of_quantity? hnone]; rfl)

theorem ends_finishLayer (runs : clock.Runs) (layer : Members R) (children : List (Element R)) :
    FailsOnly admitted (finishLayer layer children clock) :=
  (ends_withTransform arithmetic runs children _ _).bind fun _ _ placing => ends_pivot placing

end Content

/-! ## Links -/

/-- The parent of a layer that is known under an index can be looked up, or the fault is
admitted. -/
def BuiltLayer.LinkExcused (admitted : Fault → Prop) (layer : BuiltLayer R) : Prop :=
  layer.key?.isSome = true → layer.parent.isCompound = true → admitted .wrongKind

theorem ends_register {members : Members R} (excused : Excused admitted (.object members))
    (kind : (LayerKind.ofCode (members.get "ty")).leavesElement = true)
    (before : List (BuiltLayer R)) (pivoted : Pivoted R) :
    Ends admitted (BuiltLayer.LinkExcused admitted) (register before pivoted members).outcome := by
  have hindex : (members.get "ind").isCompound = true → admitted .wrongKind := by
    intro compound
    exact excused.own .index (by rw [Flaw.isIn, kind, compound]; rfl)
  have hends := ends_ofValue hindex
  refine Ends.report hends fun key? hkey hnull => ?_
  cases key? with
  | none => exact fun h => by cases h
  | some key =>
      have hparent : (members.get "parent").isCompound = true → admitted .wrongKind := by
        intro compound
        exact excused.own .parent (by rw [Flaw.isIn, kind, hnull rfl, compound]; rfl)
      dsimp only
      split
      · exact fun h => by cases h
      · exact fun _ => hparent

omit [Scalar R] in
theorem ends_honouredParent (links : List (Nat × Nat)) (layer : BuiltLayer R) (place : Nat)
    (link : ParentLink) : FailsOnly admitted (honouredParent links layer place link).outcome := by
  cases link with
  | missing | unknown => trivial
  | layer parent =>
      rw [honouredParent]
      split <;> trivial

theorem ends_placeLayers {layers : List (BuiltLayer R)}
    (excused : ∀ layer ∈ layers, layer.LinkExcused admitted) :
    FailsOnly admitted (placeLayers layers).outcome := by
  have hlink : ∀ layer ∈ layers, FailsOnly admitted (linkOf layers layer) := by
    intro layer hlayer
    unfold linkOf
    split
    · trivial
    · rename_i key hkey
      refine (ends_ofValue (excused layer hlayer (by rw [hkey]; rfl))).bind fun key? _ _ => ?_
      cases key? <;> trivial
  -- every link is looked up before the first layer is placed
  have hplace : FailsOnly admitted (placeAll layers).outcome := by
    refine Ends.report (FailsOnly.mapM hlink) fun parents _ _ => ?_
    rw [Traced.outcome_mapM]
    refine FailsOnly.mapM ?_
    rintro ⟨⟨layer, link⟩, place⟩ -
    exact (ends_honouredParent _ layer place link).report fun _ _ _ => trivial
  exact hplace.report fun _ _ _ => trivial

/-! ## Layer lists -/

mutual

/-- A layer list fails for the flaws of the objects in it and for arithmetic. -/
theorem ends_assembleLayers (arithmetic : AdmitsArithmetic R admitted) {clock : Clock R}
    (runs : clock.Runs) : ∀ value : Value R, Excused admitted value →
      FailsOnly admitted (assembleLayers clock value).outcome
  | .list items, excused => by
      rw [assembleLayers]
      exact (ends_buildLayers arithmetic runs items (Excused.list_iff.mp excused)).report
        fun layers _ hlayers => ends_placeLayers hlayers
  | .null, excused | .bool _, excused | .num _, excused | .text _, excused
  | .object _, excused => by
      rw [assembleLayers]
      · trivial
      · exact nofun
termination_by value => (sizeOf value, 0)

theorem ends_buildLayers (arithmetic : AdmitsArithmetic R admitted) {clock : Clock R}
    (runs : clock.Runs) : ∀ items : List (Value R), (∀ item ∈ items, Excused admitted item) →
      Ends admitted (fun layers => ∀ layer ∈ layers, layer.LinkExcused admitted)
        (buildLayers clock items).outcome
  | [], excused => by
      rw [buildLayers]
      exact List.forall_mem_nil _
  | item :: rest, excused => by
      obtain ⟨hitem, hrest⟩ := List.forall_mem_cons.mp excused
      rw [buildLayers]
      refine (ends_buildLayers arithmetic runs rest hrest).report fun before _ hbefore => ?_
      cases item with
      | object members =>
          refine (ends_buildMembers arithmetic runs members hitem members hitem.entries).report
            fun pivoted? _ hkind => ?_
          cases pivoted? with
          | none => exact hbefore
          | some pivoted =>
              refine (ends_register hitem (hkind rfl) before pivoted).report fun layer _ hlayer => ?_
              exact List.forall_mem_append.mpr ⟨hbefore, List.forall_mem_singleton.mpr hlayer⟩
      | _ => exact hbefore
termination_by items => (sizeOf items, 0)

theorem ends_buildMembers (arithmetic : AdmitsArithmetic R admitted) {clock : Clock R}
    (runs : clock.Runs) (layer : Members R) (excused : Excused admitted (.object layer)) :
    ∀ left : List (String × Value R), (∀ entry ∈ left, Excused admitted entry.2) →
      Ends admitted (fun pivoted? : Option (Pivoted R) => pivoted?.isSome = true →
          (LayerKind.ofCode (layer.get "ty")).leavesElement = true)
        (buildMembers clock layer left).outcome
  | left, hleft => by
      rw [buildMembers]
      have hfinish := ends_finishLayer arithmetic runs layer
      cases hkind : LayerKind.ofCode (layer.get "ty") with
      | shape =>
          refine (ends_compileShapes arithmetic runs _ (excused.get "shapes")).report
            fun children _ _ => ?_
          exact Ends.report (hfinish children) fun _ _ _ _ => rfl
      | null => exact Ends.report (hfinish []) fun _ _ _ _ => rfl
      | precomp =>
          refine Ends.report (ends_nestedClock arithmetic runs excused hkind) fun inner _ hinner => ?_
          refine (ends_assembleNested arithmetic hinner left hleft).report fun children _ _ => ?_
          exact Ends.report (hfinish children) fun _ _ _ _ => rfl
      | solid =>
          refine Ends.report (ends_solidRect arithmetic excused hkind) fun rect _ _ => ?_
          exact Ends.report (hfinish [rect]) fun _ _ _ _ => rfl
      | image | text | unknown => exact fun h => by cases h
termination_by left => (sizeOf left, 1)

theorem ends_assembleNested (arithmetic : AdmitsArithmetic R admitted) {clock : Clock R}
    (runs : clock.Runs) :
    ∀ members : List (String × Value R), (∀ entry ∈ members, Excused admitted entry.2) →
      FailsOnly admitted (assembleNested clock members).outcome
  | [], excused => by
      rw [assembleNested]
      trivial
  | (key, value) :: rest, excused => by
      obtain ⟨hvalue, hrest⟩ := List.forall_mem_cons.mp excused
      rw [assembleNested]
      split
      · exact ends_assembleLayers arithmetic runs value hvalue
      · exact ends_assembleNested arithmetic runs rest hrest
termination_by members => (sizeOf members, 0)

end

end MotionScene
