import Mathlib.Dynamics.PeriodicPts.Defs
import Mathlib.Logic.Relation
import MotionScene.Layer.Key

/-!
# Parent cycles are found

The search for a cycle stops after as many steps as there are links.  That is enough: a
cycle passes only indices that have a parent, and the shortest way back to an index passes
none of them twice (`period_le_length`).  So the search finds an index that lies on a
cycle and no other (`closesCycle_iff`).
-/

namespace MotionScene

open Function Relation

variable {κ : Type} [BEq κ] {links : List (κ × κ)}

/-- The parent of an index that is there. -/
def climb (links : List (κ × κ)) (index? : Option κ) : Option κ :=
  index?.bind (parentOf links)

@[simp] theorem climb_none : climb links none = none := rfl

@[simp] theorem climb_some (index : κ) : climb links (some index) = parentOf links index := rfl

@[simp] theorem iterate_climb_none (steps : Nat) : (climb links)^[steps] none = none :=
  iterate_fixed climb_none steps

/-- Indices that the links relate, each to its parent. -/
def ParentOf (links : List (κ × κ)) (index parent : κ) : Prop :=
  parentOf links index = some parent

theorem transGen_parentOf_iff {index target : κ} :
    TransGen (ParentOf links) index target ↔
      ∃ steps, (climb links)^[steps + 1] (some index) = some target := by
  constructor
  · intro leads
    induction leads with
    | single h => exact ⟨0, h⟩
    | @tail middle target _ h ih =>
        obtain ⟨steps, hsteps⟩ := ih
        refine ⟨steps + 1, ?_⟩
        rw [iterate_succ_apply', hsteps]
        exact h
  · rintro ⟨steps, hsteps⟩
    induction steps generalizing target with
    | zero => exact .single hsteps
    | succ steps ih =>
        rw [iterate_succ_apply'] at hsteps
        obtain ⟨middle, hmiddle, hparent⟩ := Option.bind_eq_some_iff.mp hsteps
        exact .tail (ih hmiddle) hparent

variable [LawfulBEq κ]

theorem leadsTo_iff {target : κ} {steps : Nat} {current? : Option κ} :
    leadsTo links target steps current? = true ↔
      ∃ taken < steps, (climb links)^[taken] current? = some target := by
  induction steps generalizing current? with
  | zero => cases current? <;> simp [leadsTo]
  | succ steps ih =>
      cases current? with
      | none => simp [leadsTo]
      | some current =>
          rw [leadsTo, Bool.or_eq_true, beq_iff_eq, ih]
          constructor
          · rintro (rfl | ⟨taken, htaken, hleads⟩)
            · exact ⟨0, Nat.succ_pos _, rfl⟩
            · exact ⟨taken + 1, Nat.succ_lt_succ htaken, hleads⟩
          · rintro ⟨taken, htaken, hleads⟩
            cases taken with
            | zero => exact .inl (Option.some.inj hleads)
            | succ taken => exact .inr ⟨taken, Nat.lt_of_succ_lt_succ htaken, hleads⟩

theorem mem_of_parentOf_isSome {index : κ} (h : (parentOf links index).isSome) :
    index ∈ links.map (·.1) := by
  rw [parentOf, Option.isSome_map, List.find?_isSome] at h
  obtain ⟨link, hmem, hindex⟩ := h
  exact List.mem_map.mpr ⟨link, hmem, beq_iff_eq.mp hindex⟩

/-- The shortest way back to an index has at most as many steps as there are links. -/
theorem period_le_length (index : κ) :
    minimalPeriod (climb links) (some index) ≤ links.length := by
  classical
  have hinj := iterate_injOn_Iio_minimalPeriod (f := climb links) (x := some index)
  have hmem : ∀ step < minimalPeriod (climb links) (some index),
      (climb links)^[step] (some index) ∈ (links.map fun link => some link.1).toFinset := by
    intro step hstep
    -- the way goes on to the index itself, so it does not end here
    have hreturns : (climb links)^[minimalPeriod (climb links) (some index) - (step + 1)]
        (climb links ((climb links)^[step] (some index))) = some index := by
      rw [← iterate_succ_apply' (climb links), ← iterate_add_apply,
        Nat.sub_add_cancel hstep, iterate_minimalPeriod]
    cases hpassed : (climb links)^[step] (some index) with
    | none =>
        rw [hpassed, climb_none, iterate_climb_none] at hreturns
        cases hreturns
    | some passed =>
        rw [hpassed, climb_some] at hreturns
        have hparent : (parentOf links passed).isSome := by
          cases hparent : parentOf links passed with
          | none =>
              rw [hparent, iterate_climb_none] at hreturns
              cases hreturns
          | some parent => rfl
        obtain ⟨link, hlink, rfl⟩ := List.mem_map.mp (mem_of_parentOf_isSome hparent)
        exact List.mem_toFinset.mpr (List.mem_map.mpr ⟨link, hlink, rfl⟩)
  calc minimalPeriod (climb links) (some index)
      = (Finset.range (minimalPeriod (climb links) (some index))).card :=
        (Finset.card_range _).symm
    _ ≤ (links.map fun link => some link.1).toFinset.card := by
        refine Finset.card_le_card_of_injOn _ (fun step hstep => ?_) (fun step hstep other hother =>
          hinj ?_ ?_)
        · exact hmem step (Finset.mem_range.mp hstep)
        · exact Finset.mem_range.mp hstep
        · exact Finset.mem_range.mp hother
    _ ≤ (links.map fun link => some link.1).length := List.toFinset_card_le _
    _ = links.length := List.length_map _

/-- **Parent cycles are found.**  The search reports an index exactly where following the
links from it leads back to it. -/
theorem closesCycle_iff {index : κ} :
    closesCycle links index = true ↔ TransGen (ParentOf links) index index := by
  rw [closesCycle, leadsTo_iff, transGen_parentOf_iff]
  constructor
  · rintro ⟨taken, -, hleads⟩
    exact ⟨taken, hleads⟩
  · rintro ⟨steps, hsteps⟩
    have hperiodic : some index ∈ periodicPts (climb links) :=
      mk_mem_periodicPts (Nat.succ_pos steps) hsteps
    have hpos := minimalPeriod_pos_of_mem_periodicPts hperiodic
    have hle : minimalPeriod (climb links) (some index) ≤ links.length := period_le_length index
    -- the search counts steps from the parent on
    refine ⟨minimalPeriod (climb links) (some index) - 1, by omega, ?_⟩
    rw [← climb_some, ← iterate_succ_apply, Nat.succ_eq_add_one, Nat.sub_add_cancel hpos]
    exact iterate_minimalPeriod

end MotionScene
