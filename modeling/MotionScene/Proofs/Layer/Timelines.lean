import MotionScene.Proofs.Element.Forest
import MotionScene.Proofs.Layer.Made
import MotionScene.Proofs.Shape.Bodies

/-!
# Timelines of layer lists

However precompositions and groups are nested and layers moved, all timelines of an
assembled layer list are built with its clock or with one whose frames start later
(`assembleLayers_carries`).
-/

namespace MotionScene

open Element

variable {R : Type} [Scalar R] {root clock : Clock R} {good : Timeline R → Prop}

theorem solidRect_carries {layer : Members R} {rect : Element R}
    (returned : solidRect layer = .ok rect) : rect.Carries good := by
  obtain ⟨cx, -, hrest⟩ := bind_eq_ok.mp returned
  obtain ⟨cy, -, hpure⟩ := bind_eq_ok.mp hrest
  obtain rfl := pure_eq_ok.mp hpure
  exact carries_leaf _ _ _

/-- The induction is on how the element was made. -/
theorem Made.carries (kept : Kept root good) {element : Element R} (made : Made root element) :
    element.Carries good := by
  induction made with
  | outline shifts hkind returned =>
      obtain ⟨hbody, hchildren⟩ := outlineElement_carries kept shifts returned
      refine carries_iff.mpr ⟨hbody, ?_⟩
      rw [Element.children, hchildren]
      exact carryAll_nil
  | solid returned => exact solidRect_carries returned
  | @group clock children more name? transform placed pivoted shifts hplaced hpivoted _ ih =>
      obtain ⟨hchildren, hmore⟩ := List.forall_mem_append.mp ih
      have hgroup := carries_group (carryAll_iff.mpr hchildren) name?
      obtain ⟨hbody, hkeeps⟩ :=
        withTransform_carries kept shifts (carries_iff.mp hgroup).1 hplaced
      have hpivoted := (hgroup.of_body hbody hkeeps).pivot kept hpivoted
      exact (hpivoted.adopt (carryAll_iff.mpr hmore)).outer

theorem assembleLayers_carries (kept : Kept root good) (shifts : root.Shifts clock)
    (value : Value R) {elements : List (Element R)}
    (returned : (assembleLayers clock value).outcome = .ok elements) : CarryAll good elements :=
  carryAll_iff.mpr fun element h => (assembleLayers_made shifts value returned element h).carries kept

end MotionScene
