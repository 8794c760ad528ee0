import MotionScene.Proofs.Timeline.Playback
import MotionScene.Shape.Outline

/-!
# Rules set attributes

The rules that turn keyframe values into patches name attributes, never the members in
which a keyframe shows its percent and its easing.
-/

namespace MotionScene

variable {R : Type}

theorem setsAttributes_singleton {key : String} (h : key ∉ Keyframe.ownKeys) (value : Value R) :
    SetsAttributes [(key, value)] := by
  intro own hown
  rw [Members.get?_cons, if_neg, Members.get?_nil]
  rintro rfl
  exact h hown

theorem setsAttributes_underTarget {target name : String} (htarget : target ∉ Keyframe.ownKeys)
    (hname : name ∉ Keyframe.ownKeys) (value : Value R) :
    SetsAttributes (underTarget target name value) := by
  unfold underTarget
  split
  · exact setsAttributes_singleton hname value
  · exact setsAttributes_singleton htarget _

variable [Scalar R]

theorem axisRule_sets {target name : String} (htarget : target ∉ Keyframe.ownKeys)
    (hname : name ∉ Keyframe.ownKeys) (conversion : Conversion) (axis : Int) :
    (axisRule target name conversion axis : PatchRule R).Sets := by
  intro value patch h
  obtain ⟨component?, -, h⟩ := bind_eq_ok.mp h
  cases component? with
  | none => cases h
  | some n =>
      obtain ⟨converted, -, h⟩ := bind_eq_ok.mp h
      cases h
      exact setsAttributes_underTarget htarget hname _

theorem colorRule_sets {target name : String} (htarget : target ∉ Keyframe.ownKeys)
    (hname : name ∉ Keyframe.ownKeys) : (colorRule target name : PatchRule R).Sets := by
  intro value patch h
  obtain ⟨color, -, h⟩ := bind_eq_ok.mp h
  cases h
  exact setsAttributes_underTarget htarget hname _

theorem pathRule_sets : (pathRule : PatchRule R).Sets := by
  intro value patch h
  obtain ⟨bezier, -, rfl⟩ := Option.map_eq_some_iff.mp (Except.ok.inj h)
  exact setsAttributes_singleton (by decide) _

end MotionScene
