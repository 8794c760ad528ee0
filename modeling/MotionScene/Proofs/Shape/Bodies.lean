import MotionScene.Proofs.Element.Bodies

/-!
# Timelines of outlines

Geometry, fill, stroke, trim and repeater are written onto the body of an outline one
after the other; each of them adds only timelines that are built with its clock.
-/

namespace MotionScene

variable {R : Type} [Scalar R] {root clock : Clock R} {good : Timeline R → Prop}

omit [Scalar R] in
theorem writeStyle_carries {name : String} {value : Value R} {body result : Body R}
    (carries : body.Carries good) (returned : writeStyle name value body = .ok result) :
    result.Carries good := by
  obtain ⟨attributes, -, hpure⟩ := bind_eq_ok.mp returned
  obtain rfl := pure_eq_ok.mp hpure
  exact carries

theorem writeNamed_carries {name : String} {table : List String} {number : Value R}
    {body result : Body R} (carries : body.Carries good)
    (returned : writeNamed name table number body = .ok result) : result.Carries good := by
  obtain ⟨found?, -, hrest⟩ := bind_eq_ok.mp returned
  cases found? with
  | none =>
      cases hrest
      exact carries
  | some entry => exact writeStyle_carries carries hrest

theorem applyRepeater_carries {repeater : Option (Members R)} {body result : Body R}
    (carries : body.Carries good) (returned : applyRepeater repeater body = .ok result) :
    result.Carries good := by
  unfold applyRepeater at returned
  split at returned
  · cases returned
    exact carries
  · obtain ⟨number, -, hrest⟩ := bind_eq_ok.mp returned
    obtain ⟨copies, -, hrest⟩ := bind_eq_ok.mp hrest
    obtain ⟨offset, -, hrest⟩ := bind_eq_ok.mp hrest
    split at hrest
    · obtain rfl := pure_eq_ok.mp hrest
      exact carries
    · obtain ⟨members, -, hrest⟩ := bind_eq_ok.mp hrest
      obtain ⟨attributes, -, hpure⟩ := bind_eq_ok.mp hrest
      obtain rfl := pure_eq_ok.mp hpure
      exact carries

variable (kept : Kept root good) (shifts : root.Shifts clock)

include kept shifts

theorem ellipseBody_carries {shape : Members R} {result : Body R}
    (returned : ellipseBody shape clock = .ok result) : result.Carries good := by
  obtain ⟨centered, hcentered, hrest⟩ := bind_eq_ok.mp returned
  have hcarries : Body.Carries good ⟨[("shape", .object [])], []⟩ := Body.carries_empty
  have hcentered := resolve_carries kept shifts hcarries (by decide) (by decide) hcentered
  exact resolve_carries kept shifts hcentered (by decide) (by decide) hrest

theorem rectBody_carries {shape : Members R} {result : Body R}
    (returned : rectBody shape clock = .ok result) : result.Carries good := by
  obtain ⟨centered, hcentered, hrest⟩ := bind_eq_ok.mp returned
  obtain ⟨sized, hsized, hrest⟩ := bind_eq_ok.mp hrest
  have hcarries : Body.Carries good ⟨[("shape", .object [])], []⟩ := Body.carries_empty
  have hcentered := resolve_carries kept shifts hcarries (by decide) (by decide) hcentered
  have hsized := resolve_carries kept shifts hcentered (by decide) (by decide) hsized
  exact resolve_carries kept shifts hsized (by decide) (by decide) hrest

theorem geometryBody_carries {kind : ShapeKind} {shape : Members R} {result : Body R}
    (returned : geometryBody kind shape clock = .ok result) : result.Carries good := by
  unfold geometryBody at returned
  split at returned
  · exact pathBody_carries kept shifts returned
  · exact ellipseBody_carries kept shifts returned
  · exact rectBody_carries kept shifts returned

theorem applyFill_carries {fill : Option (Members R)} {body result : Body R}
    (carries : body.Carries good) (returned : applyFill fill clock body = .ok result) :
    result.Carries good := by
  unfold applyFill at returned
  split at returned
  · exact writeStyle_carries carries returned
  · obtain ⟨colored, hcolored, hrest⟩ := bind_eq_ok.mp returned
    have hcolored := resolveColor_carries kept shifts carries (by decide) (by decide) hcolored
    exact resolve_carries kept shifts hcolored (by decide) (by decide) hrest

theorem applyTrim_carries {trim : Option (Members R)} {body result : Body R}
    (carries : body.Carries good) (returned : applyTrim trim clock body = .ok result) :
    result.Carries good := by
  unfold applyTrim at returned
  split at returned
  · cases returned
    exact carries
  · obtain ⟨started, hstarted, hrest⟩ := bind_eq_ok.mp returned
    obtain ⟨ended, hended, hrest⟩ := bind_eq_ok.mp hrest
    have hstarted := resolve_carries kept shifts carries (by decide) (by decide) hstarted
    have hended := resolve_carries kept shifts hstarted (by decide) (by decide) hended
    exact resolve_carries kept shifts hended (by decide) (by decide) hrest

theorem applyStroke_carries {stroke : Members R} {body result : Body R}
    (carries : body.Carries good) (returned : applyStroke stroke clock body = .ok result) :
    result.Carries good := by
  obtain ⟨colored, hcolored, hrest⟩ := bind_eq_ok.mp returned
  obtain ⟨faded, hfaded, hrest⟩ := bind_eq_ok.mp hrest
  obtain ⟨sized, hsized, hrest⟩ := bind_eq_ok.mp hrest
  have hcolored := resolveColor_carries kept shifts carries (by decide) (by decide) hcolored
  have hfaded := resolve_carries kept shifts hcolored (by decide) (by decide) hfaded
  obtain ⟨capped, hcapped, hrest⟩ := bind_eq_ok.mp hrest
  obtain ⟨joined, hjoined, hrest⟩ := bind_eq_ok.mp hrest
  have hsized := resolve_carries kept shifts hfaded (by decide) (by decide) hsized
  have hjoined := writeNamed_carries (writeNamed_carries hsized hcapped) hjoined
  dsimp only at hrest
  split at hrest
  · exact writeStyle_carries hjoined hrest
  · obtain rfl := pure_eq_ok.mp hrest
    exact hjoined

theorem applyStyle_carries {fill stroke : Option (Members R)} {body result : Body R}
    (carries : body.Carries good) (returned : applyStyle fill stroke clock body = .ok result) :
    result.Carries good := by
  have hstyled : Body.Carries good { body with attributes := withTarget "style" body.attributes } :=
    carries
  obtain ⟨filled, hfilled, hrest⟩ := bind_eq_ok.mp returned
  have hfilled := applyFill_carries kept shifts hstyled hfilled
  cases stroke with
  | none =>
      obtain rfl := pure_eq_ok.mp hrest
      exact hfilled
  | some stroke => exact applyStroke_carries kept shifts hfilled hrest

/-- An outline has no children, and its timelines are those written onto its body. -/
theorem outlineElement_carries {kind : ShapeKind} {shape : Members R}
    {modifiers : Modifiers (Members R)} {result : Element R}
    (returned : outlineElement kind shape modifiers clock = .ok result) :
    result.body.Carries good ∧ result.children? = none := by
  obtain ⟨body, hbody, hrest⟩ := bind_eq_ok.mp returned
  obtain ⟨styled, hstyled, hrest⟩ := bind_eq_ok.mp hrest
  obtain ⟨trimmed, htrimmed, hrest⟩ := bind_eq_ok.mp hrest
  obtain ⟨repeated, hrepeated, hpure⟩ := bind_eq_ok.mp hrest
  obtain rfl := pure_eq_ok.mp hpure
  have hbody := geometryBody_carries kept shifts hbody
  have hstyled := applyStyle_carries kept shifts hbody hstyled
  have htrimmed := applyTrim_carries kept shifts hstyled htrimmed
  exact ⟨applyRepeater_carries htrimmed hrepeated, rfl⟩

end MotionScene
