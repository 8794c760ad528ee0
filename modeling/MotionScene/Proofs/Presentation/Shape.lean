import MotionScene.Proofs.Presentation.Erasure
import MotionScene.Shape.Compile

/-!
# Shape lists without their presentation

The name of a shape goes onto its element and nowhere else, and the loop flag goes into its
timelines.  So under an erased clock a shape list has the elements that it has under the
clock itself, erased (`outcome_compileShapes_erase`).
-/

namespace MotionScene

variable {R : Type} [Scalar R] {erasure : Erasure} {clock : Clock R}

omit [Scalar R] in
theorem nameOf_erase (members : Members R) :
    nameOf members (clock.erase erasure).options = erasure.name (nameOf members clock.options) := by
  have hkeep : (clock.erase erasure).options.keepNames =
      (!erasure.names && clock.options.keepNames) := rfl
  unfold nameOf Erasure.name
  rw [hkeep]
  cases erasure.names <;> rfl

/-! ## Outlines -/

omit [Scalar R] in
theorem writeStyle_erase (name : String) (value : Value R) (body : Body R) :
    (writeStyle name value body).map (Body.erase erasure) =
      writeStyle name value (body.erase erasure) :=
  map_bind_same fun _ => rfl

theorem writeNamed_erase (name : String) (table : List String) (number : Value R)
    (body : Body R) : (writeNamed name table number body).map (Body.erase erasure) =
      writeNamed name table number (body.erase erasure) := by
  refine map_bind_same fun entry? => ?_
  cases entry? with
  | none => rfl
  | some entry => exact writeStyle_erase _ _ _

theorem pathBody_erase (property : Value R) :
    (pathBody property clock).map (Body.erase erasure) =
      pathBody property (clock.erase erasure) := by
  unfold pathBody
  split
  · rfl
  · have htimeline : (pathTimeline property.content clock).map
        (Option.map (Timeline.erase erasure)) =
          pathTimeline property.content (clock.erase erasure) := by
      unfold pathTimeline
      split
      · exact buildTimeline_erase _ _ _
      · rfl
    refine map_bind htimeline fun timeline? => ?_
    cases timeline? <;> rfl

theorem ellipseBody_erase (shape : Members R) :
    (ellipseBody shape clock).map (Body.erase erasure) =
      ellipseBody shape (clock.erase erasure) := by
  unfold ellipseBody
  exact map_bind (resolve_erase _ _ _ _ _) fun centered => resolve_erase _ _ _ _ _

theorem rectBody_erase (shape : Members R) :
    (rectBody shape clock).map (Body.erase erasure) = rectBody shape (clock.erase erasure) := by
  unfold rectBody
  refine map_bind (resolve_erase _ _ _ _ _) fun centered => ?_
  exact map_bind (resolve_erase _ _ _ _ _) fun sized => resolve_erase _ _ _ _ _

theorem geometryBody_erase (kind : ShapeKind) (shape : Members R) :
    (geometryBody kind shape clock).map (Body.erase erasure) =
      geometryBody kind shape (clock.erase erasure) := by
  unfold geometryBody
  split
  · exact pathBody_erase _
  · exact ellipseBody_erase shape
  · exact rectBody_erase shape

theorem applyFill_erase (fill : Option (Members R)) (body : Body R) :
    (applyFill fill clock body).map (Body.erase erasure) =
      applyFill fill (clock.erase erasure) (body.erase erasure) := by
  cases fill with
  | none => exact writeStyle_erase _ _ _
  | some fill => exact map_bind (resolveColor_erase _ _ _ _) fun colored => resolve_erase _ _ _ _ _

theorem applyStroke_erase (stroke : Members R) (body : Body R) :
    (applyStroke stroke clock body).map (Body.erase erasure) =
      applyStroke stroke (clock.erase erasure) (body.erase erasure) := by
  unfold applyStroke
  refine map_bind (resolveColor_erase _ _ _ _) fun colored => ?_
  refine map_bind (resolve_erase _ _ _ _ _) fun faded => ?_
  refine map_bind (resolve_erase _ _ _ _ _) fun sized => ?_
  refine map_bind (writeNamed_erase _ _ _ _) fun capped => ?_
  refine map_bind (writeNamed_erase _ _ _ _) fun joined => ?_
  dsimp only
  split
  · exact writeStyle_erase _ _ _
  · rfl

theorem applyStyle_erase (fill stroke : Option (Members R)) (body : Body R) :
    (applyStyle fill stroke clock body).map (Body.erase erasure) =
      applyStyle fill stroke (clock.erase erasure) (body.erase erasure) := by
  refine map_bind (applyFill_erase fill _) fun filled => ?_
  cases stroke with
  | none => rfl
  | some stroke => exact applyStroke_erase stroke filled

theorem applyTrim_erase (trim : Option (Members R)) (body : Body R) :
    (applyTrim trim clock body).map (Body.erase erasure) =
      applyTrim trim (clock.erase erasure) (body.erase erasure) := by
  cases trim with
  | none => rfl
  | some trim =>
      refine map_bind (resolve_erase _ _ _ _ _) fun started => ?_
      exact map_bind (resolve_erase _ _ _ _ _) fun stopped => resolve_erase _ _ _ _ _

theorem applyRepeater_erase (repeater : Option (Members R)) (body : Body R) :
    (applyRepeater repeater body).map (Body.erase erasure) =
      applyRepeater repeater (body.erase erasure) := by
  cases repeater with
  | none => rfl
  | some repeater =>
      refine map_bind_same fun copies => map_bind_same fun nearest => map_bind_same fun offset => ?_
      split
      · rfl
      · exact map_bind_same fun members => map_bind_same fun attributes => rfl

theorem outlineElement_erase (kind : ShapeKind) (shape : Members R)
    (modifiers : Modifiers (Members R)) :
    (outlineElement kind shape modifiers clock).map (Element.erase erasure) =
      outlineElement kind shape modifiers (clock.erase erasure) := by
  refine map_bind (geometryBody_erase kind shape) fun drawn => ?_
  refine map_bind (applyStyle_erase _ _ drawn) fun styled => ?_
  refine map_bind (applyTrim_erase _ styled) fun trimmed => ?_
  refine map_bind (applyRepeater_erase _ trimmed) fun repeated => congrArg Except.ok ?_
  rw [Element.erase, nameOf_erase]

/-! ## Shape lists -/

theorem groupElement_erase (shape : Members R) (items : List (Value R))
    (children : List (Element R)) :
    (groupElement shape items children clock).map (Element.erase erasure) =
      groupElement shape items (Element.eraseAll erasure children) (clock.erase erasure) := by
  have hgroup : (Element.group children (nameOf shape clock.options)).erase erasure =
      Element.group (Element.eraseAll erasure children)
        (nameOf shape (clock.erase erasure).options) := by
    rw [nameOf_erase, Element.erase_eq]
    rfl
  have hpivot : ∀ element : Element R,
      (do return (← element.pivot).outer : Except Fault (Element R)).map (Element.erase erasure) =
        do return (← (element.erase erasure).pivot).outer := fun element =>
    map_bind (pivot_erase element) fun pivoted => congrArg Except.ok (outer_erase pivoted).symm
  unfold groupElement
  rw [← hgroup]
  cases groupTransform? items with
  | none => exact hpivot (Element.group children (nameOf shape clock.options))
  | some transform => exact map_bind (withTransform_erase _ transform) hpivot

mutual

theorem outcome_compileShapes_erase : ∀ shapes : Value R,
    (compileShapes clock shapes).outcome.map (Element.eraseAll erasure) =
      (compileShapes (clock.erase erasure) shapes).outcome
  | .list items => by
      rw [compileShapes, compileShapes]
      exact outcome_compileEntries_erase items _
  | .null | .bool _ | .num _ | .text _ | .object _ => by
      rw [compileShapes, compileShapes] <;> first | rfl | exact nofun

theorem outcome_compileEntries_erase : ∀ (entries : List (Value R))
    (bound : List (Option (Modifiers (Members R)))),
    (compileEntries clock entries bound).outcome.map (Element.eraseAll erasure) =
      (compileEntries (clock.erase erasure) entries bound).outcome
  | [], bound => by
      rw [compileEntries, compileEntries]
      rfl
  | entry :: rest, bound => by
      rw [compileEntries, compileEntries]
      refine map_outcome_bind (outcome_compileEntries_erase rest _) fun later => ?_
      refine map_outcome_bind (outcome_compileEntry_erase _ entry) fun own => ?_
      exact congrArg Except.ok (Element.eraseAll_append later own)

theorem outcome_compileEntry_erase (modifiers : Modifiers (Members R)) : ∀ entry : Value R,
    (compileEntry clock modifiers entry).outcome.map (Element.eraseAll erasure) =
      (compileEntry (clock.erase erasure) modifiers entry).outcome
  | .object members => by
      have hone : ∀ x : Except Fault (Element R),
          (do return [← x] : Report R (List (Element R))).outcome.map
            (Element.eraseAll erasure) =
              (do return [← x.map (Element.erase erasure)] : Report R _).outcome := fun x => by
        cases x <;> rfl
      rw [compileEntry, compileEntry]
      split
      · rfl
      split
      · rfl
      split
      · refine map_outcome_bind (outcome_compileItems_erase members) fun children => ?_
        rw [← groupElement_erase]
        exact hone _
      split
      · rw [← outlineElement_erase]
        exact hone _
      · rfl
  | .null | .bool _ | .num _ | .text _ | .list _ => by
      rw [compileEntry, compileEntry] <;> first | rfl | exact nofun

theorem outcome_compileItems_erase : ∀ members : List (String × Value R),
    (compileItems clock members).outcome.map (Element.eraseAll erasure) =
      (compileItems (clock.erase erasure) members).outcome
  | [] => by
      rw [compileItems, compileItems]
      rfl
  | (key, value) :: rest => by
      rw [compileItems, compileItems]
      split
      · exact outcome_compileShapes_erase value
      · exact outcome_compileItems_erase rest

end

end MotionScene
