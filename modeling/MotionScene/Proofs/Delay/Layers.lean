import MotionScene.Layer.Compile
import MotionScene.Proofs.Delay.Shape

/-!
# Later compositions

A layer list whose clock starts some frames later has the scene of the list whose keyframes
are that much later, and a chain of precompositions delays its innermost keyframes by the
sum of its start offsets (`assembleLayers_later_clock`).  The recursion follows the
document: each precomposition puts its own start onto the clock or onto its keyframes.
-/

namespace MotionScene

variable {clock : Clock ℝ} {frames : Number ℝ} {starts : Members ℝ → Option (Number ℝ)}

/-! ## Layers -/

theorem layerKind_movedMembers (start? : Option (Number ℝ)) (layer : Members ℝ) :
    LayerKind.ofCode ((movedMembers starts frames start? layer).get "ty") =
      LayerKind.ofCode (layer.get "ty") := by
  rw [get_movedMembers_of_plain (by decide)]

theorem solidRect_moved (start? : Option (Number ℝ)) (layer : Members ℝ) :
    solidRect (movedMembers starts frames start? layer) = solidRect layer := by
  have hsw : "sw" ∈ plainKeys := by decide
  have hsh : "sh" ∈ plainKeys := by decide
  have hsc : "sc" ∈ plainKeys := by decide
  simp only [solidRect, get_movedMembers_of_plain hsw, get_movedMembers_of_plain hsh,
    get_movedMembers_of_plain hsc]

theorem finishLayer_moved (start? : Option (Number ℝ)) (layer : Members ℝ)
    (children : List (Element ℝ)) :
    finishLayer (movedMembers starts frames start? layer) children clock =
      finishLayer layer children (clock.later frames) := by
  rw [finishLayer, nameOf_moved, get_movedMembers (by decide), withTransform_moved, finishLayer]
  rfl

theorem register_moved (start? : Option (Number ℝ)) (before : List (BuiltLayer ℝ))
    (pivoted : Pivoted ℝ) (layer : Members ℝ) :
    register before pivoted (movedMembers starts frames start? layer) =
      register before pivoted layer := by
  rw [register, get_movedMembers_of_plain (by decide), get_movedMembers_of_plain (by decide),
    register]

/-! ## Start offsets -/

/-- Starts that are taken up are the start offsets of the layers. -/
def TakesUpStarts (starts : Members ℝ → Option (Number ℝ)) : Prop :=
  ∀ layer start, starts layer = some start → startOf? layer = some start

theorem nestedClock_eq (layer : Members ℝ) (clock : Clock ℝ) : nestedClock layer clock =
    match ((layer.get "st").orElse (.num (.whole 0))).quantity? with
    | some start => .ok (clock.later start)
    | none => .error .wrongKind := by
  unfold nestedClock
  cases ((layer.get "st").orElse (.num (.whole 0))).quantity? with
  | none => rfl
  | some start => exact clock.shifted_eq start

/-- A start offset moves the nested clock, or it is taken up and moves the nested layers. -/
theorem nestedClock_moved (takesUp : TakesUpStarts starts) {layer : Members ℝ}
    (hprecomp : LayerKind.ofCode (layer.get "ty") = .precomp) :
    nestedClock layer (clock.later frames) =
      (nestedClock (movedMembers starts frames (starts layer) layer) clock).map
        (Clock.later · (frames.plus ((starts layer).getD (.whole 0)))) := by
  rw [nestedClock_eq, nestedClock_eq]
  cases hstarts : starts layer with
  | none =>
      -- the start stays on the clock, and the delay is put onto it
      have hstart : (movedMembers starts frames none layer).get "st" =
          (layer.get "st").moved starts frames := by
        rw [Members.get, get?_movedMembers, Members.get]
        cases layer.get? "st" <;> rfl
      rw [hstart, Value.quantity?_orElse_moved, Option.getD_none, Number.plus_zero]
      cases ((layer.get "st").orElse (.num (.whole 0))).quantity? with
      | none => rfl
      | some start =>
          refine congrArg Except.ok ?_
          show (clock.later frames).later start = (clock.later start).later frames
          rw [Clock.later_later, Clock.later_later, Number.plus_comm]
  | some start =>
      -- the clock starts at once, and what is inside is later by the start as well
      have hquantity := takesUp layer start hstarts
      rw [startOf?, if_pos hprecomp] at hquantity
      have hzero : (((movedMembers starts frames (some start) layer).get "st").orElse
          (.num (.whole 0))).quantity? = some (.whole 0) := by
        rw [Members.get, get?_movedMembers]
        cases layer.get? "st" <;> rfl
      rw [hquantity, hzero, Option.getD_some]
      refine congrArg Except.ok ?_
      show (clock.later frames).later start = (clock.later (.whole 0)).later (frames.plus start)
      rw [Clock.later_zero, Clock.later_later]

/-! ## Layer lists -/

mutual

theorem outcome_assembleLayers_moved (takesUp : TakesUpStarts starts) (frames : Number ℝ)
    (clock : Clock ℝ) : ∀ value : Value ℝ,
      (assembleLayers clock (value.moved starts frames)).outcome =
        (assembleLayers (clock.later frames) value).outcome
  | .list items => by
      rw [Value.moved, assembleLayers, assembleLayers]
      exact Traced.outcome_bind_congr (outcome_buildLayers_moved takesUp frames clock items)
        fun layers => rfl
  | .null | .bool _ | .num _ | .text _ | .object _ => by
      rw [Value.moved, assembleLayers, assembleLayers] <;> exact nofun
termination_by value => (sizeOf value, 0)

theorem outcome_buildLayers_moved (takesUp : TakesUpStarts starts) (frames : Number ℝ)
    (clock : Clock ℝ) : ∀ items : List (Value ℝ),
      (buildLayers clock (movedItems starts frames items)).outcome =
        (buildLayers (clock.later frames) items).outcome
  | [] => by
      rw [movedItems, buildLayers, buildLayers]
  | item :: rest => by
      rw [movedItems, buildLayers, buildLayers]
      refine Traced.outcome_bind_congr (outcome_buildLayers_moved takesUp frames clock rest)
        fun before => ?_
      cases item with
      | object members =>
          have hbuilt := outcome_buildMembers_moved takesUp frames clock members members
          refine Traced.outcome_bind_congr hbuilt fun pivoted? => ?_
          cases pivoted? with
          | none => rfl
          | some pivoted =>
              dsimp only
              rw [register_moved]
      | _ => rfl
termination_by items => (sizeOf items, 0)

theorem outcome_buildMembers_moved (takesUp : TakesUpStarts starts) (frames : Number ℝ)
    (clock : Clock ℝ) (layer : Members ℝ) : ∀ left : List (String × Value ℝ),
      (buildMembers clock (movedMembers starts frames (starts layer) layer)
        (movedMembers starts frames (starts layer) left)).outcome =
          (buildMembers (clock.later frames) layer left).outcome
  | left => by
      rw [buildMembers, buildMembers, layerKind_movedMembers]
      cases hkind : LayerKind.ofCode (layer.get "ty") with
      | shape =>
          dsimp only
          rw [get_movedMembers (by decide)]
          refine Traced.outcome_bind_congr (outcome_compileShapes_moved _) fun children => ?_
          rw [finishLayer_moved]
      | null =>
          dsimp only
          rw [finishLayer_moved]
      | precomp =>
          dsimp only
          rw [nestedClock_moved takesUp hkind]
          cases nestedClock (movedMembers starts frames (starts layer) layer) clock with
          | error fault => rfl
          | ok inner =>
              have hnested := outcome_assembleNested_moved takesUp frames (starts layer) inner left
              show (assembleNested inner _ >>= _).outcome =
                (assembleNested (inner.later _) left >>= _).outcome
              refine Traced.outcome_bind_congr hnested fun children => ?_
              rw [finishLayer_moved]
      | solid =>
          dsimp only
          rw [solidRect_moved]
          refine Traced.outcome_bind_congr rfl fun rect => ?_
          rw [finishLayer_moved]
      | image | text | unknown => rfl
termination_by left => (sizeOf left, 1)

theorem outcome_assembleNested_moved (takesUp : TakesUpStarts starts) (frames : Number ℝ)
    (start? : Option (Number ℝ)) (clock : Clock ℝ) : ∀ members : List (String × Value ℝ),
      (assembleNested clock (movedMembers starts frames start? members)).outcome =
        (assembleNested (clock.later (frames.plus (start?.getD (.whole 0)))) members).outcome
  | [] => by
      rw [movedMembers, assembleNested, assembleNested]
  | (key, value) :: rest => by
      rw [movedMembers, assembleNested, assembleNested]
      split
      · rename_i hkey
        subst hkey
        exact outcome_assembleLayers_moved takesUp (frames.plus (start?.getD (.whole 0))) clock value
      · exact outcome_assembleNested_moved takesUp frames start? clock rest
termination_by members => (sizeOf members, 0)

end

/-- **Starting a composition later delays its keyframes.**  Under a clock that starts some
frames later a layer list has the scene of the list with every keyframe that much later;
and its own scene is that of the list in which all precompositions start at once and every
keyframe is later by the sum of the start offsets around it. -/
theorem assembleLayers_later_clock (clock : Clock ℝ) (frames : Number ℝ) (layers : Value ℝ) :
    (∃ later, clock.shifted frames = .ok later ∧
      (assembleLayers later layers).outcome =
        (assembleLayers clock (layers.delayed frames)).outcome) ∧
    (assembleLayers clock layers).outcome =
      (assembleLayers clock layers.withoutStarts).outcome := by
  refine ⟨⟨clock.later frames, clock.shifted_eq frames, ?_⟩, ?_⟩
  · have hnone : TakesUpStarts fun _ => none := fun _ _ h => nomatch h
    exact (outcome_assembleLayers_moved hnone frames clock layers).symm
  · have hall : TakesUpStarts startOf? := fun _ _ h => h
    rw [Value.withoutStarts, outcome_assembleLayers_moved hall, Clock.later_zero]

end MotionScene
