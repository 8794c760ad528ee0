import MotionScene.Layer.Compile
import MotionScene.Proofs.Presentation.Shape

/-!
# Layer lists without their presentation

Layers are known, linked and moved by their indices, whatever they are called.  So under an
erased clock, also a later one of a nested composition, a layer list has the elements that
it has under the clock itself, erased (`outcome_assembleLayers_erase`).
-/

namespace MotionScene

variable {R : Type} [Scalar R] {erasure : Erasure} {clock : Clock R}

/-! ## Placing layers -/

def BuiltLayer.erase (erasure : Erasure) (layer : BuiltLayer R) : BuiltLayer R :=
  { layer with pivoted := layer.pivoted.erase erasure }

def PlacedLayer.erase (erasure : Erasure) (layer : PlacedLayer R) : PlacedLayer R :=
  { layer with pivoted := layer.pivoted.erase erasure }

theorem placeOf?_erase (layers : List (BuiltLayer R)) (key : LayerKey R) :
    placeOf? (layers.map (BuiltLayer.erase erasure)) key = placeOf? layers key :=
  List.findIdx?_map

theorem register_erase (before : List (BuiltLayer R)) (pivoted : Pivoted R)
    (members : Members R) :
    (register before pivoted members).outcome.map (BuiltLayer.erase erasure) =
      (register (before.map (BuiltLayer.erase erasure)) (pivoted.erase erasure) members).outcome := by
  unfold register
  dsimp only
  cases LayerKey.ofValue? (members.get "ind") with
  | error fault => rfl
  | ok key? =>
      cases key? with
      | none => rfl
      | some key =>
          show (if (placeOf? before key).isSome then _ else _ : Report R (BuiltLayer R)).outcome.map
            _ = (if (placeOf? _ key).isSome then _ else _ : Report R (BuiltLayer R)).outcome
          rw [placeOf?_erase]
          split <;> rfl

theorem linkOf_erase (layers : List (BuiltLayer R)) (layer : BuiltLayer R) :
    linkOf (layers.map (BuiltLayer.erase erasure)) (layer.erase erasure) = linkOf layers layer := by
  simp only [linkOf, placeOf?_erase]
  rfl

omit [Scalar R] in
theorem honouredParent_erase (links : List (Nat × Nat)) (layer : BuiltLayer R) (place : Nat)
    (link : ParentLink) :
    honouredParent links (layer.erase erasure) place link =
      honouredParent links layer place link := by
  cases link <;> rfl

theorem placeAll_erase (layers : List (BuiltLayer R)) :
    (placeAll layers).outcome.map (List.map (PlacedLayer.erase erasure)) =
      (placeAll (layers.map (BuiltLayer.erase erasure))).outcome := by
  have hlinks : (layers.map (BuiltLayer.erase erasure)).mapM
      (linkOf (layers.map (BuiltLayer.erase erasure))) = layers.mapM (linkOf layers) := by
    rw [List.mapM_map]
    exact congrArg (layers.mapM ·) (funext fun layer => linkOf_erase layers layer)
  unfold placeAll
  rw [hlinks]
  cases layers.mapM (linkOf layers) with
  | error fault => rfl
  | ok parents =>
      have hentries : ((layers.map (BuiltLayer.erase erasure)).zip parents).zipIdx =
          (layers.zip parents).zipIdx.map (Prod.map (Prod.map (BuiltLayer.erase erasure) id) id) := by
        rw [← List.zipIdx_map, List.zip_map_left]
      show (List.mapM _ _ : Report R _).outcome.map _ = (List.mapM _ _ : Report R _).outcome
      rw [hentries, Traced.outcome_mapM, Traced.outcome_mapM]
      refine map_mapM (fun entry => ?_) _
      obtain ⟨⟨layer, link⟩, place⟩ := entry
      show (honouredParent _ layer place link >>= _).outcome.map _ =
        (honouredParent _ (layer.erase erasure) place link >>= _).outcome
      rw [honouredParent_erase]
      refine map_outcome_bind (g := id) ?_ fun parent? => rfl
      cases (honouredParent (linksOf parents) layer place link).outcome <;> rfl

omit [Scalar R] in
theorem grow_erase (layers : List (PlacedLayer R)) (depth : Nat) (layer : PlacedLayer R) :
    grow (layers.map (PlacedLayer.erase erasure)) depth (layer.erase erasure) =
      (grow layers depth layer).erase erasure := by
  induction depth generalizing layer with
  | zero => exact outer_erase layer.pivoted
  | succ depth ih =>
      have hmoved : ((layers.map (PlacedLayer.erase erasure)).filter
          (·.movesTo (layer.erase erasure))).map
            (grow (layers.map (PlacedLayer.erase erasure)) depth) =
          Element.eraseAll erasure ((layers.filter (·.movesTo layer)).map (grow layers depth)) := by
        rw [List.filter_map, Element.eraseAll_eq_map, List.map_map, List.map_map]
        exact List.map_congr_left fun child _ => ih child
      rw [grow, grow, hmoved, ← outer_erase, ← adopt_erase]
      rfl

theorem placeLayers_erase (layers : List (BuiltLayer R)) :
    (placeLayers layers).outcome.map (Element.eraseAll erasure) =
      (placeLayers (layers.map (BuiltLayer.erase erasure))).outcome := by
  refine map_outcome_bind (placeAll_erase layers) fun placed => congrArg Except.ok ?_
  rw [growForest, growForest, List.filter_map, Element.eraseAll_eq_map, List.map_map, List.map_map,
    List.length_map]
  exact List.map_congr_left fun layer _ => (grow_erase placed _ layer).symm

/-! ## Building layers -/

theorem finishLayer_erase (layer : Members R) (children : List (Element R)) :
    (finishLayer layer children clock).map (Pivoted.erase erasure) =
      finishLayer layer (Element.eraseAll erasure children) (clock.erase erasure) := by
  have hgroup : (Element.group children (nameOf layer clock.options)).erase erasure =
      Element.group (Element.eraseAll erasure children)
        (nameOf layer (clock.erase erasure).options) := by
    rw [nameOf_erase, Element.erase_eq]
    rfl
  unfold finishLayer
  rw [← hgroup]
  exact map_bind (withTransform_erase _ _) fun placed => pivot_erase placed

theorem solidRect_erase (layer : Members R) :
    (solidRect layer).map (Element.erase erasure) = solidRect layer := by
  refine map_bind_same fun cx => map_bind_same fun cy => congrArg Except.ok ?_
  rw [Element.leaf, Element.erase, Erasure.name_none]
  rfl

theorem nestedClock_erase (layer : Members R) :
    (nestedClock layer clock).map (Clock.erase erasure) =
      nestedClock layer (clock.erase erasure) := by
  unfold nestedClock
  split
  · exact map_bind_same fun offset => rfl
  · rfl

mutual

theorem outcome_assembleLayers_erase : ∀ (clock : Clock R) (layers : Value R),
    (assembleLayers clock layers).outcome.map (Element.eraseAll erasure) =
      (assembleLayers (clock.erase erasure) layers).outcome
  | clock, .list items => by
      rw [assembleLayers, assembleLayers]
      exact map_outcome_bind (outcome_buildLayers_erase clock items) placeLayers_erase
  | clock, .null | clock, .bool _ | clock, .num _ | clock, .text _ | clock, .object _ => by
      rw [assembleLayers, assembleLayers] <;> first | rfl | exact nofun
termination_by _ value => (sizeOf value, 0)

theorem outcome_buildLayers_erase : ∀ (clock : Clock R) (items : List (Value R)),
    (buildLayers clock items).outcome.map (List.map (BuiltLayer.erase erasure)) =
      (buildLayers (clock.erase erasure) items).outcome
  | clock, [] => by
      rw [buildLayers, buildLayers]
      rfl
  | clock, item :: rest => by
      rw [buildLayers, buildLayers]
      refine map_outcome_bind (outcome_buildLayers_erase clock rest) fun before => ?_
      cases item with
      | object members =>
          refine map_outcome_bind (outcome_buildMembers_erase clock members members)
            fun pivoted? => ?_
          cases pivoted? with
          | none => rfl
          | some pivoted =>
              refine map_outcome_bind (register_erase before pivoted members) fun built => ?_
              exact congrArg Except.ok List.map_append
      | _ => rfl
termination_by _ items => (sizeOf items, 0)

theorem outcome_buildMembers_erase (clock : Clock R) (layer : Members R) :
    ∀ left : List (String × Value R),
      (buildMembers clock layer left).outcome.map (Option.map (Pivoted.erase erasure)) =
        (buildMembers (clock.erase erasure) layer left).outcome
  | left => by
      have hfinished : ∀ children : List (Element R),
          (do return some (← finishLayer layer children clock) :
            Report R (Option (Pivoted R))).outcome.map (Option.map (Pivoted.erase erasure)) =
          (do return some (← finishLayer layer (Element.eraseAll erasure children)
            (clock.erase erasure)) : Report R (Option (Pivoted R))).outcome := fun children => by
        rw [← finishLayer_erase]
        cases finishLayer layer children clock <;> rfl
      rw [buildMembers, buildMembers]
      cases LayerKind.ofCode (layer.get "ty") with
      | shape => exact map_outcome_bind (outcome_compileShapes_erase _) hfinished
      | null => exact hfinished []
      | precomp =>
          dsimp only
          refine map_outcome_bind (g := Clock.erase erasure) (nestedClock_erase layer)
            fun inner => ?_
          exact map_outcome_bind (outcome_assembleNested_erase inner left) hfinished
      | solid =>
          dsimp only
          refine map_outcome_bind (g := Element.erase erasure) (solidRect_erase layer)
            fun rect => ?_
          exact hfinished [rect]
      | image | text | unknown => rfl
termination_by left => (sizeOf left, 1)

theorem outcome_assembleNested_erase : ∀ (clock : Clock R) (members : List (String × Value R)),
    (assembleNested clock members).outcome.map (Element.eraseAll erasure) =
      (assembleNested (clock.erase erasure) members).outcome
  | clock, [] => by
      rw [assembleNested, assembleNested]
      rfl
  | clock, (key, value) :: rest => by
      rw [assembleNested, assembleNested]
      split
      · exact outcome_assembleLayers_erase clock value
      · exact outcome_assembleNested_erase clock rest
termination_by _ members => (sizeOf members, 0)

end

end MotionScene
