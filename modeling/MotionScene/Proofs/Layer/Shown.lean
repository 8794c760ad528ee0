import MotionScene.Layer.Compile
import MotionScene.Proofs.Migration.Alike

/-!
# What a scene shows of its layers

A scene shows of a layer what the kind of the layer asks for: its name and transform, the
shapes of a shape layer, the layers within a precomposition, the rectangle of a solid, and
for all of them the indices by which layers know each other.  Layer lists that agree on this
make up the same elements (`ShownAlike.of_layers`), whatever else their layers say.
-/

namespace MotionScene

variable {R : Type} [Scalar R]

/-- Two values that make up the same elements where a layer list is expected. -/
def ShownAlike (value own : Value R) : Prop :=
  ∀ clock, (assembleLayers clock own).outcome = (assembleLayers clock value).outcome

/-- Two layers that leave the same element and are known by the same indices. -/
structure BuiltAlike (layer own : Members R) : Prop where
  index : own.get "ind" = layer.get "ind"
  parent : own.get "parent" = layer.get "parent"
  built : ∀ clock, (buildMembers clock own own).outcome = (buildMembers clock layer layer).outcome

instance : IsEquiv (Members R) BuiltAlike where
  refl _ := ⟨rfl, rfl, fun _ => rfl⟩
  symm _ _ h := ⟨h.index.symm, h.parent.symm, fun clock => (h.built clock).symm⟩
  trans _ _ _ h h' := ⟨h'.index.trans h.index, h'.parent.trans h.parent,
    fun clock => (h'.built clock).trans (h.built clock)⟩

/-! ## Layers -/

/-- The members of a layer that may show, but for its shapes and the layers within it. -/
def shownKeys : List String := ["ty", "nm", "ks", "ind", "parent", "st", "sw", "sh", "sc"]

theorem assembleNested_eq (clock : Clock R) (members : Members R) :
    assembleNested clock members = assembleLayers clock (members.get "layers") := by
  induction members with
  | nil =>
      rw [assembleNested, Members.get, Members.get?, Option.getD_none, assembleLayers]
      rintro _ ⟨⟩
  | cons entry rest ih =>
      obtain ⟨key, value⟩ := entry
      rw [assembleNested, Members.get, Members.get?_cons]
      split
      · rfl
      · exact ih

/-- Layers of one kind that show the same are built alike. -/
theorem BuiltAlike.of_shown {layer own : Members R}
    (same : ∀ key ∈ shownKeys, own.get? key = layer.get? key)
    (shapes : isLayerKind .shape layer = true → own.get? "shapes" = layer.get? "shapes")
    (nested : isPrecomp layer = true → ShownAlike (layer.get "layers") (own.get "layers")) :
    BuiltAlike layer own := by
  have hget : ∀ key ∈ shownKeys, own.get key = layer.get key := fun key hkey => by
    exact Members.get_congr (same key hkey)
  refine ⟨hget _ (by decide), hget _ (by decide), fun clock => ?_⟩
  have hfinish : ∀ children : List (Element R),
      finishLayer own children clock = finishLayer layer children clock := fun children => by
    unfold finishLayer nameOf
    rw [hget "ks" (by decide), hget "nm" (by decide)]
  rw [buildMembers, buildMembers, hget "ty" (by decide)]
  split
  · rename_i hkind
    have hshapes : own.get "shapes" = layer.get "shapes" := by
      exact Members.get_congr (shapes (decide_eq_true hkind))
    rw [hshapes]
    simp only [hfinish]
  · simp only [hfinish]
  · rename_i hkind
    have hclock : nestedClock own clock = nestedClock layer clock := by
      unfold nestedClock
      rw [hget "st" (by decide)]
    simp only [hclock, hfinish, assembleNested_eq]
    refine Traced.outcome_bind_congr rfl fun inner => ?_
    exact Traced.outcome_bind_congr (nested (decide_eq_true hkind) inner) fun _ => rfl
  · have hrect : solidRect own = solidRect layer := by
      unfold solidRect
      simp only [hget "sw" (by decide), hget "sh" (by decide), hget "sc" (by decide)]
    simp only [hrect, hfinish]
  · rfl

/-! ## Layer lists -/

theorem outcome_buildLayers_congr {layers own : List (Value R)}
    (alike : List.Forall₂ (OnMembers BuiltAlike) layers own) (clock : Clock R) :
    (buildLayers clock own).outcome = (buildLayers clock layers).outcome := by
  induction alike with
  | nil => rfl
  | @cons layer other layers own hlayer _ ih =>
      rw [buildLayers, buildLayers]
      refine Traced.outcome_bind_congr ih fun before => ?_
      cases layer with
      | object members =>
          obtain ⟨built, rfl, hbuilt⟩ := hlayer
          refine Traced.outcome_bind_congr (hbuilt.built clock) fun pivoted? => ?_
          cases pivoted? with
          | none => rfl
          | some pivoted =>
              have hregister : register before pivoted built = register before pivoted members := by
                unfold register
                rw [hbuilt.index, hbuilt.parent]
              exact Traced.outcome_bind_congr (congrArg Traced.outcome hregister) fun _ => rfl
      | _ =>
          cases hlayer
          rfl

/-- Layers that are built alike, each in its place, make up the same elements. -/
theorem ShownAlike.of_layers {layers own : List (Value R)}
    (alike : List.Forall₂ (OnMembers BuiltAlike) layers own) :
    ShownAlike (.list layers) (.list own) := by
  intro clock
  rw [assembleLayers, assembleLayers]
  exact Traced.outcome_bind_congr (outcome_buildLayers_congr alike clock) fun _ => rfl

end MotionScene
