import MotionScene.Layer.Compile
import MotionScene.Proofs.Outcome

/-!
# Building layers

What one layer of a list does to those that were built before it (`BuildStep`), and where
the content of a layer that leaves an element comes from (`BuiltContent`).
-/

namespace MotionScene

variable {R : Type} [Scalar R] {clock : Clock R}

/-- A layer is known under its index unless one built before it is. -/
theorem eq_of_register {before : List (BuiltLayer R)} {pivoted : Pivoted R}
    {members : Members R} {layer : BuiltLayer R}
    (returned : (register before pivoted members).outcome = .ok layer) :
    ∃ key?, LayerKey.ofValue? (members.get "ind") = .ok key? ∧
      layer = ⟨pivoted, key?.filter fun key => (placeOf? before key).isNone,
        members.get "ind", members.get "parent"⟩ := by
  obtain ⟨key?, hkey, hrest⟩ := Traced.outcome_bind_eq_ok.mp returned
  refine ⟨key?, hkey, ?_⟩
  cases key? with
  | none =>
      cases hrest
      rfl
  | some key =>
      dsimp only at hrest
      split at hrest
      · rename_i htaken
        cases hrest
        simpa [Option.filter, Option.isSome_iff_ne_none] using htaken
      · rename_i hfree
        cases hrest
        simpa [Option.filter] using hfree

theorem pivoted_register {before : List (BuiltLayer R)} {pivoted : Pivoted R}
    {members : Members R} {layer : BuiltLayer R}
    (returned : (register before pivoted members).outcome = .ok layer) :
    layer.pivoted = pivoted := by
  obtain ⟨key?, -, rfl⟩ := eq_of_register returned
  rfl

/-! ## Content -/

/-- The content of a layer, by the kind of the layer. -/
inductive BuiltContent (clock : Clock R) (layer : Members R) (left : List (String × Value R)) :
    List (Element R) → Prop
  | shapes {children : List (Element R)}
      (returned : (compileShapes clock (layer.get "shapes")).outcome = .ok children) :
      BuiltContent clock layer left children
  | nothing : BuiltContent clock layer left []
  | nested {inner : Clock R} {children : List (Element R)}
      (hinner : nestedClock layer clock = .ok inner)
      (returned : (assembleNested inner left).outcome = .ok children) :
      BuiltContent clock layer left children
  | solid {rect : Element R} (returned : solidRect layer = .ok rect) :
      BuiltContent clock layer left [rect]

theorem exists_content {layer : Members R} {left : List (String × Value R)} {pivoted : Pivoted R}
    (returned : (buildMembers clock layer left).outcome = .ok (some pivoted)) :
    ∃ children, BuiltContent clock layer left children ∧
      finishLayer layer children clock = .ok pivoted := by
  rw [buildMembers] at returned
  split at returned
  · obtain ⟨children, hchildren, hrest⟩ := Traced.outcome_bind_eq_ok.mp returned
    obtain ⟨finished, hfinished, hpure⟩ := Traced.outcome_bind_eq_ok.mp hrest
    cases hpure
    exact ⟨children, .shapes hchildren, hfinished⟩
  · obtain ⟨finished, hfinished, hpure⟩ := Traced.outcome_bind_eq_ok.mp returned
    cases hpure
    exact ⟨[], .nothing, hfinished⟩
  · obtain ⟨inner, hinner, hrest⟩ := Traced.outcome_bind_eq_ok.mp returned
    obtain ⟨children, hchildren, hrest⟩ := Traced.outcome_bind_eq_ok.mp hrest
    obtain ⟨finished, hfinished, hpure⟩ := Traced.outcome_bind_eq_ok.mp hrest
    cases hpure
    exact ⟨children, .nested hinner hchildren, hfinished⟩
  · obtain ⟨rect, hrect, hrest⟩ := Traced.outcome_bind_eq_ok.mp returned
    obtain ⟨finished, hfinished, hpure⟩ := Traced.outcome_bind_eq_ok.mp hrest
    cases hpure
    exact ⟨[rect], .solid hrect, hfinished⟩
  · obtain ⟨-, -, hrest⟩ := Traced.outcome_bind_eq_ok.mp returned
    cases hrest

theorem children?_finishLayer {layer : Members R} {children : List (Element R)}
    {pivoted : Pivoted R} (returned : finishLayer layer children clock = .ok pivoted) :
    pivoted.inner.children? = some children := by
  obtain ⟨placed, hplaced, hpivot⟩ := bind_eq_ok.mp returned
  obtain ⟨body, -, hbody⟩ := bind_eq_ok.mp hplaced
  cases hbody
  unfold Element.pivot at hpivot
  split at hpivot
  · obtain ⟨⟨wrapper, inner⟩, -, hsplit⟩ := bind_eq_ok.mp hpivot
    cases hsplit
    rfl
  · cases hpivot
    rfl

/-! ## Lists -/

/-- What one layer adds to those built before it: nothing, or itself behind them. -/
inductive BuildStep (clock : Clock R) (item : Value R) (before : List (BuiltLayer R)) :
    List (BuiltLayer R) → Prop
  | skip (nothing : (buildLayer clock item).outcome.toOption.join = none) :
      BuildStep clock item before before
  | add {members : Members R} {layer : BuiltLayer R} (hitem : item = .object members)
      (built : (buildMembers clock members members).outcome = .ok (some layer.pivoted))
      (registered : (register before layer.pivoted members).outcome = .ok layer) :
      BuildStep clock item before (before ++ [layer])

theorem buildStep_of_buildLayers {item : Value R} {rest : List (Value R)}
    {layers : List (BuiltLayer R)}
    (returned : (buildLayers clock (item :: rest)).outcome = .ok layers) :
    ∃ before, (buildLayers clock rest).outcome = .ok before ∧
      BuildStep clock item before layers := by
  rw [buildLayers] at returned
  obtain ⟨before, hbefore, hrest⟩ := Traced.outcome_bind_eq_ok.mp returned
  refine ⟨before, hbefore, ?_⟩
  cases item with
  | object members =>
      obtain ⟨left?, hleft, hrest⟩ := Traced.outcome_bind_eq_ok.mp hrest
      cases left? with
      | none =>
          cases hrest
          refine .skip ?_
          rw [buildLayer, hleft]
          rfl
      | some pivoted =>
          obtain ⟨layer, hlayer, hrest⟩ := Traced.outcome_bind_eq_ok.mp hrest
          cases hrest
          obtain rfl := pivoted_register hlayer
          exact .add rfl hleft hlayer
  | _ =>
      cases hrest
      exact .skip rfl

/-- A layer that stands alone, without an index and a parent, becomes its element. -/
theorem assembleLayers_alone {layer : Members R} {pivoted : Pivoted R}
    (built : (buildMembers clock layer layer).outcome = .ok (some pivoted))
    (nameless : layer.get "ind" = .null) (unbound : layer.get "parent" = .null) :
    (assembleLayers clock (.list [.object layer])).outcome = .ok [pivoted.outer] := by
  have hregistered : (register [] pivoted layer).outcome = .ok ⟨pivoted, none, .null, .null⟩ := by
    rw [register, nameless, unbound]
    rfl
  rw [assembleLayers, ← pivoted.adopt_nil]
  refine Traced.outcome_bind_eq_ok.mpr ⟨[⟨pivoted, none, .null, .null⟩], ?_, rfl⟩
  rw [buildLayers, buildLayers]
  refine Traced.outcome_bind_eq_ok.mpr ⟨[], rfl, Traced.outcome_bind_eq_ok.mpr ⟨_, built, ?_⟩⟩
  exact Traced.outcome_bind_eq_ok.mpr ⟨_, hregistered, rfl⟩

end MotionScene
