import MotionScene.Proofs.Element.Bodies
import MotionScene.Proofs.Layer.Building
import MotionScene.Proofs.Layer.Links

/-!
# How elements are made

Every element of an assembled layer list is an outline, the rectangle of a solid, or a
group that was given a transform and whose anchor was taken away, with elements made in the
same way below it (`assembleLayers_made`).  What holds of all compiled elements is proved by
induction on `Made`, without going through the document again.
-/

namespace MotionScene

open Element

variable {R : Type} [Scalar R] {root clock : Clock R}

/-- Elements that are compiled with a clock or with one whose frames start later.  A group
may adopt more elements after its anchor was taken away. -/
inductive Made (root : Clock R) : Element R → Prop
  | outline {clock : Clock R} {kind : ShapeKind} {shape : Members R}
      {modifiers : Modifiers (Members R)} {element : Element R} (shifts : root.Shifts clock)
      (hkind : kind.isGeometry = true)
      (returned : outlineElement kind shape modifiers clock = .ok element) : Made root element
  | solid {layer : Members R} {rect : Element R} (returned : solidRect layer = .ok rect) :
      Made root rect
  | group {clock : Clock R} {children more : List (Element R)} {name? : Option String}
      {transform : Value R} {placed : Element R} {pivoted : Pivoted R}
      (shifts : root.Shifts clock)
      (hplaced : (Element.group children name?).withTransform transform clock = .ok placed)
      (hpivoted : placed.pivot = .ok pivoted)
      (made : ∀ element ∈ children ++ more, Made root element) :
      Made root (pivoted.adopt more).outer

/-- A group whose anchor was taken away and that may adopt elements. -/
inductive Pivoted.Made (root : Clock R) : Pivoted R → Prop
  | of {clock : Clock R} {children : List (Element R)} {name? : Option String}
      {transform : Value R} {placed : Element R} {pivoted : Pivoted R}
      (shifts : root.Shifts clock)
      (hplaced : (Element.group children name?).withTransform transform clock = .ok placed)
      (hpivoted : placed.pivot = .ok pivoted)
      (made : ∀ element ∈ children, MotionScene.Made root element) : Pivoted.Made root pivoted

namespace Pivoted.Made

variable {pivoted : Pivoted R} (made : pivoted.Made root)

include made

theorem adopt {more : List (Element R)} (hmore : ∀ element ∈ more, MotionScene.Made root element) :
    MotionScene.Made root (pivoted.adopt more).outer := by
  obtain ⟨shifts, hplaced, hpivoted, hchildren⟩ := made
  exact .group shifts hplaced hpivoted (List.forall_mem_append.mpr ⟨hchildren, hmore⟩)

theorem outer : MotionScene.Made root pivoted.outer := by
  rw [← pivoted.adopt_nil]
  exact made.adopt fun _ h => nomatch h

end Pivoted.Made

/-! ## Shapes -/

theorem groupElement_made (shifts : root.Shifts clock) {shape : Members R}
    {items : List (Value R)} {children : List (Element R)} {result : Element R}
    (hchildren : ∀ element ∈ children, Made root element)
    (returned : groupElement shape items children clock = .ok result) : Made root result := by
  unfold groupElement at returned
  dsimp only at returned
  split at returned
  · obtain ⟨placed, hplaced, hrest⟩ := bind_eq_ok.mp returned
    obtain ⟨pivoted, hpivoted, hpure⟩ := bind_eq_ok.mp hrest
    obtain rfl := pure_eq_ok.mp hpure
    exact (Pivoted.Made.of shifts hplaced hpivoted hchildren).outer
  · rw [ok_bind] at returned
    obtain ⟨pivoted, hpivoted, hpure⟩ := bind_eq_ok.mp returned
    obtain rfl := pure_eq_ok.mp hpure
    -- a group without a transform has that of a value that is no object
    have hplaced : (Element.group children (nameOf shape clock.options)).withTransform .null clock =
        .ok (Element.group children (nameOf shape clock.options)) := rfl
    exact (Pivoted.Made.of shifts hplaced hpivoted hchildren).outer

mutual

theorem compileShapes_made (shifts : root.Shifts clock) :
    ∀ (value : Value R) {elements : List (Element R)},
    (compileShapes clock value).outcome = .ok elements → ∀ element ∈ elements, Made root element
  | .list items, elements, returned => by
      rw [compileShapes] at returned
      exact compileEntries_made shifts items _ returned
  | .null, elements, returned | .bool _, elements, returned | .num _, elements, returned
  | .text _, elements, returned | .object _, elements, returned => by
      cases returned
      exact fun _ h => nomatch h

theorem compileEntries_made (shifts : root.Shifts clock) :
    ∀ (entries : List (Value R)) (bound : List (Option (Modifiers (Members R))))
    {elements : List (Element R)}, (compileEntries clock entries bound).outcome = .ok elements →
      ∀ element ∈ elements, Made root element
  | [], _, elements, returned => by
      cases returned
      exact fun _ h => nomatch h
  | entry :: rest, bound, elements, returned => by
      rw [compileEntries] at returned
      obtain ⟨later, hlater, hrest⟩ := Traced.outcome_bind_eq_ok.mp returned
      obtain ⟨own, hown, hpure⟩ := Traced.outcome_bind_eq_ok.mp hrest
      cases hpure
      exact List.forall_mem_append.mpr ⟨compileEntries_made shifts rest _ hlater,
        compileEntry_made shifts entry _ hown⟩

theorem compileEntry_made (shifts : root.Shifts clock) :
    ∀ (entry : Value R) (modifiers : Modifiers (Members R)) {elements : List (Element R)},
    (compileEntry clock modifiers entry).outcome = .ok elements →
      ∀ element ∈ elements, Made root element
  | .object members, modifiers, elements, returned => by
      rw [compileEntry] at returned
      split at returned
      · cases returned
        exact fun _ h => nomatch h
      · split at returned
        · cases returned
          exact fun _ h => nomatch h
        · split at returned
          · obtain ⟨children, hchildren, hrest⟩ := Traced.outcome_bind_eq_ok.mp returned
            obtain ⟨group, hgroup, hpure⟩ := Traced.outcome_bind_eq_ok.mp hrest
            cases hpure
            have hbelow := compileItems_made shifts members hchildren
            exact List.forall_mem_singleton.mpr (groupElement_made shifts hbelow hgroup)
          · split at returned
            · rename_i hkind
              obtain ⟨outline, houtline, hpure⟩ := Traced.outcome_bind_eq_ok.mp returned
              cases hpure
              exact List.forall_mem_singleton.mpr (.outline shifts hkind houtline)
            · cases returned
              exact fun _ h => nomatch h
  | .null, _, elements, returned | .bool _, _, elements, returned | .num _, _, elements, returned
  | .text _, _, elements, returned | .list _, _, elements, returned => by
      cases returned
      exact fun _ h => nomatch h

theorem compileItems_made (shifts : root.Shifts clock) :
    ∀ (members : List (String × Value R)) {elements : List (Element R)},
    (compileItems clock members).outcome = .ok elements → ∀ element ∈ elements, Made root element
  | [], elements, returned => by
      cases returned
      exact fun _ h => nomatch h
  | (key, value) :: rest, elements, returned => by
      rw [compileItems] at returned
      split at returned
      · exact compileShapes_made shifts value returned
      · exact compileItems_made shifts rest returned

end

/-! ## Layers -/

/-- Layers that are made adopt each other; the induction is on the depth. -/
theorem grow_made {placed : List (PlacedLayer R)}
    (made : ∀ layer ∈ placed, layer.pivoted.Made root) (depth : Nat) {layer : PlacedLayer R}
    (hlayer : layer ∈ placed) : Made root (grow placed depth layer) := by
  induction depth generalizing layer with
  | zero => exact (made layer hlayer).outer
  | succ depth ih =>
      refine (made layer hlayer).adopt fun element h => ?_
      obtain ⟨child, hchild, rfl⟩ := List.mem_map.mp h
      exact ih (List.mem_of_mem_filter hchild)

theorem placeLayers_made {layers : List (BuiltLayer R)}
    (made : ∀ layer ∈ layers, layer.pivoted.Made root) {elements : List (Element R)}
    (returned : (placeLayers layers).outcome = .ok elements) :
    ∀ element ∈ elements, Made root element := by
  obtain ⟨placed, hplaced, hpure⟩ := Traced.outcome_bind_eq_ok.mp returned
  cases hpure
  obtain ⟨-, hpivoted⟩ := wellPlaced_of_placeAll hplaced
  have hmade : ∀ layer ∈ placed, layer.pivoted.Made root := by
    intro layer hlayer
    have hmem : layer.pivoted ∈ layers.map (·.pivoted) :=
      hpivoted ▸ List.mem_map_of_mem hlayer
    obtain ⟨built, hbuilt, heq⟩ := List.mem_map.mp hmem
    exact heq ▸ made built hbuilt
  intro element h
  obtain ⟨top, htop, rfl⟩ := List.mem_map.mp h
  exact grow_made hmade _ (List.mem_of_mem_filter htop)

theorem nestedClock_shifts (shifts : root.Shifts clock) {layer : Members R} {inner : Clock R}
    (returned : nestedClock layer clock = .ok inner) : root.Shifts inner := by
  unfold nestedClock at returned
  split at returned
  · exact shifts.shifted returned
  · cases returned

theorem finishLayer_made (shifts : root.Shifts clock) {layer : Members R}
    {children : List (Element R)} {pivoted : Pivoted R}
    (hchildren : ∀ element ∈ children, Made root element)
    (returned : finishLayer layer children clock = .ok pivoted) : pivoted.Made root := by
  obtain ⟨placed, hplaced, hpivoted⟩ := bind_eq_ok.mp returned
  exact .of shifts hplaced hpivoted hchildren

mutual

/-- A nested layer list has a clock that is shifted once more; the recursion follows the
document. -/
theorem assembleLayers_made {clock : Clock R} (shifts : root.Shifts clock) :
    ∀ (value : Value R) {elements : List (Element R)},
      (assembleLayers clock value).outcome = .ok elements → ∀ element ∈ elements, Made root element
  | .list items, elements, returned => by
      rw [assembleLayers] at returned
      obtain ⟨layers, hlayers, hplace⟩ := Traced.outcome_bind_eq_ok.mp returned
      exact placeLayers_made (buildLayers_made shifts items hlayers) hplace
  | .null, elements, returned | .bool _, elements, returned | .num _, elements, returned
  | .text _, elements, returned | .object _, elements, returned => by
      rw [assembleLayers] at returned
      · cases returned
        exact fun _ h => nomatch h
      · exact nofun
termination_by value => (sizeOf value, 0)

theorem buildLayers_made {clock : Clock R} (shifts : root.Shifts clock) :
    ∀ (items : List (Value R)) {layers : List (BuiltLayer R)},
      (buildLayers clock items).outcome = .ok layers → ∀ layer ∈ layers, layer.pivoted.Made root
  | [], layers, returned => by
      rw [buildLayers] at returned
      cases returned
      exact fun _ h => nomatch h
  | item :: rest, layers, returned => by
      obtain ⟨before, hbefore, hstep⟩ := buildStep_of_buildLayers returned
      have hmade := buildLayers_made shifts rest hbefore
      cases hstep with
      | skip => exact hmade
      | @add members layer hitem built registered =>
          subst hitem
          have hpivoted := buildMembers_made shifts members members built
          exact List.forall_mem_append.mpr ⟨hmade, List.forall_mem_singleton.mpr hpivoted⟩
termination_by items => (sizeOf items, 0)

theorem buildMembers_made {clock : Clock R} (shifts : root.Shifts clock) (layer : Members R) :
    ∀ (left : List (String × Value R)) {pivoted : Pivoted R},
      (buildMembers clock layer left).outcome = .ok (some pivoted) → pivoted.Made root
  | left, pivoted, returned => by
      obtain ⟨children, hcontent, hfinished⟩ := exists_content returned
      refine finishLayer_made shifts ?_ hfinished
      cases hcontent with
      | shapes hchildren => exact compileShapes_made shifts _ hchildren
      | nothing => exact fun _ h => nomatch h
      | nested hinner hchildren =>
          -- the clock goes on shifted, and is still one that the root clock shifts to
          exact assembleNested_made (nestedClock_shifts shifts hinner) left hchildren
      | solid hrect => exact List.forall_mem_singleton.mpr (.solid hrect)
termination_by left => (sizeOf left, 1)

theorem assembleNested_made {clock : Clock R} (shifts : root.Shifts clock) :
    ∀ (members : List (String × Value R)) {elements : List (Element R)},
      (assembleNested clock members).outcome = .ok elements → ∀ element ∈ elements, Made root element
  | [], elements, returned => by
      rw [assembleNested] at returned
      cases returned
      exact fun _ h => nomatch h
  | (key, value) :: rest, elements, returned => by
      rw [assembleNested] at returned
      split at returned
      · exact assembleLayers_made shifts value returned
      · exact assembleNested_made shifts rest returned
termination_by members => (sizeOf members, 0)

end

end MotionScene
