import MotionScene.Proofs.Delay.Property
import MotionScene.Proofs.Outcome
import MotionScene.Shape.Compile

/-!
# Shape lists with later keyframes

Modifiers are bound by their places and kinds, which moving a shape list leaves alone
(`bindModifiers_map`).  So a moved shape list has under a clock the elements that the list
itself has under the later clock (`outcome_compileShapes_moved`).
-/

namespace MotionScene

variable {clock : Clock ℝ} {frames : Number ℝ} {starts : Members ℝ → Option (Number ℝ)}

/-! ## Bound modifiers -/

section Binding

variable {α β : Type} (f : α → β)

/-- Modifiers with each of them changed. -/
def Modifiers.map (modifiers : Modifiers α) : Modifiers β :=
  ⟨modifiers.fill.map f, modifiers.stroke.map f, modifiers.trim.map f, modifiers.repeater.map f⟩

theorem Modifiers.map_empty : (Modifiers.empty : Modifiers α).map f = .empty := rfl

theorem Modifiers.map_put (modifiers : Modifiers α) (kind : ShapeKind) (entry : α) :
    (modifiers.put kind entry).map f = (modifiers.map f).put kind (f entry) := by
  cases kind <;> rfl

theorem Modifiers.map_orElse (first second : Modifiers α) :
    (first.orElse second).map f = (first.map f).orElse (second.map f) := by
  obtain ⟨fill, stroke, trim, repeater⟩ := first
  cases fill <;> cases stroke <;> cases trim <;> cases repeater <;> rfl

theorem following_map (entries : List (ShapeKind × α)) :
    following (entries.map (Prod.map id f)) =
      ((following entries).1.map (Modifiers.map f), (following entries).2.map f) := by
  induction entries with
  | nil => rfl
  | cons entry rest ih =>
      obtain ⟨kind, own⟩ := entry
      rw [List.map_cons, Prod.map_apply, following, ih, following, Modifiers.map_put]
      rfl

theorem preceding_map (nearest : Modifiers α) (entries : List (ShapeKind × α)) :
    preceding (nearest.map f) (entries.map (Prod.map id f)) =
      (preceding nearest entries).map (Modifiers.map f) := by
  induction entries generalizing nearest with
  | nil => rfl
  | cons entry rest ih =>
      obtain ⟨kind, own⟩ := entry
      rw [List.map_cons, Prod.map_apply, preceding, id, ← Modifiers.map_put, ih, preceding,
        List.map_cons]

theorem bindModifiers_map (entries : List (ShapeKind × α)) :
    bindModifiers (entries.map (Prod.map id f)) =
      (bindModifiers entries).map (Option.map (Modifiers.map f)) := by
  have hkinds : (entries.map (Prod.map id f)).map Prod.fst = entries.map Prod.fst := by
    rw [List.map_map]
    rfl
  have hpreceding : preceding .empty (entries.map (Prod.map id f)) =
      (preceding .empty entries).map (Modifiers.map f) := by
    rw [← preceding_map, Modifiers.map_empty]
  have hbound : List.zipWith Modifiers.orElse (following (entries.map (Prod.map id f))).1
      (preceding .empty (entries.map (Prod.map id f))) =
        (List.zipWith Modifiers.orElse (following entries).1 (preceding .empty entries)).map
          (Modifiers.map f) := by
    rw [following_map, hpreceding, List.zipWith_map, List.map_zipWith]
    congr 1
    funext first second
    exact (Modifiers.map_orElse f first second).symm
  rw [bindModifiers, bindModifiers, hkinds, hbound, List.zipWith_map_right, List.map_zipWith]
  congr 1
  funext kind modifiers
  split <;> rfl

end Binding

/-! ## Outlines -/

section Outlines

variable (start? : Option (Number ℝ))

theorem nameOf_moved (members : Members ℝ) (options : Options ℝ) :
    nameOf (movedMembers starts frames start? members) options = nameOf members options := by
  rw [nameOf, get_movedMembers_of_plain (by decide), nameOf]

theorem geometryBody_moved (kind : ShapeKind) (shape : Members ℝ) :
    geometryBody kind (movedMembers starts frames start? shape) clock =
      geometryBody kind shape (clock.later frames) := by
  have hp : movesAlong "p" := by decide
  have hs : movesAlong "s" := by decide
  have hr : movesAlong "r" := by decide
  have hks : movesAlong "ks" := by decide
  unfold geometryBody
  split
  · rw [get_movedMembers hks, pathBody_moved]
  · simp only [ellipseBody, get_movedMembers hp, get_movedMembers hs, resolve_moved]
  · simp only [rectBody, get_movedMembers hp, get_movedMembers hs, get_movedMembers hr,
      resolve_moved]

theorem applyFill_moved (fill : Option (Members ℝ)) (body : Body ℝ) :
    applyFill (fill.map fun members => movedMembers starts frames (starts members) members)
      clock body = applyFill fill (clock.later frames) body := by
  have hc : movesAlong "c" := by decide
  have ho : movesAlong "o" := by decide
  cases fill with
  | none => rfl
  | some fill =>
      simp only [Option.map_some, applyFill, get_movedMembers hc, get_movedMembers ho,
        resolve_moved, resolveColor_moved]

theorem tableName?_moved (table : List String) (number : Value ℝ) :
    tableName? table (number.moved starts frames) = tableName? table number := by
  cases number <;> rfl

theorem writeNamed_moved (name : String) (table : List String) (number : Value ℝ)
    (body : Body ℝ) : writeNamed name table (number.moved starts frames) body =
      writeNamed name table number body := by
  rw [writeNamed, tableName?_moved, writeNamed]

theorem applyStroke_moved (stroke : Members ℝ) (body : Body ℝ) :
    applyStroke (movedMembers starts frames start? stroke) clock body =
      applyStroke stroke (clock.later frames) body := by
  have hc : movesAlong "c" := by decide
  have ho : movesAlong "o" := by decide
  have hw : movesAlong "w" := by decide
  have hlc : movesAlong "lc" := by decide
  have hlj : movesAlong "lj" := by decide
  have hml : movesAlong "ml" := by decide
  simp only [applyStroke, get_movedMembers hc, get_movedMembers ho, get_movedMembers hw,
    get_movedMembers hlc, get_movedMembers hlj, get_movedMembers hml, resolve_moved,
    resolveColor_moved, writeNamed_moved, Value.quantity?_moved]
  refine bind_congr fun colored => bind_congr fun faded => bind_congr fun sized =>
    bind_congr fun capped => bind_congr fun joined => ?_
  split
  · rename_i hlimit
    rw [Value.moved_of_quantity hlimit]
  · rfl

theorem applyTrim_moved (trim : Option (Members ℝ)) (body : Body ℝ) :
    applyTrim (trim.map fun members => movedMembers starts frames (starts members) members)
      clock body = applyTrim trim (clock.later frames) body := by
  have hs : movesAlong "s" := by decide
  have he : movesAlong "e" := by decide
  have ho : movesAlong "o" := by decide
  cases trim with
  | none => rfl
  | some trim =>
      simp only [Option.map_some, applyTrim, get_movedMembers hs, get_movedMembers he,
        get_movedMembers ho, resolve_moved]

theorem repeatMembers_moved (count : Int) (offset : Number ℝ) (transform : Value ℝ) :
    repeatMembers count offset (transform.moved starts frames) =
      repeatMembers count offset transform := by
  have hp : movesAlong "p" := by decide
  have hr : movesAlong "r" := by decide
  have hs : movesAlong "s" := by decide
  have ha : movesAlong "a" := by decide
  simp only [repeatMembers, Value.get_members_moved hp, Value.get_members_moved hr,
    Value.get_members_moved hs, Value.get_members_moved ha, Value.staticOr_moved]

/-- A repeater is read at its first keyframe, wherever that stands. -/
theorem applyRepeater_moved (repeater : Option (Members ℝ)) (body : Body ℝ) :
    applyRepeater (repeater.map fun members => movedMembers starts frames (starts members) members)
      body = applyRepeater repeater body := by
  have hc : movesAlong "c" := by decide
  have ho : movesAlong "o" := by decide
  have htr : movesAlong "tr" := by decide
  cases repeater with
  | none => rfl
  | some repeater =>
      simp only [Option.map_some, applyRepeater, get_movedMembers hc, get_movedMembers ho,
        get_movedMembers htr, Value.staticOr_moved, repeatMembers_moved]

theorem outlineElement_moved (kind : ShapeKind) (shape : Members ℝ)
    (modifiers : Modifiers (Members ℝ)) :
    outlineElement kind (movedMembers starts frames start? shape)
      (modifiers.map fun members => movedMembers starts frames (starts members) members) clock =
        outlineElement kind shape modifiers (clock.later frames) := by
  have hstyle : ∀ body, applyStyle
      (modifiers.map fun members => movedMembers starts frames (starts members) members).fill
      (modifiers.map fun members => movedMembers starts frames (starts members) members).stroke
      clock body = applyStyle modifiers.fill modifiers.stroke (clock.later frames) body := by
    intro body
    obtain ⟨fill, stroke, trim, repeater⟩ := modifiers
    simp only [Modifiers.map, applyStyle, applyFill_moved]
    cases stroke with
    | none => rfl
    | some stroke => simp only [Option.map_some, applyStroke_moved]
  simp only [outlineElement, geometryBody_moved, hstyle, nameOf_moved]
  simp only [Modifiers.map, applyTrim_moved, applyRepeater_moved]
  rfl

end Outlines

/-! ## Groups -/

theorem kind_movedMembers (start? : Option (Number ℝ)) (members : Members ℝ) :
    ShapeKind.ofCode ((movedMembers starts frames start? members).get "ty") =
      ShapeKind.ofCode (members.get "ty") := by
  rw [get_movedMembers_of_plain (by decide)]

theorem ofEntry_moved (entry : Value ℝ) :
    ShapeKind.ofEntry (entry.moved starts frames) = ShapeKind.ofEntry entry := by
  cases entry with
  | object members => exact kind_movedMembers _ members
  | _ => rfl

theorem shapeEntries_moved (items : List (Value ℝ)) :
    shapeEntries (movedItems starts frames items) = (shapeEntries items).map
      (Prod.map id fun members => movedMembers starts frames (starts members) members) := by
  rw [movedItems_eq_map, shapeEntries, shapeEntries, List.map_map, List.map_map]
  refine List.map_congr_left fun entry _ => ?_
  exact Prod.ext (ofEntry_moved entry) (Value.members_moved entry)

theorem groupTransform?_moved (items : List (Value ℝ)) :
    groupTransform? (movedItems starts frames items) =
      (groupTransform? items).map (Value.moved starts frames) := by
  rw [movedItems_eq_map, groupTransform?, List.find?_map, groupTransform?]
  congr 2
  funext item
  exact congrArg (fun kind => decide (kind = ShapeKind.transform)) (ofEntry_moved item)

theorem items_moved (value : Value ℝ) :
    (value.moved starts frames).items = movedItems starts frames value.items := by
  cases value <;> rfl

theorem groupElement_moved (start? : Option (Number ℝ)) (shape : Members ℝ)
    (items : List (Value ℝ)) (children : List (Element ℝ)) :
    groupElement (movedMembers starts frames start? shape) (movedItems starts frames items)
      children clock = groupElement shape items children (clock.later frames) := by
  unfold groupElement
  rw [nameOf_moved, groupTransform?_moved]
  cases groupTransform? items with
  | none => rfl
  | some transform =>
      dsimp only [Option.map_some]
      rw [withTransform_moved]
      rfl

/-! ## Shape lists -/

mutual

theorem outcome_compileShapes_moved : ∀ value : Value ℝ,
    (compileShapes clock (value.moved starts frames)).outcome =
      (compileShapes (clock.later frames) value).outcome
  | .list items => by
      rw [Value.moved, compileShapes, compileShapes, shapeEntries_moved, bindModifiers_map]
      exact outcome_compileEntries_moved items _
  | .null | .bool _ | .num _ | .text _ | .object _ => rfl

theorem outcome_compileEntries_moved : ∀ (items : List (Value ℝ))
    (bound : List (Option (Modifiers (Members ℝ)))),
    (compileEntries clock (movedItems starts frames items) (bound.map (Option.map
      (Modifiers.map fun members => movedMembers starts frames (starts members) members)))).outcome =
        (compileEntries (clock.later frames) items bound).outcome
  | [], _ => rfl
  | entry :: rest, bound => by
      rw [movedItems, compileEntries, compileEntries]
      have hrest := outcome_compileEntries_moved rest bound.tail
      rw [List.map_tail] at hrest
      refine Traced.outcome_bind_congr hrest fun later => Traced.outcome_bind_congr ?_ fun own => rfl
      have hbound : (bound.map (Option.map (Modifiers.map fun members =>
          movedMembers starts frames (starts members) members))).head?.join.getD .empty =
            (bound.head?.join.getD .empty).map fun members =>
              movedMembers starts frames (starts members) members := by
        cases bound with
        | nil => rfl
        | cons first others => cases first <;> rfl
      rw [hbound]
      exact outcome_compileEntry_moved entry _

theorem outcome_compileEntry_moved : ∀ (entry : Value ℝ) (modifiers : Modifiers (Members ℝ)),
    (compileEntry clock (modifiers.map fun members =>
      movedMembers starts frames (starts members) members) (entry.moved starts frames)).outcome =
        (compileEntry (clock.later frames) modifiers entry).outcome
  | .object members, modifiers => by
      have hhd : movesAlong "hd" := by decide
      have hit : movesAlong "it" := by decide
      rw [Value.moved, compileEntry, compileEntry, kind_movedMembers, get_movedMembers hhd,
        Value.holds_moved, get_movedMembers hit, items_moved, outlineElement_moved]
      split
      · rfl
      · split
        · rfl
        · split
          · refine Traced.outcome_bind_congr (outcome_compileItems_moved _ members) fun children => ?_
            rw [groupElement_moved]
          · rfl
  | .null, _ | .bool _, _ | .num _, _ | .text _, _ | .list _, _ => rfl

theorem outcome_compileItems_moved (start? : Option (Number ℝ)) :
    ∀ members : List (String × Value ℝ),
    (compileItems clock (movedMembers starts frames start? members)).outcome =
      (compileItems (clock.later frames) members).outcome
  | [] => rfl
  | (key, value) :: rest => by
      rw [movedMembers, compileItems, compileItems]
      split
      · rename_i hkey
        subst hkey
        exact outcome_compileShapes_moved value
      · exact outcome_compileItems_moved start? rest

end

end MotionScene
