import MotionScene.Element.Transform
import MotionScene.Proofs.Delay.Document
import MotionScene.Shape.Outline

/-!
# Properties with later keyframes

A timeline reads the frames of its keyframes through the clock only, so keyframes that are
some frames later leave under a clock what the keyframes themselves leave under the later
clock (`buildTimeline_delayed`).  Whatever a property writes onto a body, it writes the
same when it has been moved (`resolve_moved`, `resolveColor_moved`, `pathBody_moved`).
-/

namespace MotionScene

variable {clock : Clock ℝ} {frames : Number ℝ} {starts : Members ℝ → Option (Number ℝ)}

/-! ## Source keyframes -/

/-- Members that differ by their frame only. -/
def DifferInFrame (members other : Members ℝ) : Prop :=
  ∀ key, key ≠ "t" → other.get key = members.get key

/-- A source keyframe some frames later. -/
noncomputable def SourceKeyframe.delayed (frames : Number ℝ) (source : SourceKeyframe ℝ) :
    SourceKeyframe ℝ :=
  ⟨source.members.set "t" (.num (source.frame.plus frames)), source.frame.plus frames⟩

theorem SourceKeyframe.differ_delayed (frames : Number ℝ) (source : SourceKeyframe ℝ) :
    DifferInFrame source.members (source.delayed frames).members :=
  fun _ hkey => Members.get_set_of_ne _ _ hkey.symm

theorem ofValue?_delayKeyframe (value : Value ℝ) :
    SourceKeyframe.ofValue? (value.delayKeyframe frames) =
      (SourceKeyframe.ofValue? value).map (SourceKeyframe.delayed frames) := by
  cases value with
  | object members =>
      rw [Value.delayKeyframe, SourceKeyframe.ofValue?]
      cases hframe : Members.get members "t" with
      | num frame =>
          dsimp only
          rw [SourceKeyframe.ofValue?, Members.get_set_self]
          rfl
      | _ =>
          dsimp only
          rw [SourceKeyframe.ofValue?, hframe]
          rfl
  | _ => rfl

/-! ## Steps of building a timeline -/

theorem easing_of_differ {previous next other later : Members ℝ}
    (hprevious : DifferInFrame previous other) (hnext : DifferInFrame next later) (axis : Int) :
    easing other (some later) axis = easing previous (some next) axis := by
  have hcoordinates : easingCoordinates other (some later) axis =
      easingCoordinates previous (some next) axis := by
    unfold easingCoordinates
    rw [hprevious "i" (by decide), hprevious "o" (by decide)]
    cases previous.get "i" with
    | null =>
        dsimp only
        rw [hnext "i" (by decide)]
    | _ => rfl
  rw [easing, easing, hcoordinates]

/-- The same progress, where the source keyframe just before may have another frame. -/
inductive Progress.Alike : Progress ℝ → Progress ℝ → Prop
  | first (value : Value ℝ) (patch? : Option (Members ℝ)) (percent : ℝ) :
      Alike ⟨none, value, patch?, percent⟩ ⟨none, value, patch?, percent⟩
  | after {previous other : Members ℝ} (differ : DifferInFrame previous other) (value : Value ℝ)
      (patch? : Option (Members ℝ)) (percent : ℝ) :
      Alike ⟨some previous, value, patch?, percent⟩ ⟨some other, value, patch?, percent⟩

namespace Progress.Alike

variable {progress other : Progress ℝ} (alike : progress.Alike other)

include alike

theorem patch : other.patch? = progress.patch? := by
  cases alike <;> rfl

theorem percent : other.percent = progress.percent := by
  cases alike <;> rfl

theorem isHeld : other.isHeld = progress.isHeld := by
  unfold Progress.isHeld
  cases alike with
  | first => rfl
  | after hdiffer =>
      dsimp only
      rw [hdiffer "h" (by decide)]

theorem repeated (percent : ℝ) : other.repeated percent = progress.repeated percent := by
  rw [Progress.repeated, Progress.repeated, alike.isHeld, alike.patch]

theorem startValue {members delayed : Members ℝ} (differ : DifferInFrame members delayed) :
    other.startValue delayed = progress.startValue members := by
  unfold Progress.startValue
  rw [differ "s" (by decide)]
  cases alike with
  | first => rfl
  | after hdiffer =>
      dsimp only
      rw [hdiffer "e" (by decide)]

theorem arrival {members delayed : Members ℝ} (differ : DifferInFrame members delayed)
    (axis : Int) : other.arrival delayed axis = progress.arrival members axis := by
  unfold Progress.arrival
  rw [alike.isHeld]
  cases progress.isHeld with
  | true => rfl
  | false =>
      cases alike with
      | first => rfl
      | after hdiffer => exact easing_of_differ hdiffer differ axis

end Progress.Alike

/-- Later source keyframes leave what the source keyframes leave under the later clock; the
induction is on the source keyframes. -/
theorem emitKeyframes_delayed {rule : PatchRule ℝ} {axis : Int} {progress other : Progress ℝ}
    (alike : progress.Alike other) (sources : List (SourceKeyframe ℝ)) :
    emitKeyframes clock rule axis other (sources.map (SourceKeyframe.delayed frames)) =
      emitKeyframes (clock.later frames) rule axis progress sources := by
  induction sources generalizing progress other with
  | nil => rfl
  | cons source rest ih =>
      have hdiffer := source.differ_delayed frames
      have hpercent : clock.percent (source.delayed frames).frame =
          (clock.later frames).percent source.frame := (clock.percent_later frames _).symm
      rw [List.map_cons, emitKeyframes, emitKeyframes, alike.startValue hdiffer, hpercent,
        alike.percent]
      refine bind_congr fun patch? => bind_congr fun percent => ?_
      cases patch? with
      | none =>
          rw [alike.patch]
          exact ih (.after hdiffer _ _ _)
      | some patch =>
          dsimp only
          rw [alike.arrival hdiffer, alike.repeated]
          refine bind_congr fun arrival => ?_
          rw [ih (.after hdiffer _ _ _)]

/-- Later keyframes build the timeline that the keyframes build under the later clock. -/
theorem buildTimeline_delayed (keyframes : List (Value ℝ)) (rule : PatchRule ℝ) (axis : Int) :
    buildTimeline (keyframes.map (Value.delayKeyframe frames)) rule clock axis =
      buildTimeline keyframes rule (clock.later frames) axis := by
  have hsources : (keyframes.map (Value.delayKeyframe frames)).filterMap SourceKeyframe.ofValue? =
      (keyframes.filterMap SourceKeyframe.ofValue?).map (SourceKeyframe.delayed frames) := by
    rw [List.filterMap_map, List.map_filterMap]
    exact List.filterMap_congr fun value _ => ofValue?_delayKeyframe value
  have hstart : Progress.Alike .start .start := .first _ _ _
  rw [buildTimeline, buildTimeline, hsources, emitKeyframes_delayed hstart]
  rfl

/-! ## Contents of properties -/

namespace Value

theorem listKind_delayKeyframe (first : Value ℝ) :
    (first.delayKeyframe frames).listKind = first.listKind := by
  cases first with
  | object members =>
      rw [delayKeyframe]
      cases hframe : Members.get members "t" with
      | num frame =>
          dsimp only
          have hhas : Members.has members "t" = true := by
            cases hget : Members.get? members "t" with
            | none => simp [Members.get, hget] at hframe
            | some value => rw [Members.has, hget, Option.isSome_some]
          rw [listKind, listKind, Members.has, Members.get?_set_self, hhas,
            Members.get_set_of_ne _ _ (by decide), Option.isSome_some]
      | _ => rfl
  | _ => rfl

theorem content_moved (property : Value ℝ) :
    (property.moved starts frames).content = property.content.delayKeyframes frames := by
  cases property with
  | object members => exact get_content_movedMembers _ members
  | _ => rfl

theorem propertyKind_moved (property : Value ℝ) :
    (property.moved starts frames).propertyKind = property.propertyKind := by
  rw [propertyKind, content_moved, propertyKind]
  cases property.content with
  | list items =>
      cases items with
      | nil => rfl
      | cons first rest => exact listKind_delayKeyframe first
  | _ => rfl

theorem number?_delayKeyframe (value : Value ℝ) :
    (value.delayKeyframe frames).number? = value.number? := by
  cases value with
  | object members =>
      rw [delayKeyframe]
      split <;> rfl
  | _ => rfl

theorem component_delayKeyframes (axis : Int) (content : Value ℝ) :
    (content.delayKeyframes frames).component axis = content.component axis := by
  cases content with
  | list items =>
      have hitem : (itemAt (items.map (delayKeyframe frames)) axis).map number? =
          (itemAt items axis).map number? := by
        unfold itemAt
        dsimp only
        rw [List.length_map]
        generalize (if axis < 0 then axis + items.length else axis) = index
        rw [List.getElem?_map]
        split
        · rfl
        · cases items[index.toNat]? with
          | none => rfl
          | some item => exact congrArg Except.ok (number?_delayKeyframe item)
      rw [delayKeyframes, component, component, List.length_map, hitem]
  | _ => rfl

theorem firstStart_delayKeyframes (content : Value ℝ) :
    (content.delayKeyframes frames).firstStart = content.firstStart := by
  cases content with
  | list items =>
      cases items with
      | nil => rfl
      | cons first rest =>
          cases first with
          | object members =>
              rw [delayKeyframes, List.map_cons, delayKeyframe]
              cases Members.get members "t" with
              | num frame => exact Members.get_set_of_ne _ _ (by decide)
              | _ => rfl
          | _ => rfl
  | _ => rfl

theorem items_delayKeyframes (content : Value ℝ) :
    (content.delayKeyframes frames).items = content.items.map (delayKeyframe frames) := by
  cases content <;> rfl

/-- What a property holds at first does not tell when its keyframes are. -/
theorem staticOr_moved (axis : Int) (default : Number ℝ) (property : Value ℝ) :
    (property.moved starts frames).staticOr axis default = property.staticOr axis default := by
  unfold staticOr staticComponent
  rw [propertyKind_moved, content_moved, component_delayKeyframes, firstStart_delayKeyframes]

theorem colorText_delayKeyframes (content : Value ℝ) :
    colorText (content.delayKeyframes frames) = colorText content := by
  simp only [colorText, componentOr, component_delayKeyframes]

end Value

/-! ## Written properties -/

theorem writeAxes_delayKeyframes (content : Value ℝ) (target : String) (conversion : Conversion)
    (axis : Nat) (axes : List String) (attributes : Members ℝ) :
    writeAxes (content.delayKeyframes frames) target conversion axis axes attributes =
      writeAxes content target conversion axis axes attributes := by
  induction axes generalizing axis attributes with
  | nil => rfl
  | cons name rest ih => simp only [writeAxes, Value.component_delayKeyframes, ih]

theorem axisTimelines_delayed (keyframes : List (Value ℝ)) (target : String)
    (conversion : Conversion) (axis : Nat) (axes : List String) :
    axisTimelines (keyframes.map (Value.delayKeyframe frames)) target conversion clock axis axes =
      axisTimelines keyframes target conversion (clock.later frames) axis axes := by
  induction axes generalizing axis with
  | nil => rfl
  | cons name rest ih => rw [axisTimelines, axisTimelines, buildTimeline_delayed, ih]

theorem resolve_moved (property : Value ℝ) (target : String) (axes : List String)
    (conversion : Conversion) (body : Body ℝ) :
    resolve (property.moved starts frames) target axes conversion clock body =
      resolve property target axes conversion (clock.later frames) body := by
  rw [resolve, resolve, Value.propertyKind_moved, Value.content_moved, writeAxes_delayKeyframes,
    Value.items_delayKeyframes, axisTimelines_delayed]

theorem resolveColor_moved (property : Value ℝ) (target name : String) (body : Body ℝ) :
    resolveColor (property.moved starts frames) target name clock body =
      resolveColor property target name (clock.later frames) body := by
  rw [resolveColor, resolveColor, Value.propertyKind_moved, Value.content_moved,
    Value.colorText_delayKeyframes, Value.items_delayKeyframes, buildTimeline_delayed]

theorem bezier?_delayKeyframes (content : Value ℝ) :
    bezier? (content.delayKeyframes frames) = bezier? content := by
  cases content <;> rfl

theorem pathTimeline_delayKeyframes (content : Value ℝ) :
    pathTimeline (content.delayKeyframes frames) clock =
      pathTimeline content (clock.later frames) := by
  cases content with
  | list items =>
      cases items with
      | nil => rfl
      | cons first rest =>
          cases first with
          | object members =>
              have hobject : ∃ moved, Value.delayKeyframe frames (.object members) = .object moved := by
                rw [Value.delayKeyframe]
                split <;> exact ⟨_, rfl⟩
              obtain ⟨moved, hmoved⟩ := hobject
              have hbuilt : buildTimeline ((.object members :: rest).map
                  (Value.delayKeyframe frames)) pathRule clock 0 = buildTimeline
                    (.object members :: rest) pathRule (clock.later frames) 0 :=
                buildTimeline_delayed _ pathRule 0
              rw [List.map_cons, hmoved] at hbuilt
              rw [Value.delayKeyframes, List.map_cons, hmoved]
              exact hbuilt
          | _ => rfl
  | _ => rfl

theorem pathBody_moved (property : Value ℝ) :
    pathBody (property.moved starts frames) clock = pathBody property (clock.later frames) := by
  rw [pathBody, pathBody, Value.content_moved, bezier?_delayKeyframes, pathTimeline_delayKeyframes]

/-! ## Written transforms -/

theorem isSplitPosition_moved (position : Value ℝ) :
    isSplitPosition (position.moved starts frames) = isSplitPosition position := by
  cases position with
  | object members =>
      rw [Value.moved, isSplitPosition, isSplitPosition, get_movedMembers (by decide),
        Value.holds_moved, has_movedMembers, has_movedMembers]
  | _ => rfl

theorem resolvePosition_moved (position : Value ℝ) (body : Body ℝ) :
    resolvePosition (position.moved starts frames) clock body =
      resolvePosition position (clock.later frames) body := by
  have hx : movesAlong "x" := by decide
  have hy : movesAlong "y" := by decide
  simp only [resolvePosition, isSplitPosition_moved, Value.get_members_moved hx,
    Value.get_members_moved hy, resolve_moved]

theorem rotationOf_moved (start? : Option (Number ℝ)) (transform : Members ℝ) :
    rotationOf (movedMembers starts frames start? transform) =
      (rotationOf transform).moved starts frames := by
  rw [rotationOf, get?_movedMembers_of_movesAlong (by decide), get_movedMembers (by decide),
    rotationOf]
  cases transform.get? "r" <;> rfl

theorem composeTransform_moved (transform : Value ℝ) :
    composeTransform (transform.moved starts frames) clock =
      composeTransform transform (clock.later frames) := by
  cases transform with
  | object members =>
      rw [Value.moved, composeTransform, composeTransform, get_movedMembers (by decide),
        get_movedMembers (by decide), get_movedMembers (by decide), rotationOf_moved]
      simp only [resolvePosition_moved, resolve_moved]
  | _ => rfl

theorem withTransform_moved (element : Element ℝ) (transform : Value ℝ) :
    element.withTransform (transform.moved starts frames) clock =
      element.withTransform transform (clock.later frames) := by
  rw [Element.withTransform, Element.withTransform, composeTransform_moved]

end MotionScene
