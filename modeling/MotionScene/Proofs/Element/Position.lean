import MotionScene.Element.Transform
import MotionScene.Proofs.Property.Axes
import MotionScene.Proofs.Timeline.Projected

/-!
# Joint and split positions

A position keeps both its axes in one property, or each of them in a property of its own.  The
two forms are read along different ways: a joint position is one property that is written for
two axes, a split one two properties that are written for one axis each.  A joint position that
is split (`splitPosition`) by taking its content to the one axis and to the other leaves the same
attributes and the same timelines (`composeTransform_splitPosition`).
-/

namespace MotionScene

variable {R : Type}

/-! ## Splitting a position -/

/-- The content of a property on an axis: the keyframes on the axis, or the constant. -/
def Value.contentOnAxis (axis : Nat) : Value R → Option (Value R)
  | list (object first :: rest) =>
    some (list ((object first :: rest).map (keyframeOnAxis axis)))
  | content => content.onAxis axis

/-- The property of a single axis of a property. -/
def Value.propertyOnAxis (axis : Nat) (property : Value R) : Value R :=
  object (Members.revise (contentOnAxis axis) "k" property.members)

/-- The position that keeps the two axes of a joint one in properties of their own. -/
def splitPosition (position : Value R) : Value R :=
  .object [("s", .bool true), ("x", position.propertyOnAxis 0), ("y", position.propertyOnAxis 1)]

/-- The content of a property with two axes: constants, or keyframes of which the first one
starts with a value and every one whose frame is known has numbers for both axes in the values
that it has. -/
inductive HasBothAxes : Value R → Prop
  | constants (x : Number R) (rest : List (Value R)) : HasBothAxes (.list (.num x :: rest))
  | keyframes {first : Members R} {rest : List (Value R)} (timed : first.has "t" = true)
      (start : (first.get "s").IsPair)
      (pairs : ∀ source ∈ (.object first :: rest).filterMap SourceKeyframe.ofValue?,
        source.members.HasPairs) :
      HasBothAxes (.list (.object first :: rest))

/-! ## Contents on an axis -/

theorem content_propertyOnAxis {axis : Nat} {property : Value R} {items : List (Value R)}
    (content : property.content = .list items) :
    (property.propertyOnAxis axis).content =
      ((Value.list items).contentOnAxis axis).getD .null := by
  have hmembers : property.members.get? "k" = some (.list items) := by
    refine Members.get?_of_get ?_ (by simp)
    rw [← content]
    cases property <;> rfl
  rw [Value.propertyOnAxis, Value.content, Members.get, Members.get?_revise_self, hmembers,
    Option.bind_some]

/-- A keyframe that starts with a pair starts with a number on an axis. -/
theorem listKind_keyframeOnAxis {axis : Nat} (haxis : axis < 2) {first : Members R}
    (timed : first.has "t" = true) (start : (first.get "s").IsPair) :
    ((Value.object first).keyframeOnAxis axis).listKind = .scalarKeyframes := by
  have htimed : (first.keyframeOnAxis axis).has "t" = true := by
    rw [Members.has, get?_frame_keyframeOnAxis]
    exact timed
  obtain ⟨n, hn⟩ : ∃ n, (first.keyframeOnAxis axis).get "s" = .num n := by
    obtain ⟨x, y, rest, hpair⟩ := start
    have hget := Members.get?_of_get hpair (by simp)
    rw [Members.get, get?_start_keyframeOnAxis, hget]
    obtain rfl | rfl : axis = 0 ∨ axis = 1 := by omega
    · exact ⟨x, rfl⟩
    · exact ⟨y, rfl⟩
  rw [Value.keyframeOnAxis, Value.listKind, if_pos htimed, hn]

variable [Scalar R]

/-! ## Writing a property for one axis after the other -/

theorem axisTimelines_keyframeOnAxis {axis : Nat} (haxis : axis < 2) {keyframes : List (Value R)}
    (pairs : ∀ source ∈ keyframes.filterMap SourceKeyframe.ofValue?, source.members.HasPairs)
    (target : String) (conversion : Conversion) (clock : Clock R) (name : String) :
    axisTimelines (keyframes.map (Value.keyframeOnAxis axis)) target conversion clock 0 [name] =
      axisTimelines keyframes target conversion clock axis [name] := by
  rw [axisTimelines, axisTimelines]
  exact congrArg (· >>= fun timeline? => .ok [] >>= fun later => return timeline?.toList ++ later)
    (buildTimeline_onAxis haxis pairs)

variable {property : Value R} {name : String} {conversion : Conversion} {clock : Clock R}
  {body : Body R} {axis : Nat}

/-- Constants on an axis are written as they are written for the axis. -/
theorem resolve_propertyOnAxis_constants {x : Number R} {rest : List (Value R)}
    (content : property.content = .list (.num x :: rest)) :
    resolve (property.propertyOnAxis axis) "" [name] conversion clock body = do
      let attributes ← writeAxes property.content "" conversion axis [name] body.attributes
      return { body with attributes } := by
  have hcontent : (property.propertyOnAxis axis).content =
      (((Value.num x :: rest)[axis]?.bind Value.number?).map Value.num).getD .null :=
    content_propertyOnAxis content
  rw [content, writeAxes, Value.component_list, ok_bind, resolve, Value.propertyKind, hcontent]
  cases (Value.num x :: rest)[axis]?.bind Value.number? with
  | none => rfl
  | some n => rfl

/-- Keyframes on an axis make the timeline that the keyframes make for the axis. -/
theorem resolve_propertyOnAxis_keyframes (haxis : axis < 2) {first : Members R}
    {rest : List (Value R)} (content : property.content = .list (.object first :: rest))
    (timed : first.has "t" = true) (start : (first.get "s").IsPair)
    (pairs : ∀ source ∈ (.object first :: rest).filterMap SourceKeyframe.ofValue?,
      source.members.HasPairs) :
    resolve (property.propertyOnAxis axis) "" [name] conversion clock body = do
      let timelines ← axisTimelines property.content.items "" conversion clock axis [name]
      return { body with timelines := body.timelines ++ timelines } := by
  have hcontent : (property.propertyOnAxis axis).content =
      .list ((Value.object first :: rest).map (Value.keyframeOnAxis axis)) :=
    content_propertyOnAxis content
  have hkind : (property.propertyOnAxis axis).propertyKind = .scalarKeyframes := by
    rw [Value.propertyKind, hcontent]
    exact listKind_keyframeOnAxis haxis timed start
  rw [resolve, hkind, hcontent, content]
  exact congrArg (· >>= _) (axisTimelines_keyframeOnAxis haxis pairs "" conversion clock name)

/-- A property with both axes is written like its two axes, one after the other. -/
theorem resolve_axes (joint : HasBothAxes property.content) (first second : String) :
    resolve property "" [first, second] conversion clock body =
      resolve (property.propertyOnAxis 0) "" [first] conversion clock body >>=
        resolve (property.propertyOnAxis 1) "" [second] conversion clock := by
  generalize hcontent : property.content = content at joint
  cases joint with
  | constants x rest =>
      have hkind : property.propertyKind = .vector := by
        rw [Value.propertyKind, hcontent]
        rfl
      rw [resolve_propertyOnAxis_constants hcontent, resolve, hkind]
      show writeAxes property.content "" conversion 0 [first, second] body.attributes >>= _ = _
      rw [writeAxes_cons, bind_assoc, bind_assoc]
      refine bind_congr fun attributes => ?_
      rw [pure_bind, resolve_propertyOnAxis_constants hcontent]
  | keyframes timed start pairs =>
      have hkind : property.propertyKind = .vectorKeyframes := by
        obtain ⟨x, y, later, hpair⟩ := start
        rw [Value.propertyKind, hcontent]
        dsimp only
        rw [Value.listKind, if_pos timed, hpair]
      rw [resolve_propertyOnAxis_keyframes Nat.zero_lt_two hcontent timed start pairs, resolve,
        hkind]
      show axisTimelines property.content.items "" conversion clock 0 [first, second] >>= _ = _
      rw [axisTimelines_cons, bind_assoc, bind_assoc]
      refine bind_congr fun timelines => ?_
      rw [pure_bind, resolve_propertyOnAxis_keyframes Nat.one_lt_two hcontent timed start pairs,
        bind_assoc]
      refine bind_congr fun later => ?_
      rw [pure_bind, List.append_assoc]

/-! ## Transforms -/

theorem isSplitPosition_splitPosition (position : Value R) :
    isSplitPosition (splitPosition position) = true := rfl

/-- **Split and joint positions compile alike.**  A transform whose position keeps both axes in
one property, constant or with keyframes, leaves the same attributes and the same timelines in
the same order, or the same fault, as the transform whose position is split into a property for
each axis. -/
theorem composeTransform_splitPosition (transform : Members R) (clock : Clock R)
    (joint : isSplitPosition (transform.get "p") = false)
    (axes : HasBothAxes (transform.get "p").content) :
    composeTransform (.object (transform.set "p" (splitPosition (transform.get "p")))) clock =
      composeTransform (.object transform) clock := by
  have hposition : ∀ body : Body R,
      resolvePosition (splitPosition (transform.get "p")) clock body =
        resolvePosition (transform.get "p") clock body := by
    intro body
    rw [resolvePosition, resolvePosition, joint, isSplitPosition_splitPosition]
    exact (resolve_axes axes "x" "y").symm
  have hrotation : rotationOf (transform.set "p" (splitPosition (transform.get "p"))) =
      rotationOf transform := by
    rw [rotationOf, rotationOf, Members.get?_set_of_ne _ _ (by decide),
      Members.get_set_of_ne _ _ (by decide)]
  rw [composeTransform, composeTransform, Members.get_set_self, hposition, hrotation,
    Members.get_set_of_ne _ _ (by decide), Members.get_set_of_ne _ _ (by decide)]

/-! ## A flight that is split -/

/-- A keyframe with handles of which some differ by axis and one lacks the second axis, one that
takes the end value over and keeps it, and one with a third axis. -/
def flight : Value ℝ :=
  .object [("k", .list
    [.object [("t", .num (.whole 0)), ("s", .list [.num (.whole 0), .num (.whole 4)]),
        ("e", .list [.num (.whole 10), .num (.whole 6)]),
        ("o", .object [("x", .list [.num (.whole 1), .num (.whole 0)]), ("y", .num (.whole 0))]),
        ("i", .object [("x", .num (.whole 1)), ("y", .list [.num (.whole 1)])])],
      .object [("t", .num (.whole 10)), ("h", .num (.whole 1))],
      .object [("t", .num (.whole 20)),
        ("s", .list [.num (.whole 30), .num (.whole 8), .num (.whole 5)])]])]

/-- Its two axes. -/
def splitFlight : Value ℝ :=
  .object [("s", .bool true),
    ("x", .object [("k", .list
      [.object [("t", .num (.whole 0)), ("s", .num (.whole 0)), ("e", .num (.whole 10)),
          ("o", .object [("x", .num (.whole 1)), ("y", .num (.whole 0))]),
          ("i", .object [("x", .num (.whole 1)), ("y", .num (.whole 1))])],
        .object [("t", .num (.whole 10)), ("h", .num (.whole 1))],
        .object [("t", .num (.whole 20)), ("s", .num (.whole 30))]])]),
    ("y", .object [("k", .list
      [.object [("t", .num (.whole 0)), ("s", .num (.whole 4)), ("e", .num (.whole 6)),
          ("o", .object [("x", .num (.whole 0)), ("y", .num (.whole 0))]),
          ("i", .object [("x", .num (.whole 1))])],
        .object [("t", .num (.whole 10)), ("h", .num (.whole 1))],
        .object [("t", .num (.whole 20)), ("s", .num (.whole 8))]])])]

theorem splitPosition_flight : splitPosition flight = splitFlight := by
  rfl

theorem hasBothAxes_flight : HasBothAxes flight.content := by
  refine .keyframes rfl ⟨_, _, _, rfl⟩ ?_
  refine List.forall_mem_cons.mpr ⟨⟨.inr ⟨_, _, _, rfl⟩, .inr ⟨_, _, _, rfl⟩⟩, ?_⟩
  refine List.forall_mem_cons.mpr ⟨⟨.inl rfl, .inl rfl⟩, ?_⟩
  exact List.forall_mem_singleton.mpr ⟨.inr ⟨_, _, _, rfl⟩, .inl rfl⟩

/-- A transform that flies and is turned. -/
def flightTransform (position : Value ℝ) : Members ℝ :=
  [("p", position), ("r", .object [("k", .num (.whole 90))])]

theorem composeTransform_splitFlight :
    HasBothAxes flight.content ∧
      composeTransform (.object (flightTransform splitFlight)) Clock.steady =
        composeTransform (.object (flightTransform flight)) Clock.steady := by
  have hsplit := composeTransform_splitPosition (flightTransform flight) Clock.steady rfl
    hasBothAxes_flight
  have htransform : (flightTransform flight).set "p" (splitPosition flight) =
      flightTransform splitFlight := by
    rw [splitPosition_flight]
    rfl
  refine ⟨hasBothAxes_flight, ?_⟩
  rw [← htransform]
  exact hsplit

end MotionScene
