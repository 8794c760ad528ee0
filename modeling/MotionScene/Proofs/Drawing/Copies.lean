import MotionScene.Proofs.Drawing.Knots
import MotionScene.Proofs.Exact

/-!
# Copies of a path

A repeater draws a path again and again, one step further each time (`draw_repeats_knots`).  The
knots of a copy are those of the path under the affine map of its step
(`RepeaterNumbers.imageAt`), and the copy at the step zero is the path itself.
-/

namespace MotionScene

variable {R : Type}

/-! ## Runs of copies -/

section Runs

variable [Scalar R]

/-- What is drawn of a path at some steps, in a row: each copy has its rows, and its commands
come behind those of the one before. -/
theorem copies_of_returned {request : PathRequest R} {offset : R} {copies first : ℕ}
    (returned : (request.copiesCommands offset copies first).outcome = .ok ()) :
    ∃ drawn : List (List (Command R)),
      (request.copiesCommands offset copies first).trace = drawn.flatten ∧
      List.Forall₂ (fun number commands => ∃ rows,
        request.rowsAt (Scalar.ofNat number + offset) = .ok rows ∧
        request.drawOnce rows = .ok commands) (List.range' first copies) drawn := by
  induction copies generalizing first with
  | zero => exact ⟨[], rfl, .nil⟩
  | succ copies ih =>
      rw [PathRequest.copiesCommands] at returned ⊢
      obtain ⟨_, hcopy, hrest⟩ := Traced.outcome_bind_eq_ok.mp returned
      obtain ⟨drawn, htrace, hdrawn⟩ := ih hrest
      obtain ⟨rows, hrows, hcommands⟩ := Traced.outcome_bind_eq_ok.mp hcopy
      obtain ⟨commands, hcommands, -⟩ := Traced.outcome_bind_eq_ok.mp hcommands
      refine ⟨commands :: drawn, ?_, .cons ⟨rows, hrows, hcommands⟩ hdrawn⟩
      have htold : request.copyCommands (Scalar.ofNat first + offset) = Traced.tellAll commands := by
        rw [Traced.outcome_lift] at hrows hcommands
        rw [PathRequest.copyCommands, hrows, Traced.lift_ok_bind, hcommands, Traced.lift_ok_bind]
      rw [htold, List.flatten_cons, ← htrace]
      rfl

end Runs

/-! ## Numbers of repeaters -/

/-- The numbers of a repeater. -/
structure RepeaterNumbers (R : Type) where
  count : ℤ
  offset : R
  scale : Point R
  rotation : R
  anchor : Point R
  shift : Point R

open scoped Scalar in
/-- A repeater whose members are all read as numbers, or missing. -/
structure ReadAs [Scalar R] (repeater : Members R) (numbers : RepeaterNumbers R) : Prop where
  count : ((repeater.get? "count").getD (.num (.whole 0))).count = .ok numbers.count
  offset : repeater.scalarOr "offset" 0 = .ok numbers.offset
  scaleX : repeater.scalarOr "scaleX" 1 = .ok numbers.scale.x
  scaleY : repeater.scalarOr "scaleY" 1 = .ok numbers.scale.y
  rotation : repeater.scalarOr "rotation" 0 = .ok numbers.rotation
  anchorX : repeater.scalarOr "anchorX" 0 = .ok numbers.anchor.x
  anchorY : repeater.scalarOr "anchorY" 0 = .ok numbers.anchor.y
  x : repeater.scalarOr "x" 0 = .ok numbers.shift.x
  y : repeater.scalarOr "y" 0 = .ok numbers.shift.y

/-! ## Exact copies -/

noncomputable section

/-- The power of a scale: a whole one, or one of the size with the sign of the base. -/
def stepScale (base exponent : ℝ) : ℝ :=
  if base = 0 then 0
  else if exponent = ⌊exponent⌋ then base ^ ⌊exponent⌋
  else if base < 0 then -|base| ^ exponent else |base| ^ exponent

end

theorem truncate_same_iff (x : ℝ) :
    Number.wholeSame (Scalar.truncate x) x = true ↔ x = ⌊x⌋ := by
  rw [Number.wholeSame_iff, truncate_eq]
  split
  · constructor
    · intro h
      rw [← h, Int.floor_intCast]
    · intro h
      rw [h, Int.ceil_intCast]
  · exact eq_comm

/-- A whole power of a number below zero keeps the sign where it is odd. -/
theorem zpow_of_neg {base : ℝ} (h : base < 0) (n : ℤ) :
    base ^ n = if n % 2 = 0 then |base| ^ n else -|base| ^ n := by
  have hbase : base = -|base| := by rw [abs_of_neg h, neg_neg]
  split
  · rename_i heven
    conv_lhs => rw [hbase]
    exact (Int.even_iff.mpr heven).neg_zpow |base|
  · rename_i hodd
    conv_lhs => rw [hbase]
    exact (Int.not_even_iff_odd.mp (mt Int.even_iff.mp hodd)).neg_zpow |base|

theorem signedPower_eq (base exponent : ℝ) :
    signedPower base exponent = .ok (stepScale base exponent) := by
  rw [signedPower, stepScale, ite_beq_zero]
  by_cases hbase : base = 0
  · rw [if_pos hbase, if_pos hbase]
    exact congrArg Except.ok scalar_zero
  rw [if_neg hbase, if_neg hbase]
  -- no power is infinite, so there is always one
  show Except.ok (if (decide (base < (Scalar.literal 0 : OfNat ℝ 0).ofNat) &&
      !(Number.wholeSame (Scalar.truncate exponent) exponent &&
        Scalar.truncate exponent % 2 == 0)) = true
    then -|base| ^ exponent else |base| ^ exponent) = _
  rw [scalar_zero]
  refine congrArg Except.ok ?_
  by_cases hwhole : exponent = ⌊exponent⌋
  · have hsame := (truncate_same_iff exponent).mpr hwhole
    have htruncate : Scalar.truncate exponent = ⌊exponent⌋ := by
      have hcast := (Number.wholeSame_iff _ _).mp hsame
      exact Int.cast_injective (hcast.trans hwhole)
    have hpower : |base| ^ exponent = |base| ^ ⌊exponent⌋ :=
      (congrArg (|base| ^ ·) hwhole).trans (Real.rpow_intCast _ _)
    rw [if_pos hwhole, hsame, htruncate, hpower]
    by_cases hneg : base < 0
    · rw [zpow_of_neg hneg]
      by_cases heven : ⌊exponent⌋ % 2 = 0 <;> simp [hneg, heven]
    · simp [hneg, abs_of_nonneg (not_lt.mp hneg)]
  · rw [if_neg hwhole, Bool.eq_false_iff.mpr (mt (truncate_same_iff exponent).mp hwhole)]
    simp

noncomputable section

/-- A point turned about the origin. -/
def Point.turned (angle : ℝ) (point : Point ℝ) : Point ℝ :=
  ⟨Real.cos angle * point.x - Real.sin angle * point.y,
    Real.sin angle * point.x + Real.cos angle * point.y⟩

/-- The image of a point at a step: scaled and turned about the anchor, and moved on. -/
def RepeaterNumbers.imageAt (numbers : RepeaterNumbers ℝ) (step : ℝ) (point : Point ℝ) : Point ℝ :=
  let scaled : Point ℝ := ⟨stepScale numbers.scale.x step * (point.x - numbers.anchor.x),
    stepScale numbers.scale.y step * (point.y - numbers.anchor.y)⟩
  let turned := scaled.turned (step * numbers.rotation)
  ⟨numbers.anchor.x + step * numbers.shift.x + turned.x,
    numbers.anchor.y + step * numbers.shift.y + turned.y⟩

/-- The map of the plane that `imageAt` is, with the anchor folded into where the origin goes. -/
def RepeaterNumbers.placement (numbers : RepeaterNumbers ℝ) (step : ℝ) : Placement ℝ :=
  let angle := numbers.rotation * step
  let a := Real.cos angle * stepScale numbers.scale.x step
  let b := Real.sin angle * stepScale numbers.scale.x step
  let c := -Real.sin angle * stepScale numbers.scale.y step
  let d := Real.cos angle * stepScale numbers.scale.y step
  ⟨a, b, c, d,
    numbers.anchor.x + numbers.shift.x * step - (a * numbers.anchor.x + c * numbers.anchor.y),
    numbers.anchor.y + numbers.shift.y * step - (b * numbers.anchor.x + d * numbers.anchor.y)⟩

/-- The knots of the copy at a step; at the step zero it is the path itself. -/
def PathRows.knotsAt (rows : PathRows ℝ) (numbers : RepeaterNumbers ℝ) (step : ℝ)
    (knots : List (Knot ℝ)) : List (Knot ℝ) :=
  if step = 0 then knots else rows.copiedKnots (numbers.imageAt step) knots

end

theorem placementAt_eq {repeater : Members ℝ} {numbers : RepeaterNumbers ℝ}
    (reads : ReadAs repeater numbers) (step : ℝ) :
    placementAt repeater step = .ok (numbers.placement step) := by
  have hdirection : ∀ angle : ℝ, direction angle = .ok ⟨Real.cos angle, Real.sin angle⟩ :=
    fun _ => rfl
  rw [placementAt, reads.scaleX, ok_bind, signedPower_eq, ok_bind, reads.scaleY, ok_bind,
    signedPower_eq, ok_bind, reads.rotation, ok_bind, reads.anchorX, ok_bind, reads.anchorY,
    ok_bind, reads.x, ok_bind, reads.y, ok_bind, hdirection, ok_bind]
  rfl

theorem apply_placement (numbers : RepeaterNumbers ℝ) (step : ℝ) :
    (numbers.placement step).apply = numbers.imageAt step := by
  funext point
  refine congrArg₂ Point.mk ?_ ?_
  · show _ = numbers.anchor.x + step * numbers.shift.x +
      (Real.cos (step * numbers.rotation) *
          (stepScale numbers.scale.x step * (point.x - numbers.anchor.x)) -
        Real.sin (step * numbers.rotation) *
          (stepScale numbers.scale.y step * (point.y - numbers.anchor.y)))
    rw [RepeaterNumbers.placement, mul_comm step numbers.rotation]
    ring
  · show _ = numbers.anchor.y + step * numbers.shift.y +
      (Real.sin (step * numbers.rotation) *
          (stepScale numbers.scale.x step * (point.x - numbers.anchor.x)) +
        Real.cos (step * numbers.rotation) *
          (stepScale numbers.scale.y step * (point.y - numbers.anchor.y)))
    rw [RepeaterNumbers.placement, mul_comm step numbers.rotation]
    ring

theorem rowsAt_eq (request : PathRequest ℝ) (step : ℝ) :
    request.rowsAt step = if step = 0 then .ok request.rows else (do
      let placement ← placementAt request.repeater.members step
      request.rows.image placement) := by
  rw [PathRequest.rowsAt, ite_beq_zero]

/-- The rows of a copy have the knots of the copy. -/
theorem knots_rowsAt {request : PathRequest ℝ} {repeater : Members ℝ}
    {numbers : RepeaterNumbers ℝ} (hrepeater : request.repeater = .object repeater)
    (reads : ReadAs repeater numbers) (arrays : request.rows.AreArrays) {step : ℝ}
    {rows : PathRows ℝ} (hrows : request.rowsAt step = .ok rows) {commands : List (Command ℝ)}
    (drawn : request.drawOnce rows = .ok commands) :
    ∃ knots, request.rows.knots = .ok knots ∧
      rows.knots = .ok (request.rows.knotsAt numbers step knots) := by
  rw [rowsAt_eq] at hrows
  by_cases hstep : step = 0
  · rw [if_pos hstep] at hrows
    obtain rfl := Except.ok.inj hrows
    -- what is drawn has knots
    obtain ⟨segments, hsegments, -⟩ := bind_eq_ok.mp drawn
    obtain ⟨knots, hknots, -⟩ := bind_eq_ok.mp hsegments
    refine ⟨knots, hknots, ?_⟩
    rw [PathRows.knotsAt, if_pos hstep, hknots]
  · rw [if_neg hstep, hrepeater] at hrows
    obtain ⟨placement, hplacement, himage⟩ := bind_eq_ok.mp hrows
    obtain rfl := Except.ok.inj ((placementAt_eq reads step).symm.trans hplacement)
    obtain ⟨knots, hknots, hcopied⟩ := knots_image arrays himage
    refine ⟨knots, hknots, ?_⟩
    rw [PathRows.knotsAt, if_neg hstep, ← apply_placement, hcopied]

theorem commands_of_reads {request : PathRequest ℝ} {repeater : Members ℝ}
    {numbers : RepeaterNumbers ℝ} (hrepeater : request.repeater = .object repeater)
    (reads : ReadAs repeater numbers) :
    request.commands = request.copiesCommands numbers.offset (numbers.count.toNat + 1) 0 := by
  have hcount : repeatCount request.repeater = .ok numbers.count.toNat := by
    rw [hrepeater, repeatCount, reads.count]
    rfl
  have hoffset : repeatOffset request.repeater = .ok numbers.offset := by
    rw [hrepeater, repeatOffset, reads.offset]
    rfl
  rw [PathRequest.commands, hcount, Traced.lift_ok_bind, hoffset, Traced.lift_ok_bind]

/-- **A repeater draws exact copies.**  A path of arrays with a repeater of readable numbers, if
it is drawn at all, is drawn once and again for every copy asked for, in order.  The knots of
each copy are those of the path at the step of the copy: the images of its vertices and handles
under the affine map of the step, and those of the path itself at the step zero.  Only the
copies of handles that cannot be read are elsewhere (`PointRow.copiedHandle`). -/
theorem draw_repeats_knots {request : PathRequest ℝ} {repeater : Members ℝ}
    {numbers : RepeaterNumbers ℝ} (drawer : Drawer ℝ)
    (hrepeater : request.repeater = .object repeater) (reads : ReadAs repeater numbers)
    (arrays : request.rows.AreArrays)
    (returned : (drawer.draw request).commands.outcome = .ok ()) :
    ∃ knots drawn, request.rows.knots = .ok knots ∧
      (drawer.draw request).commands.trace = drawn.flatten ∧
      List.Forall₂ (fun (number : ℕ) commands => ∃ rows,
        request.rowsAt (number + numbers.offset) = .ok rows ∧
        rows.knots = .ok (request.rows.knotsAt numbers (number + numbers.offset) knots) ∧
        request.drawOnce rows = .ok commands)
      (List.range (numbers.count.toNat + 1)) drawn := by
  rw [commands_draw, commands_of_reads hrepeater reads] at returned ⊢
  obtain ⟨drawn, htrace, hdrawn⟩ := copies_of_returned returned
  rw [← List.range_eq_range'] at hdrawn
  -- the first copy tells that the path has knots
  obtain ⟨knots, hknots⟩ : ∃ knots, request.rows.knots = .ok knots := by
    rw [List.range_succ_eq_map] at hdrawn
    obtain ⟨commands, later, ⟨rows, hrows, hcommands⟩, -, -⟩ := List.forall₂_cons_left_iff.mp hdrawn
    obtain ⟨knots, hknots, -⟩ := knots_rowsAt hrepeater reads arrays hrows hcommands
    exact ⟨knots, hknots⟩
  refine ⟨knots, drawn, hknots, htrace, hdrawn.imp ?_⟩
  rintro number commands ⟨rows, hrows, hcommands⟩
  obtain ⟨own, hown, hcopied⟩ := knots_rowsAt hrepeater reads arrays hrows hcommands
  obtain rfl := Except.ok.inj (hknots.symm.trans hown)
  exact ⟨rows, hrows, hcopied, hcommands⟩

/-! ## Paths that are always drawn -/

theorem returns_copies {R : Type} [Scalar R] {request : PathRequest R} {offset : R}
    (h : ∀ step, (request.copyCommands step).outcome = .ok ()) (copies first : ℕ) :
    (request.copiesCommands offset copies first).outcome = .ok () := by
  induction copies generalizing first with
  | zero => rfl
  | succ copies ih => exact Traced.outcome_bind_eq_ok.mpr ⟨(), h _, ih (first + 1)⟩

theorem drawOnce_untrimmed {R : Type} [Scalar R] {request : PathRequest R}
    (untrimmed : request.trim? = none) {rows : PathRows R} {knots : List (Knot R)}
    (h : rows.knots = .ok knots) :
    request.drawOnce rows = .ok (drawSegments request.closed (segmentsOf request.closed knots)) := by
  rw [PathRequest.drawOnce, PathRows.segments, h, untrimmed]
  rfl

/-- A path whose entries all give points or nothing is drawn, if it has no trim and a repeater
of readable numbers. -/
theorem draw_returns {request : PathRequest ℝ} {repeater : Members ℝ}
    {numbers : RepeaterNumbers ℝ} (drawer : Drawer ℝ)
    (hrepeater : request.repeater = .object repeater) (reads : ReadAs repeater numbers)
    (arrays : request.rows.AreArrays) {vertices arriving leaving : List (Option (Point ℝ))}
    (gives : request.rows.Gives vertices arriving leaving) (untrimmed : request.trim? = none) :
    (drawer.draw request).commands.outcome = .ok () := by
  rw [commands_draw, commands_of_reads hrepeater reads]
  refine returns_copies (fun step => ?_) _ _
  obtain ⟨rows, hrows, knots, hknots⟩ : ∃ rows, request.rowsAt step = .ok rows ∧
      ∃ knots, rows.knots = .ok knots := by
    rw [PathRequest.rowsAt]
    split
    · exact ⟨_, rfl, _, gives.knots arrays⟩
    · obtain ⟨image, himage⟩ := exists_image arrays gives (numbers.placement step)
      obtain ⟨knots, -, hcopied⟩ := knots_image arrays himage
      refine ⟨image, ?_, _, hcopied⟩
      rw [hrepeater, Value.members, Value.members?, Option.getD_some, placementAt_eq reads, ok_bind,
        himage]
  have hdrawn := drawOnce_untrimmed untrimmed hknots
  rw [PathRequest.copyCommands, hrows, Traced.lift_ok_bind, hdrawn]
  rfl

/-! ## A line moved on -/

/-- A repeater that asks for one copy, a hundred units to the right. -/
def onceMoved : Members ℝ :=
  [("count", .num (.whole 1)), ("x", .num (.whole 100))]

noncomputable section

/-- An array of points with whole coordinates. -/
def wholeRow (points : List (ℤ × ℤ)) : PointRow ℝ :=
  .ofValue (.list (points.map fun point =>
    .list [.num (.whole point.1), .num (.whole point.2)]))

/-- An array of entries that are null. -/
def nullRow (size : ℕ) : PointRow ℝ :=
  .ofValue (.list (List.replicate size .null))

def onceMovedNumbers : RepeaterNumbers ℝ where
  count := 1
  offset := (0 : ℕ)
  scale := ⟨(1 : ℕ), (1 : ℕ)⟩
  rotation := (0 : ℕ)
  anchor := ⟨(0 : ℕ), (0 : ℕ)⟩
  shift := ⟨(100 : ℤ), (0 : ℕ)⟩

/-- A line with a handle at its start and none at its end. -/
def movedLine : PathRequest ℝ :=
  ⟨⟨wholeRow [(10, 0), (20, 0)], wholeRow [], wholeRow [(12, 5)]⟩, false, none, .object onceMoved⟩

/-- The line with handles that cannot be read. -/
def movedNulls : PathRequest ℝ :=
  ⟨⟨wholeRow [(10, 0), (20, 0)], nullRow 2, nullRow 2⟩, false, none, .object onceMoved⟩

end

theorem readAs_onceMoved : ReadAs onceMoved onceMovedNumbers where
  count := rfl
  offset := rfl
  scaleX := rfl
  scaleY := rfl
  rotation := rfl
  anchorX := rfl
  anchorY := rfl
  x := rfl
  y := rfl

/-- The copy lies a hundred units to the right. -/
theorem imageAt_onceMoved (point : Point ℝ) :
    onceMovedNumbers.imageAt 1 point = ⟨100 + point.x, point.y⟩ := by
  simp [RepeaterNumbers.imageAt, onceMovedNumbers, Point.turned, stepScale]

theorem draw_movedLine :
    (Drawer.fresh.draw movedLine).commands.outcome = .ok () ∧
      ∃ first second rows, (Drawer.fresh.draw movedLine).commands.trace = first ++ second ∧
        movedLine.drawOnce movedLine.rows = .ok first ∧ movedLine.drawOnce rows = .ok second ∧
        rows.knots = .ok [⟨⟨110, 0⟩, ⟨110, 0⟩, ⟨112, 5⟩⟩, ⟨⟨120, 0⟩, ⟨120, 0⟩, ⟨120, 0⟩⟩] := by
  have arrays : movedLine.rows.AreArrays :=
    ⟨PointRow.isArray_ofValue _, PointRow.isArray_ofValue _, PointRow.isArray_ofValue _⟩
  have gives : movedLine.rows.Gives [some ⟨(10 : ℤ), (0 : ℤ)⟩, some ⟨(20 : ℤ), (0 : ℤ)⟩] []
      [some ⟨(12 : ℤ), (5 : ℤ)⟩] := ⟨rfl, rfl, rfl⟩
  have returned := draw_returns Drawer.fresh rfl readAs_onceMoved arrays gives rfl
  obtain ⟨knots, drawn, hknots, htrace, hdrawn⟩ :=
    draw_repeats_knots Drawer.fresh rfl readAs_onceMoved arrays returned
  -- two copies, the first at the step zero
  obtain ⟨first, _, ⟨own, hown, -, hfirst⟩, hlater, rfl⟩ := List.forall₂_cons_left_iff.mp hdrawn
  obtain ⟨second, _, ⟨rows, -, hcopied, hsecond⟩, hnil, rfl⟩ := List.forall₂_cons_left_iff.mp hlater
  cases hnil
  have hline : movedLine.rows.knots =
      .ok [⟨⟨10, 0⟩, ⟨10, 0⟩, ⟨12, 5⟩⟩, ⟨⟨20, 0⟩, ⟨20, 0⟩, ⟨20, 0⟩⟩] := by
    rw [gives.knots arrays]
    simp [knotsFrom]
  obtain rfl := Except.ok.inj (hknots.symm.trans hline)
  have hzero : ((0 : ℕ) : ℝ) + onceMovedNumbers.offset = 0 := by simp [onceMovedNumbers]
  have hone : ((1 : ℕ) : ℝ) + onceMovedNumbers.offset = 1 := by simp [onceMovedNumbers]
  rw [rowsAt_eq, if_pos hzero] at hown
  obtain rfl := Except.ok.inj hown
  refine ⟨returned, first, second, rows, htrace.trans (by simp), hfirst, hsecond, ?_⟩
  -- both entries that are there can be read
  have hknot : ∀ first last, movedLine.rows.copiedKnots (onceMovedNumbers.imageAt 1) [first, last] =
      [first, last].map fun knot => ⟨onceMovedNumbers.imageAt 1 knot.vertex,
        onceMovedNumbers.imageAt 1 knot.arriving, onceMovedNumbers.imageAt 1 knot.leaving⟩ :=
    fun _ _ => rfl
  rw [hcopied, hone, PathRows.knotsAt, if_neg one_ne_zero, hknot]
  simp only [imageAt_onceMoved, List.map_cons, List.map_nil]
  norm_num

/-- A handle that cannot be read lies on its vertex, and its copy not on the copy of the
vertex. -/
theorem copy_of_movedNulls :
    ∃ knots rows copied, movedNulls.rows.knots = .ok knots ∧
      (∀ knot ∈ knots, knot.arriving = knot.vertex ∧ knot.leaving = knot.vertex) ∧
      movedNulls.rowsAt 1 = .ok rows ∧ rows.knots = .ok copied ∧
      copied ≠ knots.map fun knot => ⟨onceMovedNumbers.imageAt 1 knot.vertex,
        onceMovedNumbers.imageAt 1 knot.arriving, onceMovedNumbers.imageAt 1 knot.leaving⟩ := by
  have arrays : movedNulls.rows.AreArrays :=
    ⟨PointRow.isArray_ofValue _, PointRow.isArray_ofValue _, PointRow.isArray_ofValue _⟩
  have gives : movedNulls.rows.Gives [some ⟨(10 : ℤ), (0 : ℤ)⟩, some ⟨(20 : ℤ), (0 : ℤ)⟩]
      [none, none] [none, none] := ⟨rfl, rfl, rfl⟩
  obtain ⟨rows, himage⟩ := exists_image arrays gives (onceMovedNumbers.placement 1)
  obtain ⟨knots, hknots, hcopied⟩ := knots_image arrays himage
  obtain rfl := Except.ok.inj ((gives.knots arrays).symm.trans hknots)
  refine ⟨_, rows, _, hknots, ?_, ?_, hcopied, fun heq => ?_⟩
  · intro knot hknot
    rcases List.mem_pair.mp hknot with rfl | rfl <;> exact ⟨rfl, rfl⟩
  · rw [rowsAt_eq, if_neg one_ne_zero]
    exact bind_eq_ok.mpr ⟨onceMovedNumbers.placement 1, placementAt_eq readAs_onceMoved 1, himage⟩
  · -- the copy of the first handle is the image of the origin
    obtain ⟨hfirst, -⟩ := List.cons.inj heq
    have hhandle : (onceMovedNumbers.placement 1).apply .origin =
        onceMovedNumbers.imageAt 1 ⟨(10 : ℤ), (0 : ℤ)⟩ := congrArg Knot.arriving hfirst
    rw [apply_placement, imageAt_onceMoved, imageAt_onceMoved] at hhandle
    have hx : (100 : ℝ) + (0 : ℕ) = 100 + (10 : ℤ) := congrArg Point.x hhandle
    norm_num at hx

end MotionScene
