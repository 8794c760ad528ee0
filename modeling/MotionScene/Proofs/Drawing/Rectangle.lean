import Mathlib.Data.List.Rotate
import MotionScene.Proofs.Drawing.Neutral
import MotionScene.Proofs.Drawing.Replay

/-!
# One outline for a rectangle

A rectangle without modifiers is drawn by commands of its own, and one with modifiers as the path
along its outline.  What a surface draws is a list of strokes (`strokesOf`): a side of a rectangle
or a line is straight, and an arc is not.  The strokes of the commands visit the vertices of the
outline in the same order (`drawRect_follows_outline`).
-/

namespace MotionScene

/-! ## Strokes -/

/-- What a surface draws on the way from one point to another. -/
structure Stroke where
  start : Point ℝ
  stop : Point ℝ
  isStraight : Bool

noncomputable section

/-- The point of a circle at an angle. -/
def Point.atAngle (center : Point ℝ) (radius angle : ℝ) : Point ℝ :=
  ⟨center.x + radius * Real.cos angle, center.y + radius * Real.sin angle⟩

/-- The straight stroke between two points, none if they are one. -/
def strokeBetween (start stop : Point ℝ) : List Stroke :=
  if start = stop then [] else [⟨start, stop, true⟩]

/-- What a surface draws when it follows commands, from the point that it has got to and the one at
which it has begun: an arc is joined to the point before it, and closing joins to the beginning. -/
def strokesFrom (begun current : Point ℝ) : List (Command ℝ) → List Stroke
  | [] => []
  | .moveTo target :: rest => strokesFrom target target rest
  | .lineTo target :: rest => ⟨current, target, true⟩ :: strokesFrom begun target rest
  | .curveTo _ _ target :: rest => ⟨current, target, false⟩ :: strokesFrom begun target rest
  | .arc center radius start stop _ :: rest =>
    strokeBetween current (center.atAngle radius start) ++
      ⟨center.atAngle radius start, center.atAngle radius stop, false⟩ ::
        strokesFrom begun (center.atAngle radius stop) rest
  | .closePath :: rest => strokeBetween current begun ++ strokesFrom begun begun rest
  | .rect corner width height :: rest =>
    let right : Point ℝ := ⟨corner.x + width, corner.y⟩
    let opposite : Point ℝ := ⟨corner.x + width, corner.y + height⟩
    let below : Point ℝ := ⟨corner.x, corner.y + height⟩
    ⟨corner, right, true⟩ :: ⟨right, opposite, true⟩ :: ⟨opposite, below, true⟩ ::
      ⟨below, corner, true⟩ :: strokesFrom corner corner rest

/-- What a surface draws when it follows commands. -/
def strokesOf (commands : List (Command ℝ)) : List Stroke :=
  strokesFrom .origin .origin commands

@[simp] theorem strokeBetween_self (point : Point ℝ) : strokeBetween point point = [] :=
  if_pos rfl

theorem atAngle_top (center : Point ℝ) (radius : ℝ) :
    center.atAngle radius (-(Real.pi / 2)) = ⟨center.x, center.y - radius⟩ := by
  rw [Point.atAngle, Real.cos_neg, Real.sin_neg, Real.cos_pi_div_two, Real.sin_pi_div_two]
  ring_nf

theorem atAngle_right (center : Point ℝ) (radius : ℝ) :
    center.atAngle radius 0 = ⟨center.x + radius, center.y⟩ := by
  rw [Point.atAngle, Real.cos_zero, Real.sin_zero]
  ring_nf

theorem atAngle_bottom (center : Point ℝ) (radius : ℝ) :
    center.atAngle radius (Real.pi / 2) = ⟨center.x, center.y + radius⟩ := by
  rw [Point.atAngle, Real.cos_pi_div_two, Real.sin_pi_div_two]
  ring_nf

theorem atAngle_left (center : Point ℝ) (radius : ℝ) :
    center.atAngle radius Real.pi = ⟨center.x - radius, center.y⟩ := by
  rw [Point.atAngle, Real.cos_pi, Real.sin_pi]
  ring_nf

theorem atAngle_top_again (center : Point ℝ) (radius : ℝ) :
    center.atAngle radius (Real.pi + Real.pi / 2) = ⟨center.x, center.y - radius⟩ := by
  rw [Point.atAngle, Real.cos_add_pi_div_two, Real.sin_add_pi_div_two, Real.cos_pi, Real.sin_pi]
  ring_nf

/-! ## The two outlines -/

/-- A rectangle by the places of its sides. -/
structure Frame where
  left : ℝ
  right : ℝ
  top : ℝ
  bottom : ℝ

namespace Frame

/-- The rectangle about a center that reaches half its width and half its height from there. -/
def about (center : Point ℝ) (halfWidth halfHeight : ℝ) : Frame :=
  ⟨center.x - halfWidth, center.x + halfWidth, center.y - halfHeight, center.y + halfHeight⟩

def Contains (frame : Frame) (point : Point ℝ) : Prop :=
  point.x ∈ Set.Icc frame.left frame.right ∧ point.y ∈ Set.Icc frame.top frame.bottom

variable (frame : Frame) (r : ℝ)

/-- The sides of a rectangle, from its upper left corner. -/
def sides : List Stroke :=
  let ⟨left, right, top, bottom⟩ := frame
  [⟨⟨left, top⟩, ⟨right, top⟩, true⟩, ⟨⟨right, top⟩, ⟨right, bottom⟩, true⟩,
   ⟨⟨right, bottom⟩, ⟨left, bottom⟩, true⟩, ⟨⟨left, bottom⟩, ⟨left, top⟩, true⟩]

/-- The sides of a rectangle with round corners, each followed by a corner. -/
def roundSides : List Stroke :=
  let ⟨left, right, top, bottom⟩ := frame
  [⟨⟨left + r, top⟩, ⟨right - r, top⟩, true⟩, ⟨⟨right - r, top⟩, ⟨right, top + r⟩, false⟩,
   ⟨⟨right, top + r⟩, ⟨right, bottom - r⟩, true⟩, ⟨⟨right, bottom - r⟩, ⟨right - r, bottom⟩, false⟩,
   ⟨⟨right - r, bottom⟩, ⟨left + r, bottom⟩, true⟩, ⟨⟨left + r, bottom⟩, ⟨left, bottom - r⟩, false⟩,
   ⟨⟨left, bottom - r⟩, ⟨left, top + r⟩, true⟩, ⟨⟨left, top + r⟩, ⟨left + r, top⟩, false⟩]

/-- The knots of a rectangle, from its upper right corner. -/
def corners : List (Knot ℝ) :=
  let ⟨left, right, top, bottom⟩ := frame
  [.sharp right top, .sharp right bottom, .sharp left bottom, .sharp left top]

/-- The knots of a rectangle with round corners, whose handles are as long as given. -/
def roundCorners (k : ℝ) : List (Knot ℝ) :=
  let ⟨left, right, top, bottom⟩ := frame
  [⟨⟨right, top + r⟩, ⟨right, top + r - k⟩, ⟨right, top + r⟩⟩,
   ⟨⟨right, bottom - r⟩, ⟨right, bottom - r⟩, ⟨right, bottom - r + k⟩⟩,
   ⟨⟨right - r, bottom⟩, ⟨right - r + k, bottom⟩, ⟨right - r, bottom⟩⟩,
   ⟨⟨left + r, bottom⟩, ⟨left + r, bottom⟩, ⟨left + r - k, bottom⟩⟩,
   ⟨⟨left, bottom - r⟩, ⟨left, bottom - r + k⟩, ⟨left, bottom - r⟩⟩,
   ⟨⟨left, top + r⟩, ⟨left, top + r⟩, ⟨left, top + r - k⟩⟩,
   ⟨⟨left + r, top⟩, ⟨left + r - k, top⟩, ⟨left + r, top⟩⟩,
   ⟨⟨right - r, top⟩, ⟨right - r, top⟩, ⟨right - r + k, top⟩⟩]

end Frame

theorem scalar_two : (Scalar.literal 2 : OfNat ℝ 2).ofNat = (2 : ℝ) := Nat.cast_ofNat

theorem cornerRadius_eq (radius halfWidth halfHeight : ℝ) :
    cornerRadius radius halfWidth halfHeight = min (min |radius| halfWidth) halfHeight := by
  rw [cornerRadius, least_eq_min, least_eq_min]
  rfl

/-- What the commands for a rectangle draw. -/
theorem strokesOf_plainRect (x y width height radius : ℝ) :
    strokesOf (plainRect ⟨x, y⟩ width height radius) =
      let r := min (min |radius| (width / 2)) (height / 2)
      if r ≤ 0 then Frame.sides ⟨x, x + width, y, y + height⟩
      else Frame.roundSides ⟨x, x + width, y, y + height⟩ r := by
  simp only [plainRect, cornerRadius_eq]
  rw [scalar_two, scalar_zero]
  split
  · rfl
  · have hpi : (Scalar.pi : ℝ) = Real.pi := rfl
    simp only [strokesOf, strokesFrom, hpi, atAngle_top, atAngle_right, atAngle_bottom, atAngle_left,
      atAngle_top_again, add_sub_cancel_right, sub_add_cancel, strokeBetween_self, List.nil_append]
    rfl

/-- The knots of the outline of a rectangle. -/
theorem rectKnots_eq (center : Point ℝ) (width height radius : ℝ) :
    rectKnots center width height radius =
      let r := min (min |radius| (|width| / 2)) (|height| / 2)
      let frame := Frame.about center (|width| / 2) (|height| / 2)
      if r ≤ 0 then frame.corners else frame.roundCorners r (r * quarterHandle) := by
  have hmagnitude : ∀ x : ℝ, Scalar.magnitude x = |x| := fun _ => rfl
  simp only [rectKnots, cornerRadius_eq, hmagnitude]
  rw [scalar_two, scalar_zero]
  rfl

/-! ## Strokes along an outline -/

/-- Positive where the way from a point through another one to a third turns clockwise. -/
def Point.turn (first second third : Point ℝ) : ℝ :=
  (second.x - first.x) * (third.y - second.y) - (second.y - first.y) * (third.x - second.x)

/-- A closed line through points turns clockwise at each of them, if it turns. -/
def TurnsClockwise (points : List (Point ℝ)) : Prop :=
  ∀ corner ∈ points.zip ((points.rotate 1).zip (points.rotate 2)),
    0 ≤ corner.1.turn corner.2.1 corner.2.2

end

/-- Strokes lead around a rectangle along the outline with the given knots. -/
structure Frame.DrawnAlong (frame : Frame) (strokes : List Stroke) (knots : List (Knot ℝ)) :
    Prop where
  joined : strokes.IsChain fun stroke next => stroke.stop = next.start
  closed : strokes.getLast?.map Stroke.stop = strokes.head?.map Stroke.start
  visits : (strokes.map Stroke.stop).IsRotated (knots.map Knot.vertex)
  straight : ∀ stroke ∈ strokes, stroke.isStraight = true →
    .line stroke.start stroke.stop ∈ segmentsOf true knots
  clockwise : TurnsClockwise (knots.map Knot.vertex)
  inside : ∀ knot ∈ knots, frame.Contains knot.vertex ∧ frame.Contains knot.arriving ∧
    frame.Contains knot.leaving

/-- The way between two knots whose handles beside it lie on the vertices. -/
theorem segmentTo_of_on {knot next : Knot ℝ} (hleaving : knot.leaving = knot.vertex)
    (harriving : next.arriving = next.vertex) :
    knot.segmentTo next = .line knot.vertex next.vertex := by
  rw [Knot.segmentTo, hleaving, harriving, Point.isNear_self, Point.isNear_self]
  rfl

namespace Frame

/-- A rectangle has room for corners of a radius. -/
structure HasRoom (frame : Frame) (r : ℝ) : Prop where
  nonneg : 0 ≤ r
  width : frame.left + r ≤ frame.right - r
  height : frame.top + r ≤ frame.bottom - r

theorem drawnAlong_corners {frame : Frame} (room : frame.HasRoom 0) :
    frame.DrawnAlong frame.sides frame.corners := by
  obtain ⟨left, right, top, bottom⟩ := frame
  obtain ⟨-, hwidth, hheight⟩ := room
  simp only [add_zero, sub_zero] at hwidth hheight
  have hsegments : segmentsOf true (corners ⟨left, right, top, bottom⟩) =
      [.line ⟨right, top⟩ ⟨right, bottom⟩, .line ⟨right, bottom⟩ ⟨left, bottom⟩,
        .line ⟨left, bottom⟩ ⟨left, top⟩, .line ⟨left, top⟩ ⟨right, top⟩] := by
    simp [segmentsOf, Knot.segmentsThrough, corners, Knot.sharp, segmentTo_of_on]
  refine ⟨?_, rfl, ⟨0, rfl⟩, ?_, ?_, ?_⟩
  · simp [sides]
  · simp [sides, hsegments]
  · have hturn : 0 ≤ (right - left) * (bottom - top) :=
      mul_nonneg (sub_nonneg.mpr hwidth) (sub_nonneg.mpr hheight)
    simp only [corners, Knot.sharp, List.map_cons, List.map_nil, TurnsClockwise,
      List.rotate_cons_succ, List.rotate_zero, List.cons_append, List.nil_append,
      List.zip_cons_cons, List.zip_nil_right, List.forall_mem_cons, Point.turn]
    exact ⟨by linarith, by linarith, by linarith, by linarith, List.forall_mem_nil _⟩
  · simp [corners, Knot.sharp, Contains, hwidth, hheight]

theorem drawnAlong_roundCorners {frame : Frame} {r k : ℝ} (room : frame.HasRoom r) (hk : 0 ≤ k)
    (hkr : k ≤ r) : frame.DrawnAlong (frame.roundSides r) (frame.roundCorners r k) := by
  obtain ⟨left, right, top, bottom⟩ := frame
  obtain ⟨hr, hwidth, hheight⟩ := room
  simp only at hwidth hheight
  refine ⟨?_, rfl, ⟨1, rfl⟩, ?_, ?_, ?_⟩
  · simp [roundSides]
  · simp [roundSides, roundCorners, segmentsOf, Knot.segmentsThrough, segmentTo_of_on]
  · have hacross : 0 ≤ r * (right - r - (left + r)) := mul_nonneg hr (sub_nonneg.mpr hwidth)
    have halong : 0 ≤ r * (bottom - r - (top + r)) := mul_nonneg hr (sub_nonneg.mpr hheight)
    simp only [roundCorners, List.map_cons, List.map_nil, TurnsClockwise,
      List.rotate_cons_succ, List.rotate_zero, List.cons_append, List.nil_append,
      List.zip_cons_cons, List.zip_nil_right, List.forall_mem_cons, Point.turn]
    exact ⟨by linarith, by linarith, by linarith, by linarith, by linarith, by linarith,
      by linarith, by linarith, List.forall_mem_nil _⟩
  · simp only [roundCorners, List.forall_mem_cons, Contains, Set.mem_Icc]
    constructorm* _ ∧ _ <;> first | exact List.forall_mem_nil _ | linarith

end Frame

/-! ## Rectangles of a document -/

/-- The numbers that a rectangle is drawn from. -/
structure RectNumbers where
  center : Point ℝ
  width : ℝ
  height : ℝ
  radius : ℝ

namespace RectNumbers

open scoped Scalar in
/-- The members of a shape read as numbers, or are missing. -/
structure AreReadFrom (numbers : RectNumbers) (shape : Members ℝ) : Prop where
  x : shape.scalarOr "cx" 0 = .ok numbers.center.x
  y : shape.scalarOr "cy" 0 = .ok numbers.center.y
  width : shape.scalarOr "width" 0 = .ok numbers.width
  height : shape.scalarOr "height" 0 = .ok numbers.height
  radius : shape.scalarOr "r" 0 = .ok numbers.radius

noncomputable section

variable (numbers : RectNumbers)

def halfWidth : ℝ := |numbers.width| / (2 : ℕ)

def halfHeight : ℝ := |numbers.height| / (2 : ℕ)

/-- The radius of the corners, which is not above half of any side. -/
def cappedRadius : ℝ :=
  min (min |numbers.radius| numbers.halfWidth) numbers.halfHeight

/-- The box of the rectangle. -/
def frame : Frame := .about numbers.center numbers.halfWidth numbers.halfHeight

/-- The commands for the rectangle without modifiers. -/
def commands : List (Command ℝ) :=
  plainRect ⟨numbers.center.x - numbers.halfWidth, numbers.center.y - numbers.halfHeight⟩
    |numbers.width| |numbers.height| numbers.radius

end

variable {numbers : RectNumbers} {shape : Members ℝ}

theorem halfWidth_eq (numbers : RectNumbers) : numbers.halfWidth = |numbers.width| / 2 := by
  rw [halfWidth, Nat.cast_ofNat]

theorem halfHeight_eq (numbers : RectNumbers) : numbers.halfHeight = |numbers.height| / 2 := by
  rw [halfHeight, Nat.cast_ofNat]

theorem cappedRadius_nonneg (numbers : RectNumbers) : 0 ≤ numbers.cappedRadius :=
  le_min (le_min (abs_nonneg _) (div_nonneg (abs_nonneg _) (Nat.cast_nonneg 2)))
    (div_nonneg (abs_nonneg _) (Nat.cast_nonneg 2))

theorem hasRoom {r : ℝ} (hr : 0 ≤ r) (hcap : r ≤ numbers.cappedRadius) :
    numbers.frame.HasRoom r := by
  have hwidth : r ≤ numbers.halfWidth := hcap.trans ((min_le_left ..).trans (min_le_right ..))
  have hheight : r ≤ numbers.halfHeight := hcap.trans (min_le_right ..)
  refine ⟨hr, ?_, ?_⟩
  · simp only [frame, Frame.about]
    linarith
  · simp only [frame, Frame.about]
    linarith

theorem drawRect_eq (reads : numbers.AreReadFrom shape) (plain : hasModifiers shape = .ok false) :
    drawRect shape = ⟨numbers.commands, .ok ()⟩ := by
  rw [drawRect, reads.x, Traced.lift_ok_bind, reads.y, Traced.lift_ok_bind, reads.width,
    Traced.lift_ok_bind, reads.height, Traced.lift_ok_bind, plain, Traced.lift_ok_bind,
    if_neg Bool.false_ne_true, reads.radius, Traced.lift_ok_bind]
  rw [commands, halfWidth_eq, halfHeight_eq, scalar_two]
  rfl

theorem strokesOf_commands (numbers : RectNumbers) :
    strokesOf numbers.commands =
      if numbers.cappedRadius ≤ 0 then numbers.frame.sides
      else numbers.frame.roundSides numbers.cappedRadius := by
  have hsides : ∀ center size : ℝ, center - size / 2 + size = center + size / 2 := by
    intro center size
    ring
  rw [commands, strokesOf_plainRect, cappedRadius, frame, halfWidth_eq, halfHeight_eq]
  simp only [hsides]
  rfl

theorem rectKnots_eq_corners (h : numbers.cappedRadius ≤ 0) :
    rectKnots numbers.center |numbers.width| |numbers.height| numbers.radius =
      numbers.frame.corners := by
  rw [cappedRadius, halfWidth_eq, halfHeight_eq] at h
  rw [rectKnots_eq, abs_abs, abs_abs, frame, halfWidth_eq, halfHeight_eq]
  exact if_pos h

theorem rectKnots_eq_roundCorners (h : ¬numbers.cappedRadius ≤ 0) :
    rectKnots numbers.center |numbers.width| |numbers.height| numbers.radius =
      numbers.frame.roundCorners numbers.cappedRadius (numbers.cappedRadius * quarterHandle) := by
  rw [cappedRadius, halfWidth_eq, halfHeight_eq] at h
  rw [rectKnots_eq, abs_abs, abs_abs, frame, cappedRadius, halfWidth_eq, halfHeight_eq]
  exact if_neg h

end RectNumbers

theorem quarterHandle_mem : (quarterHandle : ℝ) ∈ Set.Icc 0 1 := by
  have hvalue : (quarterHandle : ℝ) = 5522848 / 10 ^ 7 := by
    show realOfNumeral (.finite false 5522848 (-7)) = _
    norm_num [realOfNumeral]
  rw [hvalue]
  norm_num

/-- **A rectangle has one outline.**  Drawn without modifiers, a rectangle of any size and radius
is drawn by strokes that lead around it: by its four sides if the capped radius of its corners is
zero, and else by four sides and four arcs in turn.  They visit the vertices of the path along its
outline in the same clockwise order, the sides are straight segments of that path, and the
vertices and handles of the path lie in the box of the rectangle. -/
theorem drawRect_follows_outline {numbers : RectNumbers} {shape : Members ℝ}
    (reads : numbers.AreReadFrom shape) (plain : hasModifiers shape = .ok false) :
    ∃ commands, drawRect shape = ⟨commands, .ok ()⟩ ∧
      (strokesOf commands).map Stroke.isStraight =
        (if numbers.cappedRadius = 0 then [true, true, true, true]
          else [true, false, true, false, true, false, true, false]) ∧
      numbers.frame.DrawnAlong (strokesOf commands)
        (rectKnots numbers.center |numbers.width| |numbers.height| numbers.radius) := by
  refine ⟨numbers.commands, RectNumbers.drawRect_eq reads plain, ?_⟩
  rw [RectNumbers.strokesOf_commands]
  by_cases hradius : numbers.cappedRadius ≤ 0
  · have hzero : numbers.cappedRadius = 0 := le_antisymm hradius numbers.cappedRadius_nonneg
    rw [if_pos hradius, if_pos hzero, RectNumbers.rectKnots_eq_corners hradius]
    exact ⟨rfl, Frame.drawnAlong_corners (RectNumbers.hasRoom le_rfl hzero.ge)⟩
  · have hpos : 0 < numbers.cappedRadius := not_le.mp hradius
    obtain ⟨hnonneg, hone⟩ := quarterHandle_mem
    rw [if_neg hradius, if_neg hpos.ne', RectNumbers.rectKnots_eq_roundCorners hradius]
    exact ⟨rfl, Frame.drawnAlong_roundCorners (RectNumbers.hasRoom hpos.le le_rfl)
      (mul_nonneg hpos.le hnonneg) (mul_le_of_le_one_right hpos.le hone)⟩

/-! ## A capsule -/

/-- A rectangle with a negative width and a radius larger than it. -/
def capsule : Members ℝ :=
  [("cx", .num (.whole 1)), ("width", .num (.whole (-4))), ("height", .num (.whole 2)),
    ("r", .num (.whole 100))]

noncomputable def capsuleNumbers : RectNumbers :=
  ⟨⟨(1 : ℤ), (0 : ℕ)⟩, (-4 : ℤ), (2 : ℤ), (100 : ℤ)⟩

theorem hasModifiers_capsule : hasModifiers capsule = .ok false :=
  (NeutralRepeater.null : NeutralRepeater (.null : Value ℝ) _).repeats

/-- The radius is that of half circles, and the upright sides have no length. -/
theorem drawRect_capsule :
    capsuleNumbers.AreReadFrom capsule ∧ hasModifiers capsule = .ok false ∧
      ∃ commands, drawRect capsule = ⟨commands, .ok ()⟩ ∧
        (strokesOf commands).map Stroke.isStraight =
          [true, false, true, false, true, false, true, false] ∧
        ((strokesOf commands).map Stroke.stop).IsRotated
          [⟨3, 0⟩, ⟨3, 0⟩, ⟨2, 1⟩, ⟨0, 1⟩, ⟨-1, 0⟩, ⟨-1, 0⟩, ⟨0, -1⟩, ⟨2, -1⟩] := by
  have reads : capsuleNumbers.AreReadFrom capsule := ⟨rfl, rfl, rfl, rfl, rfl⟩
  have hradius : capsuleNumbers.cappedRadius = 1 := by
    norm_num [RectNumbers.cappedRadius, RectNumbers.halfWidth, RectNumbers.halfHeight,
      capsuleNumbers]
  obtain ⟨commands, hdrawn, hkinds, along⟩ := drawRect_follows_outline reads hasModifiers_capsule
  refine ⟨reads, hasModifiers_capsule, commands, hdrawn, ?_, ?_⟩
  · rw [hkinds, hradius, if_neg one_ne_zero]
  · have hround : ¬capsuleNumbers.cappedRadius ≤ 0 := by
      rw [hradius]
      norm_num
    have hvisits := along.visits
    rw [RectNumbers.rectKnots_eq_roundCorners hround, hradius] at hvisits
    convert hvisits using 1
    norm_num [Frame.roundCorners, RectNumbers.frame, RectNumbers.halfWidth, RectNumbers.halfHeight,
      Frame.about, capsuleNumbers]

end MotionScene
