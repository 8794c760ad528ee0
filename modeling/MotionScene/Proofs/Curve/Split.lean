import Mathlib.Analysis.Convex.Segment
import MotionScene.Proofs.Curve.Part

/-!
# Cuts

A cut only measures a segment anew: each half runs over the segment as the segment itself does, from
its start to the cut or from the cut to its stop (`split_runs_over`).  The points of a segment and
its kind leave no choice for its control points (`eq_of_pointAt_eq`), so no other segment of the
kind runs like one of the halves.  A cut of what lies after a cut, measured anew there, leaves what
lies between the two.
-/

namespace MotionScene

namespace Segment

/-! ## Control points -/

/-- The weights at four parameters determine four numbers. -/
theorem bernstein_injective {a b c d a' b' c' d' : ℝ}
    (h : ∀ t, bernstein t a b c d = bernstein t a' b' c' d') :
    a = a' ∧ b = b' ∧ c = c' ∧ d = d' := by
  have hstart := h 0
  have hstop := h 1
  have hhalf := h (1 / 2)
  have htwo := h 2
  unfold bernstein at hstart hstop hhalf htwo
  refine ⟨?_, ?_, ?_, ?_⟩ <;> linarith

/-- Segments of one kind with the same points are the same. -/
theorem eq_of_pointAt_eq {segment other : Segment ℝ} (hkind : segment.isLine = other.isLine)
    (hpoints : ∀ t, segment.pointAt t = other.pointAt t) : segment = other := by
  have hstart : segment.start = other.start := by
    rw [← pointAt_zero, ← pointAt_zero, hpoints]
  have hstop : segment.stop = other.stop := by
    rw [← pointAt_one, ← pointAt_one, hpoints]
  cases segment with
  | line start stop =>
      cases other with
      | line start' stop' => exact congrArg₂ line hstart hstop
      | cubic => cases hkind
  | cubic start first second stop =>
      cases other with
      | line => cases hkind
      | cubic start' first' second' stop' =>
          simp only [pointAt_cubic, Point.mk.injEq] at hpoints
          obtain ⟨-, hfirstx, hsecondx, -⟩ := bernstein_injective fun t => (hpoints t).1
          obtain ⟨-, hfirsty, hsecondy, -⟩ := bernstein_injective fun t => (hpoints t).2
          cases start; cases first; cases second; cases stop
          cases start'; cases first'; cases second'; cases stop'
          cases hstart; cases hstop; cases hfirstx; cases hsecondx; cases hfirsty; cases hsecondy
          rfl

namespace IsPart

variable {segment piece : Segment ℝ} {lower upper : ℝ}

/-- There is one piece between two parameters. -/
theorem eq_of_isPart (part : segment.IsPart lower upper piece) {other : Segment ℝ}
    (hother : segment.IsPart lower upper other) : other = piece :=
  eq_of_pointAt_eq (hother.kind.trans part.kind.symm) fun t =>
    (hother.runs t).trans (part.runs t).symm

/-- A piece has the points that the segment has between the two parameters. -/
theorem image_eq (part : segment.IsPart lower upper piece) :
    (fun t => piece.pointAt t) '' Set.Icc 0 1 =
      (fun t => segment.pointAt t) '' Set.uIcc lower upper := by
  have hparameters : (fun t => lower + t * (upper - lower)) '' Set.Icc 0 1 =
      Set.uIcc lower upper := by
    rw [← segment_eq_uIcc, segment_eq_image']
    rfl
  rw [← hparameters, Set.image_image]
  exact Set.image_congr fun t _ => part.runs t

end IsPart

/-! ## Halves -/

theorem isPart_split_fst (segment : Segment ℝ) (t : ℝ) :
    segment.IsPart 0 t (segment.split t).1 :=
  segment.isPart_self.before_cut (by ring)

theorem isPart_split_snd (segment : Segment ℝ) (t : ℝ) :
    segment.IsPart t 1 (segment.split t).2 :=
  segment.isPart_self.after_cut (by ring)

/-- A second cut, measured anew in what the first one leaves after it, ends the piece between the
two. -/
theorem isPart_between {segment : Segment ℝ} {lower upper cut : ℝ} (hlower : lower ≠ 1)
    (hcut : Number.divideReal (upper - lower) (1 - lower) = .ok cut) :
    segment.IsPart lower upper ((segment.split lower).2.split cut).1 := by
  have hne : 1 - lower ≠ 0 := sub_ne_zero.mpr hlower.symm
  rw [Number.divideReal_eq, if_neg hne] at hcut
  cases hcut
  refine (segment.isPart_split_snd lower).before_cut ?_
  rw [div_mul_cancel₀ _ hne, add_sub_cancel]

/-- **A cut measures a segment anew.**  The halves have the kind of the segment and run over it
before and after the cut, and no other segments do; they meet at the point of the cut.  Between two
parameters, the first of them not the last of the segment, the two cuts one after the other leave
what runs over the segment from one to the other. -/
theorem split_runs_over (segment : Segment ℝ) (t : ℝ) :
    ((segment.split t).1.isLine = segment.isLine ∧ (segment.split t).2.isLine = segment.isLine) ∧
      (∀ u, (segment.split t).1.pointAt u = segment.pointAt (t * u) ∧
        (segment.split t).2.pointAt u = segment.pointAt (t + (1 - t) * u)) ∧
      ((segment.split t).1.start = segment.start ∧ (segment.split t).2.stop = segment.stop ∧
        (segment.split t).1.stop = segment.pointAt t ∧
        (segment.split t).2.start = segment.pointAt t) ∧
      (∀ piece, (segment.IsPart 0 t piece ↔ piece = (segment.split t).1) ∧
        (segment.IsPart t 1 piece ↔ piece = (segment.split t).2)) ∧
      ∀ lower upper : ℝ, lower < 1 → ∃ cut piece,
        Number.divideReal (upper - lower) (1 - lower) = .ok cut ∧
        ((segment.split lower).2.split cut).1 = piece ∧ piece.isLine = segment.isLine ∧
        (∀ u, piece.pointAt u = segment.pointAt (lower + (upper - lower) * u)) ∧
        (fun u => piece.pointAt u) '' Set.Icc 0 1 =
          (fun u => segment.pointAt u) '' Set.uIcc lower upper := by
  have hbefore := segment.isPart_split_fst t
  have hafter := segment.isPart_split_snd t
  refine ⟨isLine_split t segment, fun u => ⟨?_, ?_⟩,
    ⟨start_split t segment, stop_split t segment, hbefore.stop_eq, hafter.start_eq⟩,
    fun piece => ⟨⟨hbefore.eq_of_isPart, ?_⟩, ⟨hafter.eq_of_isPart, ?_⟩⟩, ?_⟩
  · rw [pointAt_split_fst, mul_comm]
  · rw [pointAt_split_snd, mul_comm]
  · rintro rfl
    exact hbefore
  · rintro rfl
    exact hafter
  · intro lower upper hlower
    have hcut : Number.divideReal (upper - lower) (1 - lower) =
        .ok ((upper - lower) / (1 - lower)) := by
      rw [Number.divideReal_eq, if_neg (sub_ne_zero.mpr hlower.ne')]
    have hpart : segment.IsPart lower upper _ := isPart_between hlower.ne hcut
    refine ⟨_, _, hcut, rfl, hpart.kind, fun u => ?_, hpart.image_eq⟩
    rw [hpart.runs, mul_comm]

/-- A curve whose control points lie far from the line between its ends. -/
def swungCurve : Segment ℝ :=
  .cubic ⟨0, 0⟩ ⟨8, 0⟩ ⟨0, 8⟩ ⟨8, 8⟩

/-- The curve is cut back from three quarters to a quarter, against its direction. -/
theorem split_swungCurve : (3 / 4 : ℝ) < 1 ∧ ∃ cut piece,
    Number.divideReal (1 / 4 - 3 / 4 : ℝ) (1 - 3 / 4) = .ok cut ∧
      ((swungCurve.split (3 / 4)).2.split cut).1 = piece ∧ piece.isLine = false ∧
      (∀ u, piece.pointAt u = swungCurve.pointAt (3 / 4 + (1 / 4 - 3 / 4) * u)) ∧
      (fun u => piece.pointAt u) '' Set.Icc 0 1 =
        (fun u => swungCurve.pointAt u) '' Set.uIcc (3 / 4) (1 / 4) := by
  have hlower : (3 / 4 : ℝ) < 1 := by norm_num
  exact ⟨hlower, (split_runs_over swungCurve (1 / 2)).2.2.2.2 (3 / 4) (1 / 4) hlower⟩

end Segment

end MotionScene
