import Mathlib.Tactic.Linarith
import MotionScene.Curve.Trim
import MotionScene.Proofs.Exact
import MotionScene.Proofs.Outcome

/-!
# Parts of segments

A part of a segment runs over it between two parameters.  Cutting a segment leaves its two
parts before and after the cut, cutting a part leaves parts again, and so does taking both
cuts one after the other, the second one measured anew in what the first one left
(`exists_part`).
-/

namespace MotionScene

namespace Segment

/-! ## Points on a segment -/

theorem pointAt_line (start stop : Point ℝ) (t : ℝ) :
    (line start stop).pointAt t =
      ⟨start.x + (stop.x - start.x) * t, start.y + (stop.y - start.y) * t⟩ := rfl

/-- The weight of the four points of a curve at a parameter. -/
def bernstein (t a b c d : ℝ) : ℝ :=
  (1 - t) ^ 3 * a + 3 * (1 - t) ^ 2 * t * b + 3 * (1 - t) * t ^ 2 * c + t ^ 3 * d

theorem pointAt_cubic (start first second stop : Point ℝ) (t : ℝ) :
    (cubic start first second stop).pointAt t =
      ⟨bernstein t start.x first.x second.x stop.x,
        bernstein t start.y first.y second.y stop.y⟩ := by
  simp only [pointAt, scalar_literal, bernstein, Point.mk.injEq]
  push_cast
  constructor <;> ring

theorem pointAt_zero (segment : Segment ℝ) : segment.pointAt 0 = segment.start := by
  cases segment with
  | line start stop => rw [pointAt_line, mul_zero, mul_zero, add_zero, add_zero, Segment.start]
  | cubic start first second stop =>
      have hzero : ∀ a b c d, bernstein 0 a b c d = a := fun a b c d => by unfold bernstein; ring
      rw [pointAt_cubic, hzero, hzero, Segment.start]

theorem pointAt_one (segment : Segment ℝ) : segment.pointAt 1 = segment.stop := by
  cases segment with
  | line start stop =>
      rw [pointAt_line, mul_one, mul_one, add_sub_cancel, add_sub_cancel, Segment.stop]
  | cubic start first second stop =>
      have hone : ∀ a b c d, bernstein 1 a b c d = d := fun a b c d => by unfold bernstein; ring
      rw [pointAt_cubic, hone, hone, Segment.stop]

theorem pointAt_split_fst (segment : Segment ℝ) (t u : ℝ) :
    (segment.split t).1.pointAt u = segment.pointAt (u * t) := by
  cases segment with
  | line start stop =>
      simp only [split, Point.between, pointAt_line, Point.mk.injEq]
      constructor <;> ring
  | cubic start first second stop =>
      simp only [split, Point.between, pointAt_cubic, bernstein, Point.mk.injEq]
      constructor <;> ring

theorem pointAt_split_snd (segment : Segment ℝ) (t u : ℝ) :
    (segment.split t).2.pointAt u = segment.pointAt (t + u * (1 - t)) := by
  cases segment with
  | line start stop =>
      simp only [split, Point.between, pointAt_line, Point.mk.injEq]
      constructor <;> ring
  | cubic start first second stop =>
      simp only [split, Point.between, pointAt_cubic, bernstein, Point.mk.injEq]
      constructor <;> ring

/-! ## Parts -/

/-- A piece has the kind of a segment and runs over it between two parameters. -/
structure IsPart (segment : Segment ℝ) (lower upper : ℝ) (piece : Segment ℝ) : Prop where
  kind : piece.isLine = segment.isLine
  runs : ∀ t, piece.pointAt t = segment.pointAt (lower + t * (upper - lower))

theorem isPart_self (segment : Segment ℝ) : segment.IsPart 0 1 segment where
  kind := rfl
  runs t := by rw [zero_add, sub_zero, mul_one]

namespace IsPart

variable {segment piece : Segment ℝ} {lower upper : ℝ}

theorem start_eq (part : segment.IsPart lower upper piece) :
    piece.start = segment.pointAt lower := by
  rw [← pointAt_zero, part.runs, zero_mul, add_zero]

theorem stop_eq (part : segment.IsPart lower upper piece) :
    piece.stop = segment.pointAt upper := by
  rw [← pointAt_one, part.runs, one_mul, add_sub_cancel]

/-- What a cut leaves before it. -/
theorem before_cut (part : segment.IsPart lower upper piece) {t cut : ℝ}
    (hcut : lower + t * (upper - lower) = cut) :
    segment.IsPart lower cut (piece.split t).1 where
  kind := (isLine_split t piece).1.trans part.kind
  runs u := by
    rw [pointAt_split_fst, part.runs, ← hcut]
    ring_nf

/-- What a cut leaves after it. -/
theorem after_cut (part : segment.IsPart lower upper piece) {t cut : ℝ}
    (hcut : lower + t * (upper - lower) = cut) :
    segment.IsPart cut upper (piece.split t).2 where
  kind := (isLine_split t piece).2.trans part.kind
  runs u := by
    rw [pointAt_split_snd, part.runs, ← hcut]
    ring_nf

end IsPart

theorem part_eq (segment : Segment ℝ) (lower upper : ℝ) :
    segment.part lower upper =
      let rest := if 0 < lower then (segment.split lower).2 else segment
      if upper < 1 then do
        return (rest.split (← Number.divideReal (upper - lower) (1 - lower))).1
      else .ok rest := by
  unfold part
  simp only [scalar_literal, Nat.cast_zero, Nat.cast_one]

/-- Both cuts of a segment can be taken, and leave the part between them. -/
theorem exists_part (segment : Segment ℝ) {lower upper : ℝ} (hlower : 0 ≤ lower)
    (hlt : lower < upper) (hupper : upper ≤ 1) :
    ∃ piece, segment.part lower upper = .ok piece ∧ segment.IsPart lower upper piece := by
  obtain ⟨rest, hrest, hpart⟩ : ∃ rest, (if 0 < lower then (segment.split lower).2 else segment) =
      rest ∧ segment.IsPart lower 1 rest := by
    refine ⟨_, rfl, ?_⟩
    split
    · exact segment.isPart_self.after_cut (by ring)
    · rename_i hnot
      obtain rfl : lower = 0 := le_antisymm (not_lt.mp hnot) hlower
      exact segment.isPart_self
  rw [part_eq, hrest]
  split
  · have hne : 1 - lower ≠ 0 := by linarith
    refine ⟨_, bind_eq_ok.mpr ⟨(upper - lower) / (1 - lower), ?_, rfl⟩, hpart.before_cut ?_⟩
    · rw [Number.divideReal_eq, if_neg hne]
    · rw [div_mul_cancel₀ _ hne, add_sub_cancel]
  · rename_i hnot
    obtain rfl : upper = 1 := le_antisymm hupper (not_lt.mp hnot)
    exact ⟨rest, rfl, hpart⟩

end Segment

end MotionScene
