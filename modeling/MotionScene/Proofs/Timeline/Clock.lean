import MotionScene.Clock
import MotionScene.Proofs.Exact
import MotionScene.Proofs.Outcome

/-!
# The clock in exact arithmetic

The span of a clock is positive, so every frame has a `position` on it; duration and
delay exist as soon as the frame rate is not zero.
-/

namespace MotionScene.Clock

variable (clock : Clock ℝ)

theorem value_span :
    clock.span.value = if 0 < clock.outFrame.value then clock.outFrame.value else 1 := by
  unfold span
  by_cases h : 0 < clock.outFrame.value
  · rw [if_pos h, if_pos ((Number.isPositive_iff _).mpr h)]
  · rw [if_neg h, if_neg (fun hpositive => h ((Number.isPositive_iff _).mp hpositive)),
      Number.value_real, scalar_literal, Nat.cast_one]

theorem value_span_pos : 0 < clock.span.value := by
  rw [value_span]
  split
  · assumption
  · exact one_pos

/-- Where a frame of the composition stands on the clock, before it is moved into the unit
interval. -/
noncomputable def position (frame : Number ℝ) : ℝ :=
  (frame.value + clock.offset.value) / clock.span.value

theorem percent_eq (frame : Number ℝ) :
    clock.percent frame = .ok (Scalar.clampUnit (clock.position frame)) := by
  obtain ⟨root, hroot, hvalue⟩ := Number.exists_add frame clock.offset
  rw [percent, hroot, ok_bind, Number.divide_of_ne clock.value_span_pos.ne', ok_bind, hvalue]
  rfl

theorem percent_of_mem {frame : Number ℝ} (h : clock.position frame ∈ Set.Icc 0 1) :
    clock.percent frame = .ok (clock.position frame) := by
  rw [percent_eq, clampUnit_of_mem h]

theorem position_lt {frame later : Number ℝ} (h : frame.value < later.value) :
    clock.position frame < clock.position later := by
  have hpos := clock.value_span_pos
  unfold position
  gcongr

theorem frameTime_eq (h : clock.frameRate.value ≠ 0) :
    clock.frameTime = .ok (1000 / clock.frameRate.value) := by
  rw [frameTime, Number.divide_of_ne h, Number.value_real, scalar_literal]

theorem duration_eq (h : clock.frameRate.value ≠ 0) :
    clock.duration = .ok (clock.span.value * (1000 / clock.frameRate.value)) := by
  rw [duration, frameTime_eq clock h, ok_bind, Number.toReal_eq, ok_bind]
  rfl

theorem delay_eq (h : clock.frameRate.value ≠ 0) :
    clock.delay = .ok (-clock.inFrame.value * (1000 / clock.frameRate.value)) := by
  unfold delay
  split
  · rename_i hzero
    rw [(Number.isZero_iff _).mp hzero, neg_zero, zero_mul, scalar_literal, Nat.cast_zero]
  · rw [frameTime_eq clock h, ok_bind, Number.toReal_eq, ok_bind, Number.value_negate]
    rfl

/-- A clock with 25 frames a second that starts with its document. -/
def steady : Clock ℝ := ⟨.whole 25, .whole 0, .whole 50, .whole 0, ⟨false, .whole 30, true⟩⟩

theorem position_steady (n : ℤ) : steady.position (.whole n) = n / 50 := by
  rw [position, value_span]
  norm_num [steady]

theorem percent_steady (n : ℤ) (h : (n / 50 : ℝ) ∈ Set.Icc 0 1) :
    steady.percent (.whole n) = .ok (n / 50) := by
  rw [percent_of_mem _ ((position_steady n).symm ▸ h), position_steady]

end MotionScene.Clock
