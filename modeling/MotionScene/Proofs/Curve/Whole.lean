import Mathlib.Algebra.Order.BigOperators.Group.List
import MotionScene.Proofs.Curve.Stretches
import MotionScene.Proofs.Drawing.Replay

/-!
# Trims of the whole path

A trim is tested for keeping the whole path before its stretches are worked out, and such a path
is drawn without trimming it.  The test compares the ends as they are, while the stretches are
worked out of the ends taken into the path, moved on and wrapped around.  Both come to the same
(`isIdentity_iff_stretches`), and trimming a path by the one stretch that is all of it gives the
path back as a single run (`trimPath_of_isIdentity`), so the short way draws what the long one
would have drawn.
-/

namespace MotionScene

/-! ## The test for the whole path -/

theorem clampUnit_mono : Monotone (Scalar.clampUnit : ℝ → ℝ) := by
  intro x y hle
  rw [clampUnit_eq, clampUnit_eq]
  gcongr

theorem clampUnit_eq_zero_iff (x : ℝ) : Scalar.clampUnit x = 0 ↔ x ≤ 0 := by
  rw [clampUnit_eq]
  constructor
  · intro h
    rcases min_eq_iff.mp h with ⟨hone, -⟩ | ⟨hzero, -⟩
    · exact absurd hone one_ne_zero
    · exact max_eq_left_iff.mp hzero
  · intro h
    rw [max_eq_left h, min_eq_right zero_le_one]

theorem clampUnit_eq_one_iff (x : ℝ) : Scalar.clampUnit x = 1 ↔ 1 ≤ x := by
  rw [clampUnit_eq, min_eq_left_iff, le_max_iff]
  exact or_iff_right (not_le.mpr one_pos)

namespace Trim

variable (trim : Trim ℝ)

theorem lower_eq_zero_iff : trim.lower = 0 ↔ min trim.start trim.stop ≤ 0 := by
  rw [lower, ← clampUnit_mono.map_min, clampUnit_eq_zero_iff]

theorem upper_eq_one_iff : trim.upper = 1 ↔ 1 ≤ max trim.start trim.stop := by
  rw [upper, ← clampUnit_mono.map_max, clampUnit_eq_one_iff]

/-- The test compares the ends that are not yet taken into the path. -/
theorem isIdentity_iff :
    trim.isIdentity = true ↔
      trim.lower = 0 ∧ trim.upper = 1 ∧ Int.fract trim.offset = 0 := by
  have hfraction : Scalar.fraction trim.offset = Int.fract trim.offset := rfl
  rw [lower_eq_zero_iff, upper_eq_one_iff, isIdentity, inOrder_eq, beq_zero, hfraction,
    scalar_literal, scalar_literal, Nat.cast_zero, Nat.cast_one, Bool.and_eq_true,
    Bool.and_eq_true, decide_eq_true_iff, decide_eq_true_iff, decide_eq_true_iff, and_assoc]

end Trim

/-- The stretches are the whole path only if the interval is all of it and is not moved: one that
is moved on leaves the start of the path, or comes in again and leaves its end. -/
theorem Wraps.eq_unit {lower upper shift : ℝ} (wraps : Wraps lower upper shift [⟨0, 1⟩])
    (hlower : 0 ≤ lower) (hupper : upper ≤ 1) (hshift : shift ∈ Set.Ico 0 1) :
    lower = 0 ∧ upper = 1 ∧ shift = 0 := by
  obtain ⟨hnonneg, hlt⟩ := hshift
  generalize hstretches : [Stretch.mk (0 : ℝ) 1] = stretches at wraps
  cases wraps with
  | nothing => cases hstretches
  | before =>
      obtain ⟨hstart, hstop⟩ := Stretch.mk.inj (List.singleton_inj.mp hstretches)
      exact ⟨by linarith, by linarith, by linarith⟩
  | beyond =>
      obtain ⟨-, hstop⟩ := Stretch.mk.inj (List.singleton_inj.mp hstretches)
      linarith
  | across => exact absurd (congrArg List.length hstretches) (by simp)

theorem isIdentity_iff_stretches (trim : Trim ℝ) :
    trim.isIdentity = true ↔ trim.stretches = [⟨0, 1⟩] := by
  rw [Trim.isIdentity_iff]
  constructor
  · rintro ⟨hlower, hupper, hoffset⟩
    rw [stretches_eq, hlower, hupper, if_neg zero_ne_one, if_pos hoffset]
  · intro hstretches
    have wraps := wraps_stretches trim
    rw [hstretches] at wraps
    exact wraps.eq_unit (le_min (clampUnit_mem _).1 (clampUnit_mem _).1)
      (max_le (clampUnit_mem _).2 (clampUnit_mem _).2) ⟨Int.fract_nonneg _, Int.fract_lt_one _⟩

/-! ## Segments that have a length -/

theorem eq_of_distance_eq_zero {a b : Point ℝ} (h : a.distance b = 0) : a = b := by
  have hsquares : (b.x - a.x) ^ 2 + (b.y - a.y) ^ 2 = 0 :=
    (Real.sqrt_eq_zero (by positivity)).mp h
  obtain ⟨hx, hy⟩ := (add_eq_zero_iff_of_nonneg (sq_nonneg _) (sq_nonneg _)).mp hsquares
  rw [sq_eq_zero_iff, sub_eq_zero] at hx hy
  exact congrArg₂ Point.mk hx.symm hy.symm

/-- Distances that add nothing do not lead away from a point. -/
theorem eq_getLastD_of_addDistances_le {sum : ℝ} {last : Point ℝ} {points : List (Point ℝ)}
    (h : Segment.addDistances sum last points ≤ sum) : last = points.getLastD last := by
  induction points generalizing sum last with
  | nil => rfl
  | cons next rest ih =>
      have hstep : sum + last.distance next ≤ sum :=
        (le_addDistances _ next rest).trans h
      have hnext : last.distance next = 0 :=
        le_antisymm (by linarith) (distance_nonneg last next)
      rw [Segment.addDistances, hnext, add_zero] at h
      rw [eq_of_distance_eq_zero hnext, List.getLastD_cons]
      exact ih h

/-- A curve is measured up to its stop. -/
theorem getLastD_samples (segment : Segment ℝ) (last : Point ℝ) :
    segment.samples.getLastD last = segment.stop := by
  rw [Segment.samples, Segment.measuringSteps, List.range_succ, List.map_append, List.map_singleton,
    List.getLastD_concat]
  have hend : (Scalar.ofNat (9 + 1) : ℝ) / Scalar.ofNat 10 = 1 := div_self (by simp [Scalar.ofNat])
  rw [hend, Segment.pointAt_one]

/-- A segment that leads to another point has a length. -/
theorem length_pos {segment : Segment ℝ} (apart : segment.start ≠ segment.stop) :
    0 < segment.length := by
  refine lt_of_not_ge fun hle => apart ?_
  cases segment with
  | line start stop => exact eq_of_distance_eq_zero (le_antisymm hle (distance_nonneg start stop))
  | cubic start first second stop =>
      rw [Segment.length, scalar_zero] at hle
      have hlast := eq_getLastD_of_addDistances_le hle
      rwa [getLastD_samples] at hlast

/-! ## The walk over the whole path -/

theorem part_whole (segment : Segment ℝ) : segment.part 0 1 = .ok segment := by
  rw [Segment.part_eq, if_neg (lt_irrefl 0), if_neg (lt_irrefl 1)]

/-- Up to the end of the path every segment that has a length is kept whole: the induction
carries that the lengths before and behind add up to the end. -/
theorem piecesBetween_whole {measured : List (Segment ℝ × ℝ)}
    (positive : ∀ piece ∈ measured, 0 < piece.2) {before stop : ℝ} (hbefore : 0 ≤ before)
    (hstop : before + (measured.map Prod.snd).sum = stop) :
    piecesBetween 0 stop before measured = .ok (measured.map fun piece => ⟨piece.1, false⟩) := by
  induction measured generalizing before with
  | nil => rfl
  | cons piece rest ih =>
      obtain ⟨segment, length⟩ := piece
      obtain ⟨hlength, hrest⟩ := List.forall_mem_cons.mp positive
      have hsum : 0 ≤ (rest.map Prod.snd).sum := List.sum_nonneg fun x hx => by
        obtain ⟨later, hlater, rfl⟩ := List.mem_map.mp hx
        exact (hrest later hlater).le
      rw [List.map_cons, List.sum_cons, ← add_assoc] at hstop
      dsimp only at hlength hstop
      have hkept : ¬ (length ≤ 0 ∨ before + length ≤ 0) := by
        rintro (h | h) <;> linarith
      have hwithin : ¬ stop ≤ before := by linarith
      have huncut : ¬ stop < before + length := by linarith
      rw [piecesBetween_cons, if_neg hkept, if_neg hwithin, if_neg (not_lt.mpr hbefore),
        if_neg huncut, ok_bind, ok_bind, part_whole, ok_bind,
        ih hrest (add_nonneg hbefore hlength.le) hstop, ok_bind, List.map_cons]
      rw [decide_eq_false (lt_irrefl 0)]
      rfl

theorem keepStretch_whole {segments : List (Segment ℝ)} {lengths : List ℝ}
    (hlength : lengths.length = segments.length) (nonempty : segments ≠ [])
    (positive : ∀ length ∈ lengths, 0 < length) :
    keepStretch segments lengths ⟨0, 1⟩ = .ok [segments] := by
  have htotal : 0 < lengths.sum := by
    refine List.sum_pos _ positive ?_
    rw [← List.length_pos_iff, hlength, List.length_pos_iff]
    exact nonempty
  have hmeasured : ((segments.zip lengths).map Prod.snd).sum = lengths.sum := by
    rw [List.map_snd_zip hlength.le]
  have hpieces : piecesBetween 0 lengths.sum 0 (segments.zip lengths) =
      .ok ((segments.zip lengths).map fun piece => ⟨piece.1, false⟩) := by
    refine piecesBetween_whole ?_ le_rfl ?_
    · rintro ⟨segment, length⟩ hpiece
      exact positive length (List.of_mem_zip hpiece).2
    · rw [zero_add, hmeasured]
  have hsegments : ((segments.zip lengths).map fun piece => Piece.mk piece.1 false).map
      Piece.segment = segments := by
    rw [List.map_map]
    exact List.map_fst_zip hlength.ge
  rw [keepStretch_eq, if_neg (not_or.mpr ⟨not_le.mpr htotal, not_le.mpr one_pos⟩), zero_mul,
    one_mul, hpieces]
  show Except.ok (runsOf _) = _
  rw [runsOf_eq_singleton, hsegments]
  · intro hempty
    rw [hempty] at hsegments
    exact nonempty hsegments.symm
  · intro piece hpiece
    obtain ⟨_, -, rfl⟩ := List.mem_map.mp (List.mem_of_mem_tail hpiece)
    rfl

theorem trimPath_of_isIdentity {trim : Trim ℝ} (identity : trim.isIdentity = true)
    {segments : List (Segment ℝ)} (nonempty : segments ≠ [])
    (positive : ∀ segment ∈ segments, 0 < segment.length) :
    trimPath segments trim = .ok [segments] := by
  have hlengths : ∀ length ∈ segments.map Segment.length, 0 < length := by
    rw [List.forall_mem_map]
    exact positive
  rw [trimPath, (isIdentity_iff_stretches trim).mp identity, List.mapM_cons, List.mapM_nil,
    keepStretch_whole (List.length_map _) nonempty hlengths]
  rfl

theorem drawSegments_open {R : Type} (segments : List (Segment R)) :
    drawSegments false segments = drawRuns [segments] := by
  cases segments with
  | nil => rfl
  | cons first rest =>
      rw [drawSegments, followSegments_open]
      simp [drawRuns, drawRun]

/-- **The short way round a trim agrees with the long one.**  A trim passes the test for the
whole path exactly if its only stretch is the whole path.  Then it keeps of every path that has
segments, all of them with a length, one run with all of them, so that an open path is drawn by
the same commands whether it is trimmed or not. -/
theorem whole_trim_agrees (trim : Trim ℝ) :
    (trim.isIdentity = true ↔ trim.stretches = [⟨0, 1⟩]) ∧
    ∀ segments : List (Segment ℝ), segments ≠ [] → (∀ segment ∈ segments, 0 < segment.length) →
      trim.isIdentity = true →
        trimPath segments trim = .ok [segments] ∧
        drawRuns <$> trimPath segments trim = .ok (drawSegments false segments) := by
  refine ⟨isIdentity_iff_stretches trim, fun segments nonempty positive identity => ?_⟩
  have hruns := trimPath_of_isIdentity identity nonempty positive
  refine ⟨hruns, ?_⟩
  rw [hruns, drawSegments_open]
  rfl

/-! ## A trim from behind the path to before it -/

/-- A trim whose ends lie outside the path and stand in reverse order, moved on by three turns. -/
def outerTrim : Trim ℝ :=
  ⟨(2 : ℤ), (-1 : ℤ), (3 : ℤ)⟩

/-- A line, and a curve that leads back to its start. -/
def thereAndBack : List (Segment ℝ) :=
  [.line ⟨0, 0⟩ ⟨1, 0⟩, .cubic ⟨1, 0⟩ ⟨1, 1⟩ ⟨0, 1⟩ ⟨0, 0⟩]

theorem whole_trim_agrees_outerTrim :
    outerTrim.isIdentity = true ∧ thereAndBack ≠ [] ∧
      (∀ segment ∈ thereAndBack, 0 < segment.length) ∧
      trimPath thereAndBack outerTrim = .ok [thereAndBack] ∧
      drawRuns <$> trimPath thereAndBack outerTrim = .ok (drawSegments false thereAndBack) := by
  obtain ⟨-, hkeeps⟩ := whole_trim_agrees outerTrim
  have hidentity : outerTrim.isIdentity = true := by
    rw [Trim.isIdentity_iff, Trim.lower_eq_zero_iff, Trim.upper_eq_one_iff, outerTrim]
    exact ⟨by norm_num, by norm_num, Int.fract_intCast 3⟩
  have hnonempty : thereAndBack ≠ [] := List.cons_ne_nil _ _
  have hpositive : ∀ segment ∈ thereAndBack, 0 < segment.length := by
    have hapart : ∀ segment ∈ thereAndBack, segment.start ≠ segment.stop := by
      simp [thereAndBack, Segment.start, Segment.stop]
    exact fun segment hsegment => length_pos (hapart segment hsegment)
  exact ⟨hidentity, hnonempty, hpositive, hkeeps thereAndBack hnonempty hpositive hidentity⟩

end MotionScene
