import Mathlib.Data.List.Chain
import MotionScene.Curve.Path
import MotionScene.Proofs.Exact

/-!
# Paths hang together

Segments lead from one point to another if the first of them starts at the one, each further one
starts where the one before it stops, and the last one stops at the other (`Leads`).  The
segments of a path lead from its first knot through the others, and those of a closed path lead
back to the first one (`leads_segmentsOf`).
-/

namespace MotionScene

variable {R : Type}

/-- A segment is joined to the next one if it stops where that one starts. -/
def Segment.Joins (segment next : Segment R) : Prop :=
  segment.stop = next.start

/-- Segments lead from a point to another one. -/
def Leads : (start : Point R) → List (Segment R) → (stop : Point R) → Prop
  | start, [], stop => start = stop
  | start, segment :: rest, stop => segment.start = start ∧ Leads segment.stop rest stop

@[simp] theorem leads_nil {start stop : Point R} : Leads start [] stop ↔ start = stop := Iff.rfl

@[simp] theorem leads_cons {start stop : Point R} {segment : Segment R}
    {rest : List (Segment R)} :
    Leads start (segment :: rest) stop ↔ segment.start = start ∧ Leads segment.stop rest stop :=
  Iff.rfl

theorem leads_append {start stop : Point R} {segments more : List (Segment R)} :
    Leads start (segments ++ more) stop ↔
      ∃ middle, Leads start segments middle ∧ Leads middle more stop := by
  induction segments generalizing start with
  | nil => simp
  | cons segment rest ih => simp [ih, and_assoc]

/-- Segments of which each is joined to the next lead from the start of the first. -/
theorem exists_leads_of_isChain {segment : Segment R} {rest : List (Segment R)}
    (chain : (segment :: rest).IsChain Segment.Joins) :
    ∃ stop, Leads segment.start (segment :: rest) stop := by
  induction rest generalizing segment with
  | nil => exact ⟨segment.stop, rfl, rfl⟩
  | cons next rest ih =>
      obtain ⟨hjoins, hrest⟩ := List.isChain_cons_cons.mp chain
      obtain ⟨stop, hstop⟩ := ih hrest
      refine ⟨stop, rfl, ?_⟩
      rw [show segment.stop = next.start from hjoins]
      exact hstop

/-! ## Segments through knots -/

variable [Scalar R]

@[simp] theorem start_segmentTo (knot next : Knot R) :
    (knot.segmentTo next).start = knot.vertex := by
  unfold Knot.segmentTo
  split <;> rfl

@[simp] theorem stop_segmentTo (knot next : Knot R) :
    (knot.segmentTo next).stop = next.vertex := by
  unfold Knot.segmentTo
  split <;> rfl

theorem leads_segmentsThrough (knot : Knot R) (rest : List (Knot R)) :
    Leads knot.vertex (knot.segmentsThrough rest) (rest.getLastD knot).vertex := by
  induction rest generalizing knot with
  | nil => rfl
  | cons next rest ih =>
      rw [Knot.segmentsThrough, leads_cons, start_segmentTo, stop_segmentTo, List.getLastD_cons]
      exact ⟨rfl, ih next⟩

/-- The segments of a path lead to its last knot, or back to the first one. -/
theorem leads_segmentsOf (closed : Bool) (first : Knot R) (rest : List (Knot R)) :
    Leads first.vertex (segmentsOf closed (first :: rest))
      (if closed then first else rest.getLastD first).vertex := by
  have hleads := leads_segmentsThrough first (if closed then rest ++ [first] else rest)
  cases closed with
  | false => exact hleads
  | true => simpa [segmentsOf] using hleads

/-- A path has a segment for each of its knots but the last one, and one more if it is closed. -/
theorem length_segmentsOf (closed : Bool) (knots : List (Knot R)) :
    (segmentsOf closed knots).length = if closed then knots.length else knots.length - 1 := by
  have hthrough : ∀ (knot : Knot R) (rest : List (Knot R)),
      (knot.segmentsThrough rest).length = rest.length := by
    intro knot rest
    induction rest generalizing knot with
    | nil => rfl
    | cons next rest ih => rw [Knot.segmentsThrough, List.length_cons, ih, List.length_cons]
  cases knots with
  | nil => cases closed <;> rfl
  | cons first rest =>
      rw [segmentsOf, hthrough]
      cases closed <;> simp

/-! ## Points that count as one -/

theorem Point.isNear_iff (a b : Point ℝ) :
    a.isNear b = true ↔ |a.x - b.x| < 1 / 10 ^ 8 ∧ |a.y - b.y| < 1 / 10 ^ 8 := by
  have htolerance : (Point.tolerance : ℝ) = 1 / 10 ^ 8 := by
    show realOfNumeral (.finite false 1 (-8)) = _
    norm_num [realOfNumeral]
  rw [Point.isNear, Bool.and_eq_true, decide_eq_true_iff, decide_eq_true_iff, htolerance]
  rfl

theorem Point.isNear_self (a : Point ℝ) : a.isNear a = true := by
  rw [isNear_iff, sub_self, sub_self, abs_zero]
  norm_num

end MotionScene
