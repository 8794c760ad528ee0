import Mathlib.Order.SymmDiff
import MotionScene.Proofs.Curve.Trim

/-!
# A trim keeps the shifted interval

The two ends of a trim, taken into the unit interval, are the ends of an interval of
fractions of a path, and the offset moves this interval on, modulo the whole path.  A trim
keeps the moved interval, as one stretch or as two (`stretches_wrap_interval`), and so it
keeps a part of the path that is as long for every offset.

How the moved interval meets the end of the path is told by `Wraps`, with one constructor
for each of the four ways; everything about stretches is read off it.  What a stretch keeps
of a path is told by the cuts of its pieces, as for a single stretch.
-/

namespace MotionScene

/-! ## The stretches of a trim -/

/-- The stretches of the interval between two fractions, moved on by part of a turn: none if
the interval is empty, one if it stays before the end of the path or goes all beyond it, and
two if it lies across the end. -/
inductive Wraps (lower upper shift : ℝ) : List (Stretch ℝ) → Prop
  | nothing : lower = upper → Wraps lower upper shift []
  | before : lower < upper → upper + shift ≤ 1 →
      Wraps lower upper shift [⟨lower + shift, upper + shift⟩]
  | beyond : lower < upper → 1 ≤ lower + shift →
      Wraps lower upper shift [⟨lower + shift - 1, upper + shift - 1⟩]
  | across : lower + shift < 1 → 1 < upper + shift →
      Wraps lower upper shift [⟨0, upper + shift - 1⟩, ⟨lower + shift, 1⟩]

/-- The fractions of a path that lie in some of its stretches. -/
def covered (stretches : List (Stretch ℝ)) : Set ℝ :=
  {y | ∃ stretch ∈ stretches, y ∈ Set.Icc stretch.start stretch.stop}

/-- What a fraction becomes that is moved on by a number of turns. -/
noncomputable def wrapped (offset x : ℝ) : ℝ :=
  Int.fract (x + offset)

namespace Trim

/-- The lower end of a trim within the path. -/
noncomputable def lower (trim : Trim ℝ) : ℝ :=
  min (Scalar.clampUnit trim.start) (Scalar.clampUnit trim.stop)

/-- The upper end of a trim within the path. -/
noncomputable def upper (trim : Trim ℝ) : ℝ :=
  max (Scalar.clampUnit trim.start) (Scalar.clampUnit trim.stop)

end Trim

theorem inOrder_eq (x y : ℝ) : Scalar.inOrder x y = (min x y, max x y) := by
  unfold Scalar.inOrder
  split
  · rename_i h
    rw [min_eq_right h.le, max_eq_left h.le]
  · rename_i h
    rw [min_eq_left (not_lt.mp h), max_eq_right (not_lt.mp h)]

theorem stretches_eq (trim : Trim ℝ) :
    trim.stretches =
      if trim.lower = trim.upper then []
      else if Int.fract trim.offset = 0 then [⟨trim.lower, trim.upper⟩]
      else if trim.upper + Int.fract trim.offset ≤ 1 then
        [⟨trim.lower + Int.fract trim.offset, trim.upper + Int.fract trim.offset⟩]
      else if 1 ≤ trim.lower + Int.fract trim.offset then
        [⟨trim.lower + Int.fract trim.offset - 1, trim.upper + Int.fract trim.offset - 1⟩]
      else
        [⟨0, trim.upper + Int.fract trim.offset - 1⟩, ⟨trim.lower + Int.fract trim.offset, 1⟩] := by
  have hbeq : ∀ x y : ℝ, (x == y) = decide (x = y) := fun _ _ => rfl
  have hfraction : ∀ x : ℝ, Scalar.fraction x = Int.fract x := fun _ => rfl
  simp only [Trim.stretches, inOrder_eq, scalar_literal, Nat.cast_zero, Nat.cast_one, hbeq,
    hfraction, decide_eq_true_eq]
  rfl

theorem wraps_stretches (trim : Trim ℝ) :
    Wraps trim.lower trim.upper (Int.fract trim.offset) trim.stretches := by
  have hle : trim.lower ≤ trim.upper := min_le_max
  have hone : trim.upper ≤ 1 := max_le (clampUnit_mem _).2 (clampUnit_mem _).2
  rw [stretches_eq]
  by_cases hempty : trim.lower = trim.upper
  · rw [if_pos hempty]
    exact .nothing hempty
  have hlt := lt_of_le_of_ne hle hempty
  rw [if_neg hempty]
  by_cases hzero : Int.fract trim.offset = 0
  · -- a trim that is not moved stays before the end
    rw [if_pos hzero, hzero]
    have hwraps : Wraps trim.lower trim.upper 0 [⟨trim.lower + 0, trim.upper + 0⟩] :=
      .before hlt (by simpa using hone)
    simpa using hwraps
  rw [if_neg hzero]
  by_cases hbefore : trim.upper + Int.fract trim.offset ≤ 1
  · rw [if_pos hbefore]
    exact .before hlt hbefore
  rw [if_neg hbefore]
  by_cases hbeyond : 1 ≤ trim.lower + Int.fract trim.offset
  · rw [if_pos hbeyond]
    exact .beyond hlt hbeyond
  rw [if_neg hbeyond]
  exact .across (not_le.mp hbeyond) (not_le.mp hbefore)

/-- A fraction moved on by less than a turn stays where it is, or comes in again at the start
of the path. -/
theorem wrapped_eq {x offset : ℝ} (hx : x ∈ Set.Icc 0 1) :
    wrapped offset x =
      if x + Int.fract offset < 1 then x + Int.fract offset else x + Int.fract offset - 1 := by
  have hnonneg := Int.fract_nonneg offset
  have hlt := Int.fract_lt_one offset
  have hturn : wrapped offset x = Int.fract (x + Int.fract offset) := by
    rw [wrapped, Int.fract_eq_fract]
    exact ⟨⌊offset⌋, by rw [← Int.self_sub_floor offset]; ring⟩
  rw [hturn]
  split
  · rename_i h
    exact Int.fract_eq_self.mpr ⟨add_nonneg hx.1 hnonneg, h⟩
  · rename_i h
    rw [← Int.fract_sub_one]
    exact Int.fract_eq_self.mpr ⟨sub_nonneg.mpr (not_lt.mp h), by linarith [hx.2]⟩

namespace Wraps

variable {lower upper shift : ℝ} {stretches : List (Stretch ℝ)}
  (wraps : Wraps lower upper shift stretches)

include wraps

theorem length_le : stretches.length ≤ 2 := by
  cases wraps <;> simp

theorem width_eq :
    (stretches.map fun stretch => stretch.stop - stretch.start).sum = upper - lower := by
  cases wraps with
  | nothing h => simp [h]
  | before => simp
  | beyond => simp
  | across => simp

variable (hlower : 0 ≤ lower) (hupper : upper ≤ 1)

include hlower hupper

theorem within (hshift : shift ∈ Set.Ico 0 1) : ∀ stretch ∈ stretches,
    0 ≤ stretch.start ∧ stretch.start < stretch.stop ∧ stretch.stop ≤ 1 := by
  obtain ⟨hnonneg, hlt⟩ := hshift
  cases wraps with
  | nothing => simp
  | before hinterval hend =>
      simp only [List.mem_singleton, forall_eq]
      exact ⟨add_nonneg hlower hnonneg, by linarith, hend⟩
  | beyond hinterval hend =>
      simp only [List.mem_singleton, forall_eq]
      exact ⟨by linarith, by linarith, by linarith⟩
  | across hstart hend =>
      simp only [List.mem_cons, List.not_mem_nil, or_false, forall_eq_or_imp, forall_eq]
      exact ⟨⟨le_rfl, by linarith, by linarith⟩, by linarith, hstart, le_rfl⟩

theorem ordered : stretches.Pairwise fun first second => first.stop ≤ second.start := by
  cases wraps with
  | nothing => exact .nil
  | before => exact List.pairwise_singleton _ _
  | beyond => exact List.pairwise_singleton _ _
  | across => simpa using by linarith

/-- The stretches cover the moved interval, up to the two ends of the path and, for an empty
interval, its one point. -/
theorem symmDiff_covered {offset : ℝ} (hle : lower ≤ upper) (hshift : shift = Int.fract offset) :
    symmDiff (covered stretches) (wrapped offset '' Set.Icc lower upper) ⊆
      {0, 1, wrapped offset lower} := by
  have hwrapped : ∀ x ∈ Set.Icc lower upper, wrapped offset x =
      if x + shift < 1 then x + shift else x + shift - 1 := fun x hx => by
    rw [hshift]
    exact wrapped_eq ⟨hlower.trans hx.1, hx.2.trans hupper⟩
  have hlt : shift < 1 := hshift ▸ Int.fract_lt_one offset
  -- a covered fraction below the end comes from one before it, or from one beyond it
  have hbefore : ∀ y, y < 1 → y - shift ∈ Set.Icc lower upper →
      y ∈ wrapped offset '' Set.Icc lower upper := fun y hy hx => by
    refine ⟨y - shift, hx, ?_⟩
    rw [hwrapped _ hx, if_pos (by linarith), sub_add_cancel]
  have hbeyond : ∀ y, 0 ≤ y → y + 1 - shift ∈ Set.Icc lower upper →
      y ∈ wrapped offset '' Set.Icc lower upper := fun y hy hx => by
    refine ⟨y + 1 - shift, hx, ?_⟩
    rw [hwrapped _ hx, if_neg (by linarith)]
    ring
  rintro y (⟨⟨stretch, hmem, hy⟩, hnot⟩ | ⟨⟨x, hx, rfl⟩, hnot⟩)
  · cases wraps with
    | nothing => cases hmem
    | before =>
        obtain rfl := List.mem_singleton.mp hmem
        obtain ⟨hlow, hhigh⟩ := hy
        dsimp only at hlow hhigh
        rcases lt_or_ge y 1 with hone | hone
        · exact absurd (hbefore y hone ⟨by linarith, by linarith⟩) hnot
        · exact .inr (.inl (by linarith))
    | beyond hinterval hend =>
        obtain rfl := List.mem_singleton.mp hmem
        obtain ⟨hlow, hhigh⟩ := hy
        dsimp only at hlow hhigh
        exact absurd (hbeyond y (by linarith) ⟨by linarith, by linarith⟩) hnot
    | across hstart hend =>
        obtain ⟨hlow, hhigh⟩ := hy
        rcases List.mem_pair.mp hmem with rfl | rfl <;> dsimp only at hlow hhigh
        · exact absurd (hbeyond y hlow ⟨by linarith, by linarith⟩) hnot
        · rcases lt_or_ge y 1 with hone | hone
          · exact absurd (hbefore y hone ⟨by linarith, by linarith⟩) hnot
          · exact .inr (.inl (le_antisymm hhigh hone))
  · have hvalue := hwrapped x hx
    cases wraps with
    | nothing hempty =>
        obtain rfl : x = lower := le_antisymm (hempty ▸ hx.2) hx.1
        exact .inr (.inr rfl)
    | before hinterval hend =>
        rcases lt_or_ge (x + shift) 1 with hone | hone
        · rw [if_pos hone] at hvalue
          refine absurd ⟨_, List.mem_singleton_self _, ?_⟩ hnot
          rw [hvalue]
          exact ⟨by linarith [hx.1], by linarith [hx.2]⟩
        · rw [if_neg (not_lt.mpr hone)] at hvalue
          exact .inl (by linarith [hx.2])
    | beyond hinterval hend =>
        refine absurd ⟨_, List.mem_singleton_self _, ?_⟩ hnot
        rw [hvalue, if_neg (by linarith [hx.1])]
        exact ⟨by linarith [hx.1], by linarith [hx.2]⟩
    | across hstart hend =>
        rcases lt_or_ge (x + shift) 1 with hone | hone
        · rw [if_pos hone] at hvalue
          refine absurd ⟨_, List.mem_cons_of_mem _ (List.mem_singleton_self _), ?_⟩ hnot
          rw [hvalue]
          exact ⟨by linarith [hx.1], hone.le⟩
        · rw [if_neg (not_lt.mpr hone)] at hvalue
          refine absurd ⟨_, List.mem_cons_self, ?_⟩ hnot
          rw [hvalue]
          exact ⟨by linarith, by linarith [hx.2]⟩

end Wraps

/-! ## What a trim keeps of a path -/

theorem distance_nonneg (a b : Point ℝ) : 0 ≤ a.distance b :=
  Real.sqrt_nonneg _

theorem le_addDistances (sum : ℝ) (last : Point ℝ) (points : List (Point ℝ)) :
    sum ≤ Segment.addDistances sum last points := by
  induction points generalizing sum last with
  | nil => exact le_rfl
  | cons next rest ih =>
      exact (le_add_of_nonneg_right (distance_nonneg last next)).trans (ih _ next)

theorem length_nonneg (segment : Segment ℝ) : 0 ≤ segment.length := by
  cases segment with
  | line start stop => exact distance_nonneg start stop
  | cubic start first second stop =>
      have hsum := le_addDistances 0 start (Segment.cubic start first second stop).samples
      rwa [Segment.length, scalar_zero]

/-- The width of an interval of lengths along a path. -/
def intervalWidth (interval : ℝ × ℝ) : ℝ :=
  interval.2 - interval.1

/-- The sum of widths of intervals that tile a stretch is the width of the stretch. -/
theorem sum_width_of_tile {start stop : ℝ} {intervals : List (ℝ × ℝ)}
    (tile : Tile start stop intervals) : (intervals.map intervalWidth).sum = stop - start := by
  induction intervals generalizing start with
  | nil => simp [show start = stop from tile]
  | cons interval rest ih =>
      obtain ⟨hfirst, hrest⟩ := tile
      rw [List.map_cons, List.sum_cons, ih hrest, intervalWidth, hfirst]
      ring

/-- Intervals that tile a stretch stand in order, and within the stretch. -/
theorem ordered_of_tile {start stop : ℝ} {intervals : List (ℝ × ℝ)}
    (tile : Tile start stop intervals) (hle : ∀ interval ∈ intervals, interval.1 ≤ interval.2) :
    start ≤ stop ∧ intervals.Pairwise (fun first second => first.2 ≤ second.1) ∧
      ∀ interval ∈ intervals, start ≤ interval.1 ∧ interval.2 ≤ stop := by
  induction intervals generalizing start with
  | nil => exact ⟨le_of_eq tile, .nil, by simp⟩
  | cons interval rest ih =>
      obtain ⟨rfl, hrest⟩ := tile
      obtain ⟨hfirst, hlater⟩ := List.forall_mem_cons.mp hle
      obtain ⟨hstop, hordered, hwithin⟩ := ih hrest hlater
      refine ⟨hfirst.trans hstop, List.pairwise_cons.mpr ⟨fun next hnext => (hwithin next hnext).1,
        hordered⟩, List.forall_mem_cons.mpr ⟨⟨le_rfl, hstop⟩, fun next hnext => ?_⟩⟩
      exact ⟨hfirst.trans (hwithin next hnext).1, (hwithin next hnext).2⟩

/-- Cuts of a path that stand in order along it and keep a total length between two lengths:
where the pieces of some runs come from. -/
structure KeepsLength (segments : List (Segment ℝ)) (lengths : List ℝ) (start stop kept : ℝ)
    (run : List (Segment ℝ)) (cuts : List Cut) : Prop where
  takes : List.Forall₂ (Cut.Takes segments lengths) cuts run
  ordered : (cuts.map (Cut.interval lengths)).Pairwise fun first second => first.2 ≤ second.1
  within : ∀ cut ∈ cuts, start ≤ (cut.interval lengths).1 ∧ (cut.interval lengths).2 ≤ stop
  total : ((cuts.map (Cut.interval lengths)).map intervalWidth).sum = kept

section KeepsLength

variable {segments : List (Segment ℝ)} {lengths : List ℝ}

theorem KeepsLength.nothing (start stop : ℝ) : KeepsLength segments lengths start stop 0 [] [] :=
  ⟨.nil, .nil, by simp, rfl⟩

/-- What is kept before a length along the path and what is kept behind it. -/
theorem KeepsLength.append {start middle stop kept kept' : ℝ} {run run' : List (Segment ℝ)}
    {cuts cuts' : List Cut} (first : KeepsLength segments lengths start middle kept run cuts)
    (second : KeepsLength segments lengths middle stop kept' run' cuts') (hstart : start ≤ middle)
    (hstop : middle ≤ stop) :
    KeepsLength segments lengths start stop (kept + kept') (run ++ run') (cuts ++ cuts') where
  takes := List.rel_append first.takes second.takes
  ordered := by
    rw [List.map_append, List.pairwise_append]
    refine ⟨first.ordered, second.ordered, ?_⟩
    rintro _ hbefore _ hbehind
    obtain ⟨cut, hcut, rfl⟩ := List.mem_map.mp hbefore
    obtain ⟨cut', hcut', rfl⟩ := List.mem_map.mp hbehind
    exact (first.within cut hcut).2.trans (second.within cut' hcut').1
  within := by
    intro cut hcut
    rcases List.mem_append.mp hcut with hcut | hcut
    · exact ⟨(first.within cut hcut).1, (first.within cut hcut).2.trans hstop⟩
    · exact ⟨hstart.trans (second.within cut hcut).1, (second.within cut hcut).2⟩
  total := by
    rw [List.map_append, List.map_append, List.sum_append, first.total, second.total]

variable (hlength : lengths.length = segments.length) (nonneg : ∀ length ∈ lengths, 0 ≤ length)

include hlength nonneg

theorem exists_keeps_stretch {stretch : Stretch ℝ} (hstart : 0 ≤ stretch.start)
    (hlt : stretch.start < stretch.stop) (hstop : stretch.stop ≤ 1) :
    ∃ runs cuts, keepStretch segments lengths stretch = .ok runs ∧
      KeepsLength segments lengths (stretch.start * lengths.sum) (stretch.stop * lengths.sum)
        ((stretch.stop - stretch.start) * lengths.sum) runs.flatten cuts := by
  rcases (List.sum_nonneg nonneg).eq_or_lt with hzero | positive
  · -- a path without a length has nothing to keep
    refine ⟨[], [], ?_, ?_⟩
    · rw [keepStretch_eq, if_pos (.inl hzero.ge)]
    · rw [← hzero, mul_zero, mul_zero, mul_zero]
      exact .nothing 0 0
  · have hstretch : stretch.start * lengths.sum < stretch.stop * lengths.sum := by gcongr
    obtain ⟨pieces, cuts, hpieces, leaves⟩ := exists_leaves hlength nonneg hstretch
      (mul_le_of_le_one_left positive.le hstop) (Nat.zero_le _)
    rw [List.take_zero, List.sum_nil, List.drop_zero] at hpieces
    have htile := leaves.tile
    rw [List.take_zero, List.sum_nil, max_eq_left (mul_nonneg hstart positive.le),
      min_eq_right hstretch.le] at htile
    have htakes : List.Forall₂ (Cut.Takes segments lengths) cuts (pieces.map Piece.segment) :=
      List.forall₂_map_right_iff.mpr leaves.takes
    have hforward : ∀ interval ∈ cuts.map (Cut.interval lengths), interval.1 ≤ interval.2 := by
      intro interval hinterval
      obtain ⟨cut, hcut, rfl⟩ := List.mem_map.mp hinterval
      obtain ⟨piece, -, hcuttakes⟩ := exists_of_mem_left htakes hcut
      exact add_le_add_right (mul_le_mul_of_nonneg_right hcuttakes.increasing.le
        hcuttakes.positive.le) _
    obtain ⟨-, hordered, hwithin⟩ := ordered_of_tile htile hforward
    refine ⟨runsOf pieces, cuts, ?_, ?_⟩
    · rw [keepStretch_eq, if_neg (not_or.mpr ⟨not_le.mpr positive, not_le.mpr hlt⟩), hpieces]
      rfl
    · rw [flatten_runsOf]
      refine ⟨htakes, hordered, fun cut hcut => hwithin _ (List.mem_map_of_mem hcut), ?_⟩
      rw [sum_width_of_tile htile, sub_mul]

/-- Stretches that stand in order keep the sum of what they keep one by one.  The induction is
on the stretches, from a fraction before all of them. -/
theorem exists_keeps_stretches {stretches : List (Stretch ℝ)} {start : ℝ} (hstart : 0 ≤ start)
    (hone : start ≤ 1) (hfrom : ∀ stretch ∈ stretches, start ≤ stretch.start)
    (within : ∀ stretch ∈ stretches,
      0 ≤ stretch.start ∧ stretch.start < stretch.stop ∧ stretch.stop ≤ 1)
    (ordered : stretches.Pairwise fun first second => first.stop ≤ second.start) :
    ∃ runs cuts, stretches.mapM (keepStretch segments lengths) = .ok runs ∧
      KeepsLength segments lengths (start * lengths.sum) lengths.sum
        ((stretches.map fun stretch => stretch.stop - stretch.start).sum * lengths.sum)
        runs.flatten.flatten cuts := by
  have htotal := List.sum_nonneg nonneg
  induction stretches generalizing start with
  | nil =>
      refine ⟨[], [], rfl, ?_⟩
      rw [List.map_nil, List.sum_nil, zero_mul]
      exact .nothing _ _
  | cons stretch rest ih =>
      obtain ⟨⟨hlow, hlt, hhigh⟩, hrest⟩ := List.forall_mem_cons.mp within
      obtain ⟨hnext, hordered⟩ := List.pairwise_cons.mp ordered
      obtain ⟨runs, cuts, hruns, hkeeps⟩ := exists_keeps_stretch hlength nonneg hlow hlt hhigh
      obtain ⟨later, laterCuts, hlater, hkeepsLater⟩ :=
        ih (hlow.trans hlt.le) hhigh hnext hrest hordered
      refine ⟨runs :: later, cuts ++ laterCuts, ?_, ?_⟩
      · rw [List.mapM_cons, hruns, ok_bind, hlater]
        rfl
      · have hbefore : start ≤ stretch.start := hfrom stretch List.mem_cons_self
        have hfirst := hkeeps.append hkeepsLater (by gcongr)
          (mul_le_of_le_one_left htotal hhigh)
        rw [List.flatten_cons, List.flatten_append, List.map_cons, List.sum_cons, add_mul]
        refine ⟨hfirst.takes, hfirst.ordered, fun cut hcut => ⟨?_, (hfirst.within cut hcut).2⟩,
          hfirst.total⟩
        exact le_trans (by gcongr) (hfirst.within cut hcut).1

end KeepsLength

/-- A trim keeps the width of its interval, whatever the offset. -/
theorem exists_keeps_trim (segments : List (Segment ℝ)) (trim : Trim ℝ) :
    ∃ runs cuts, trimPath segments trim = .ok runs ∧
      KeepsLength segments (segments.map Segment.length) 0 (segments.map Segment.length).sum
        ((trim.upper - trim.lower) * (segments.map Segment.length).sum) runs.flatten cuts := by
  have hlower : 0 ≤ trim.lower := le_min (clampUnit_mem _).1 (clampUnit_mem _).1
  have hupper : trim.upper ≤ 1 := max_le (clampUnit_mem _).2 (clampUnit_mem _).2
  have wraps := wraps_stretches trim
  have within := wraps.within hlower hupper ⟨Int.fract_nonneg _, Int.fract_lt_one _⟩
  obtain ⟨runs, cuts, hruns, hkeeps⟩ := exists_keeps_stretches
    (segments.length_map Segment.length) (by simpa using fun segment _ => length_nonneg segment)
    le_rfl zero_le_one (fun stretch hstretch => (within stretch hstretch).1) within
    (wraps.ordered hlower hupper)
  rw [zero_mul, wraps.width_eq] at hkeeps
  refine ⟨runs.flatten, cuts, ?_, hkeeps⟩
  rw [trimPath, hruns]
  rfl

theorem upper_sub_lower (trim : Trim ℝ) :
    trim.upper - trim.lower = |Scalar.clampUnit trim.stop - Scalar.clampUnit trim.start| := by
  rw [Trim.upper, Trim.lower, max_sub_min_eq_abs]

/-- **A trim keeps the shifted interval.**  Its stretches are at most two, lie in the unit
interval one behind the other, are together as wide as the interval between the two ends taken
into the path, and cover this interval as the offset moves it on, up to the ends of the path
and of an interval without a width.  They do not depend on the order of the ends and on whole
turns of the offset.  Of a path they keep that fraction of its length, none of it twice. -/
theorem stretches_wrap_interval (start stop offset : ℝ) :
    (Trim.mk start stop offset).stretches.length ≤ 2 ∧
    (∀ stretch ∈ (Trim.mk start stop offset).stretches,
      0 ≤ stretch.start ∧ stretch.start < stretch.stop ∧ stretch.stop ≤ 1) ∧
    ((Trim.mk start stop offset).stretches.Pairwise fun first second =>
      first.stop ≤ second.start) ∧
    ((Trim.mk start stop offset).stretches.map fun stretch => stretch.stop - stretch.start).sum =
      |Scalar.clampUnit stop - Scalar.clampUnit start| ∧
    symmDiff (covered (Trim.mk start stop offset).stretches)
        (wrapped offset '' Set.uIcc (Scalar.clampUnit start) (Scalar.clampUnit stop)) ⊆
      {0, 1, wrapped offset (min (Scalar.clampUnit start) (Scalar.clampUnit stop))} ∧
    (Trim.mk stop start offset).stretches = (Trim.mk start stop offset).stretches ∧
    (∀ turns : ℤ, (Trim.mk start stop (offset + turns)).stretches =
      (Trim.mk start stop offset).stretches) ∧
    ∀ segments : List (Segment ℝ), ∃ runs cuts,
      trimPath segments ⟨start, stop, offset⟩ = .ok runs ∧
      KeepsLength segments (segments.map Segment.length) 0 (segments.map Segment.length).sum
        (|Scalar.clampUnit stop - Scalar.clampUnit start| * (segments.map Segment.length).sum)
        runs.flatten cuts := by
  have wraps := wraps_stretches ⟨start, stop, offset⟩
  have hle : (Trim.mk start stop offset).lower ≤ (Trim.mk start stop offset).upper := min_le_max
  have hlower : 0 ≤ (Trim.mk start stop offset).lower :=
    le_min (clampUnit_mem _).1 (clampUnit_mem _).1
  have hupper : (Trim.mk start stop offset).upper ≤ 1 :=
    max_le (clampUnit_mem _).2 (clampUnit_mem _).2
  have hwidth := upper_sub_lower ⟨start, stop, offset⟩
  refine ⟨wraps.length_le,
    wraps.within hlower hupper ⟨Int.fract_nonneg _, Int.fract_lt_one _⟩,
    wraps.ordered hlower hupper, ?_, wraps.symmDiff_covered hlower hupper hle rfl, ?_,
    fun turns => ?_, fun segments => ?_⟩
  · rw [wraps.width_eq, hwidth]
  · rw [stretches_eq, stretches_eq, Trim.lower, Trim.upper, min_comm, max_comm]
    rfl
  · rw [stretches_eq, stretches_eq, Int.fract_add_intCast]
    rfl
  · obtain ⟨runs, cuts, hruns, hkeeps⟩ := exists_keeps_trim segments ⟨start, stop, offset⟩
    rw [hwidth] at hkeeps
    exact ⟨runs, cuts, hruns, hkeeps⟩

end MotionScene
