import Mathlib.Algebra.Order.BigOperators.Group.List
import Mathlib.Data.List.TakeDrop
import Mathlib.Tactic.FieldSimp
import MotionScene.Proofs.Curve.Chain
import MotionScene.Proofs.Curve.Part

/-!
# A stretch of a path is kept whole

Keeping a stretch of a measured path walks over its segments, leaves out what lies before
the stretch, stops behind it, and cuts the segments at its ends.  What is left is one run
of parts of segments, and these cover the stretch from its start to its stop, one after
the other (`keepStretch_covers_stretch`).

A `Cut` says where a piece comes from, and a cut stands for an interval of lengths along the
path.  The walk keeps the invariant that the intervals of the pieces to come `Tile` what is
left of the stretch (`exists_cuts`).  That the pieces hang together can be read off the
tiling alone (`contiguous_of_tile`).
-/

namespace MotionScene

/-! ## Cuts of a measured path -/

/-- Where a piece comes from: the place of a segment, and two parameters. -/
structure Cut where
  place : ℕ
  lower : ℝ
  upper : ℝ

/-- The length of a path up to a parameter of the segment at a place. -/
def lengthUpTo (lengths : List ℝ) (place : ℕ) (t : ℝ) : ℝ :=
  (lengths.take place).sum + t * lengths.getD place 0

namespace Cut

/-- The lengths along the path at which a cut starts and stops. -/
def interval (lengths : List ℝ) (cut : Cut) : ℝ × ℝ :=
  (lengthUpTo lengths cut.place cut.lower, lengthUpTo lengths cut.place cut.upper)

/-- A piece is a part of a segment with a length. -/
structure Takes (segments : List (Segment ℝ)) (lengths : List ℝ) (cut : Cut)
    (piece : Segment ℝ) : Prop where
  positive : 0 < lengths.getD cut.place 0
  nonneg : 0 ≤ cut.lower
  increasing : cut.lower < cut.upper
  within : cut.upper ≤ 1
  part : ∃ segment, segments[cut.place]? = some segment ∧
    segment.IsPart cut.lower cut.upper piece

end Cut

/-- Intervals cover a stretch one after the other, each from where the one before stops. -/
def Tile : (start stop : ℝ) → List (ℝ × ℝ) → Prop
  | start, stop, [] => start = stop
  | start, stop, (first, last) :: rest => first = start ∧ Tile last stop rest

/-- Segments hang together, each starting where the one before stops. -/
def Contiguous (segments : List (Segment ℝ)) : Prop :=
  segments.IsChain Segment.Joins

/-! ## One run -/

/-- Pieces that are not cut off, but for the first, make up one run. -/
theorem runsOf_eq_singleton {R : Type} {pieces : List (Piece R)} (nonempty : pieces ≠ [])
    (whole : ∀ piece ∈ pieces.tail, piece.isCutOff = false) :
    runsOf pieces = [pieces.map Piece.segment] := by
  induction pieces with
  | nil => exact absurd rfl nonempty
  | cons piece rest ih =>
      cases rest with
      | nil => rfl
      | cons next rest =>
          obtain ⟨hnext, hrest⟩ := List.forall_mem_cons.mp whole
          rw [runsOf, hnext, ih (List.cons_ne_nil _ _) hrest]
          rfl

/-! ## The walk over the segments -/

theorem piecesBetween_cons (start stop before : ℝ) (segment : Segment ℝ) (length : ℝ)
    (rest : List (Segment ℝ × ℝ)) :
    piecesBetween start stop before ((segment, length) :: rest) =
      if length ≤ 0 ∨ before + length ≤ start then
        piecesBetween start stop (before + length) rest
      else if stop ≤ before then .ok []
      else
        (if before < start then Number.divideReal (start - before) length else .ok 0) >>=
          fun lower => (if stop < before + length then Number.divideReal (stop - before) length
            else .ok 1) >>=
          fun upper => segment.part lower upper >>=
          fun piece => piecesBetween start stop (before + length) rest >>=
          fun later => return ⟨piece, 0 < lower⟩ :: later := by
  rw [piecesBetween]
  simp only [scalar_literal, Nat.cast_zero, Nat.cast_one, Bool.or_eq_true, decide_eq_true_eq,
    ite_bind]

/-- The parameter at which a stretch enters a segment that it meets. -/
noncomputable def entering (start before length : ℝ) : ℝ :=
  (max start before - before) / length

/-- The parameter at which a stretch leaves a segment that it meets. -/
noncomputable def leaving (stop before length : ℝ) : ℝ :=
  (min stop (before + length) - before) / length

section Step

variable {start stop before length : ℝ} (positive : 0 < length)

include positive

theorem entering_eq : (if before < start then Number.divideReal (start - before) length
    else .ok 0) = .ok (entering start before length) := by
  unfold entering
  split
  · rename_i h
    rw [max_eq_left h.le, Number.divideReal_eq, if_neg positive.ne']
  · rename_i h
    rw [max_eq_right (not_lt.mp h), sub_self, zero_div]

theorem leaving_eq : (if stop < before + length then Number.divideReal (stop - before) length
    else .ok 1) = .ok (leaving stop before length) := by
  unfold leaving
  split
  · rename_i h
    rw [min_eq_left h.le, Number.divideReal_eq, if_neg positive.ne']
  · rename_i h
    rw [min_eq_right (not_lt.mp h), add_sub_cancel_left, div_self positive.ne']

theorem entering_nonneg : 0 ≤ entering start before length :=
  div_nonneg (sub_nonneg.mpr (le_max_right _ _)) positive.le

theorem leaving_le_one : leaving stop before length ≤ 1 := by
  rw [leaving, div_le_one positive, sub_le_iff_le_add']
  exact min_le_right _ _

theorem entering_lt_leaving (hlt : start < stop) (hafter : start < before + length)
    (hbefore : before < stop) : entering start before length < leaving stop before length := by
  unfold entering leaving
  gcongr
  refine max_lt (lt_min hlt hafter) (lt_min hbefore ?_)
  linarith

/-- A segment that the stretch meets leaves a piece: no division is by zero. -/
theorem exists_piecesBetween_cons (hlt : start < stop) (hafter : start < before + length)
    (hbefore : before < stop) (segment : Segment ℝ) {rest : List (Segment ℝ × ℝ)}
    {later : List (Piece ℝ)}
    (hlater : piecesBetween start stop (before + length) rest = .ok later) :
    ∃ piece, piecesBetween start stop before ((segment, length) :: rest) =
        .ok (⟨piece, 0 < entering start before length⟩ :: later) ∧
      segment.IsPart (entering start before length) (leaving stop before length) piece := by
  obtain ⟨piece, hpiece, hpart⟩ := segment.exists_part (entering_nonneg positive)
    (entering_lt_leaving positive hlt hafter hbefore) (leaving_le_one positive)
  refine ⟨piece, ?_, hpart⟩
  have hmeets : ¬ (length ≤ 0 ∨ before + length ≤ start) :=
    not_or.mpr ⟨not_le.mpr positive, not_le.mpr hafter⟩
  rw [piecesBetween_cons, if_neg hmeets, if_neg (not_le.mpr hbefore), entering_eq positive,
    ok_bind, leaving_eq positive, ok_bind, hpiece, ok_bind, hlater]
  rfl

end Step

/-- What the walk leaves of a stretch from a place on. -/
structure Leaves (segments : List (Segment ℝ)) (lengths : List ℝ) (start stop : ℝ) (place : ℕ)
    (pieces : List (Piece ℝ)) (cuts : List Cut) : Prop where
  takes : List.Forall₂ (fun cut piece => cut.Takes segments lengths piece.segment) cuts pieces
  later : ∀ cut ∈ cuts, place ≤ cut.place
  inOrder : (cuts.map Cut.place).Pairwise (· < ·)
  tile : Tile (min stop (max start (lengths.take place).sum)) stop
    (cuts.map (Cut.interval lengths))
  /-- Only the first piece is cut off, and only if the stretch starts behind the place. -/
  whole : ∀ piece ∈ pieces.tail, piece.isCutOff = false
  wholeFirst : start ≤ (lengths.take place).sum → ∀ piece ∈ pieces, piece.isCutOff = false

namespace Leaves

variable {segments : List (Segment ℝ)} {lengths : List ℝ} {start stop : ℝ} {place : ℕ}
  {pieces : List (Piece ℝ)} {cuts : List Cut}

/-- Nothing is left of a stretch that stops before the place. -/
theorem nothing (h : stop ≤ (lengths.take place).sum) :
    Leaves segments lengths start stop place [] [] where
  takes := .nil
  later := by simp
  inOrder := .nil
  tile := min_eq_left (le_max_of_le_right h)
  whole := by simp
  wholeFirst := by simp

variable (hplace : place < lengths.length)
  (leaves : Leaves segments lengths start stop (place + 1) pieces cuts)

include hplace leaves

/-- A segment before the stretch, or one without a length, leaves nothing. -/
theorem skip (nonneg : 0 ≤ lengths[place])
    (h : lengths[place] ≤ 0 ∨ (lengths.take place).sum + lengths[place] ≤ start) :
    Leaves segments lengths start stop place pieces cuts where
  takes := leaves.takes
  later cut hcut := Nat.le_of_succ_le (leaves.later cut hcut)
  inOrder := leaves.inOrder
  tile := by
    have hsame : max start (lengths.take (place + 1)).sum = max start (lengths.take place).sum := by
      rw [List.sum_take_succ _ _ hplace]
      rcases h with hzero | hbefore
      · rw [le_antisymm hzero nonneg, add_zero]
      · rw [max_eq_left hbefore, max_eq_left (by linarith)]
    exact hsame ▸ leaves.tile
  whole := leaves.whole
  wholeFirst hstart := by
    refine leaves.wholeFirst ?_
    rw [List.sum_take_succ _ _ hplace]
    linarith

/-- A segment that the stretch meets leaves one piece. -/
theorem keep (hlt : start < stop) (positive : 0 < lengths[place])
    (hafter : start < (lengths.take place).sum + lengths[place])
    (hbefore : (lengths.take place).sum < stop) {segment piece : Segment ℝ}
    (hsegment : segments[place]? = some segment)
    (hpart : segment.IsPart (entering start (lengths.take place).sum lengths[place])
      (leaving stop (lengths.take place).sum lengths[place]) piece) :
    Leaves segments lengths start stop place
      (⟨piece, 0 < entering start (lengths.take place).sum lengths[place]⟩ :: pieces)
      (⟨place, entering start (lengths.take place).sum lengths[place],
        leaving stop (lengths.take place).sum lengths[place]⟩ :: cuts) := by
  have hnext : (lengths.take (place + 1)).sum = (lengths.take place).sum + lengths[place] :=
    List.sum_take_succ _ _ hplace
  have hrest := leaves.wholeFirst (by rw [hnext]; exact hafter.le)
  have hget : lengths.getD place 0 = lengths[place] := by simp [hplace]
  refine ⟨.cons ⟨hget ▸ positive, ?_, ?_, ?_, segment, hsegment, hpart⟩ leaves.takes, ?_, ?_,
    ⟨?_, ?_⟩, hrest, fun hstart => List.forall_mem_cons.mpr ⟨?_, hrest⟩⟩
  · exact entering_nonneg positive
  · exact entering_lt_leaving positive hlt hafter hbefore
  · exact leaving_le_one positive
  · refine List.forall_mem_cons.mpr ⟨le_rfl, fun other hother => ?_⟩
    exact Nat.le_of_succ_le (leaves.later other hother)
  · refine List.pairwise_cons.mpr ⟨fun other hother => ?_, leaves.inOrder⟩
    obtain ⟨later, hlater, rfl⟩ := List.mem_map.mp hother
    exact leaves.later later hlater
  · -- the new interval starts where what is left of the stretch does
    rw [lengthUpTo, hget, entering, div_mul_cancel₀ _ positive.ne', add_sub_cancel,
      min_eq_right (max_lt hlt hbefore).le]
  · have htile := leaves.tile
    rw [hnext, max_eq_right hafter.le] at htile
    rw [lengthUpTo, hget, leaving, div_mul_cancel₀ _ positive.ne', add_sub_cancel]
    exact htile
  · refine decide_eq_false (not_lt.mpr (le_of_eq ?_))
    rw [entering, max_eq_right hstart, sub_self, zero_div]

end Leaves

section Walk

variable {segments : List (Segment ℝ)} {lengths : List ℝ} {start stop : ℝ}
  (hlength : lengths.length = segments.length) (nonneg : ∀ length ∈ lengths, 0 ≤ length)
  (hlt : start < stop)

include hlength nonneg hlt

/-- The walk from a place on: the induction is on the segments that are left. -/
theorem exists_leaves (hstop : stop ≤ lengths.sum) {place : ℕ} (hplace : place ≤ lengths.length) :
    ∃ pieces cuts, piecesBetween start stop (lengths.take place).sum
        ((segments.zip lengths).drop place) = .ok pieces ∧
      Leaves segments lengths start stop place pieces cuts := by
  induction hleft : lengths.length - place generalizing place with
  | zero =>
      obtain rfl : place = lengths.length := by omega
      refine ⟨[], [], ?_, .nothing ?_⟩
      · rw [List.drop_eq_nil_of_le (by simp [hlength]), piecesBetween]
      · rwa [List.take_length]
  | succ left ih =>
      have hplace : place < lengths.length := by omega
      have hnonneg := nonneg _ (List.getElem_mem hplace)
      have hsegment : place < segments.length := hlength ▸ hplace
      obtain ⟨later, cuts, hlater, leaves⟩ := ih hplace (by omega)
      rw [List.drop_eq_getElem_cons (by simp [hplace, hsegment]), List.getElem_zip]
      rw [List.sum_take_succ _ _ hplace] at hlater
      by_cases hskip : lengths[place] ≤ 0 ∨ (lengths.take place).sum + lengths[place] ≤ start
      · refine ⟨later, cuts, ?_, leaves.skip hplace hnonneg hskip⟩
        rw [piecesBetween_cons, if_pos hskip, hlater]
      · obtain ⟨positive, hafter⟩ := not_or.mp hskip
        rw [not_le] at positive hafter
        rcases le_or_gt stop (lengths.take place).sum with hend | hbefore
        · refine ⟨[], [], ?_, .nothing hend⟩
          rw [piecesBetween_cons, if_neg hskip, if_pos hend]
        · obtain ⟨piece, hpieces, hpart⟩ :=
            exists_piecesBetween_cons positive hlt hafter hbefore segments[place] hlater
          refine ⟨_, _, hpieces, leaves.keep hplace hlt positive hafter hbefore ?_ hpart⟩
          exact List.getElem?_eq_getElem hsegment

end Walk

/-! ## Pieces hang together -/

section Contiguous

variable {segments : List (Segment ℝ)} {lengths : List ℝ}

theorem sum_take_le (nonneg : ∀ length ∈ lengths, 0 ≤ length) {place later : ℕ}
    (h : place ≤ later) : (lengths.take place).sum ≤ (lengths.take later).sum := by
  refine (List.take_sublist_take_left h).sum_le_sum fun length hlength => ?_
  exact nonneg length (List.mem_of_mem_take hlength)

/-- A segment without a length stands still. -/
def StandStill (segments : List (Segment ℝ)) (lengths : List ℝ) : Prop :=
  ∀ (place : ℕ) (segment : Segment ℝ), segments[place]? = some segment → lengths[place]? = some 0 →
    segment.start = segment.stop

/-- Over segments without a length a path does not move on. -/
theorem stop_eq_start (contiguous : Contiguous segments) (still : StandStill segments lengths)
    (nonneg : ∀ length ∈ lengths, 0 ≤ length) {place later : ℕ} (hlt : place < later)
    {segment next : Segment ℝ} (hsegment : segments[place]? = some segment)
    (hnext : segments[later]? = some next) (hlater : later < lengths.length)
    (hsum : (lengths.take (place + 1)).sum = (lengths.take later).sum) :
    segment.stop = next.start := by
  induction later generalizing next with
  | zero => omega
  | succ later ih =>
      obtain ⟨hbound, rfl⟩ := List.getElem?_eq_some_iff.mp hnext
      have hjoint : segments[later].stop = segments[later + 1].start :=
        List.isChain_iff_getElem.mp contiguous later hbound
      rcases Nat.lt_succ_iff_lt_or_eq.mp hlt with hbefore | rfl
      · -- the sums up to the places between are squeezed between equal ones
        have hlow := sum_take_le nonneg (Nat.succ_le_of_lt hbefore)
        have hhigh := sum_take_le nonneg (Nat.le_succ later)
        have hmiddle : later < lengths.length := Nat.lt_of_succ_lt hlater
        have hstep := List.sum_take_succ lengths later hmiddle
        have hzero : lengths[later] = 0 := by linarith
        rw [ih hbefore (List.getElem?_eq_getElem (Nat.lt_of_succ_lt hbound)) hmiddle (by linarith),
          still later _ (List.getElem?_eq_getElem _)
            (by rw [List.getElem?_eq_getElem hmiddle, hzero]),
          hjoint]
      · rw [List.getElem?_eq_getElem (Nat.lt_of_succ_lt hbound)] at hsegment
        rw [← Option.some.inj hsegment, hjoint]

/-- A cut that starts where one at an earlier place stops starts with its segment, and the
earlier one stops with its own; what lies between has no length. -/
theorem ends_of_lengthUpTo_eq (nonneg : ∀ length ∈ lengths, 0 ≤ length) {place later : ℕ}
    (hlt : place < later) (hplace : place < lengths.length) {upper lower : ℝ}
    (positive : 0 < lengths.getD place 0) (positive' : 0 < lengths.getD later 0)
    (hupper : upper ≤ 1) (hlower : 0 ≤ lower)
    (h : lengthUpTo lengths place upper = lengthUpTo lengths later lower) :
    upper = 1 ∧ lower = 0 ∧ (lengths.take (place + 1)).sum = (lengths.take later).sum := by
  have hsum := sum_take_le nonneg (Nat.succ_le_of_lt hlt)
  have hget : lengths.getD place 0 = lengths[place] := by simp [hplace]
  rw [Nat.succ_eq_add_one, List.sum_take_succ _ _ hplace, ← hget] at hsum
  rw [List.sum_take_succ _ _ hplace, ← hget]
  unfold lengthUpTo at h
  have hlow : 0 ≤ lower * lengths.getD later 0 := mul_nonneg hlower positive'.le
  have hhigh : upper * lengths.getD place 0 ≤ lengths.getD place 0 :=
    mul_le_of_le_one_left positive.le hupper
  have hone : upper * lengths.getD place 0 = 1 * lengths.getD place 0 := by linarith
  have hzero : lower * lengths.getD later 0 = 0 * lengths.getD later 0 := by linarith
  refine ⟨mul_right_cancel₀ positive.ne' hone, mul_right_cancel₀ positive'.ne' hzero, ?_⟩
  linarith

theorem contiguous_of_tile (hlength : lengths.length = segments.length)
    (nonneg : ∀ length ∈ lengths, 0 ≤ length) (contiguous : Contiguous segments)
    (still : StandStill segments lengths) {cuts : List Cut} {run : List (Segment ℝ)}
    (takes : List.Forall₂ (Cut.Takes segments lengths) cuts run)
    (inOrder : (cuts.map Cut.place).Pairwise (· < ·)) {start stop : ℝ}
    (tile : Tile start stop (cuts.map (Cut.interval lengths))) : Contiguous run := by
  induction takes generalizing start with
  | nil => exact .nil
  | @cons cut piece cuts run first rest ih =>
      obtain ⟨hbefore, hrest⟩ := List.pairwise_cons.mp inOrder
      have hcontiguous := ih hrest tile.2
      cases rest with
      | nil => exact .singleton _
      | @cons next nextPiece cuts run second rest =>
          refine .cons_cons ?_ hcontiguous
          obtain ⟨segment, hsegment, hpart⟩ := first.part
          obtain ⟨later, hlater, hpart'⟩ := second.part
          have hplace : cut.place < lengths.length := by
            rw [hlength]
            exact (List.getElem?_eq_some_iff.mp hsegment).1
          have hplace' : next.place < lengths.length := by
            rw [hlength]
            exact (List.getElem?_eq_some_iff.mp hlater).1
          have hlt : cut.place < next.place := hbefore _ (by simp)
          obtain ⟨hone, hzero, hsum⟩ := ends_of_lengthUpTo_eq nonneg hlt hplace first.positive
            second.positive first.within second.nonneg tile.2.1.symm
          rw [Segment.Joins, hpart.stop_eq, hone, Segment.pointAt_one, hpart'.start_eq, hzero,
            Segment.pointAt_zero]
          exact stop_eq_start contiguous still nonneg hlt hsegment hlater hplace' hsum

end Contiguous

/-! ## The whole stretch -/

theorem keepStretch_eq (segments : List (Segment ℝ)) (lengths : List ℝ) (start stop : ℝ) :
    keepStretch segments lengths ⟨start, stop⟩ =
      if lengths.sum ≤ 0 ∨ stop ≤ start then .ok []
      else (piecesBetween (start * lengths.sum) (stop * lengths.sum) 0 (segments.zip lengths)).map
        runsOf := by
  unfold keepStretch
  simp only [scalar_literal, Nat.cast_zero, ← List.sum_eq_foldl, Bool.or_eq_true,
    decide_eq_true_eq]
  rfl

/-- **A stretch of a path is kept whole.**  One run is left, made of parts of different
segments in their order, and the intervals of their cuts cover the stretch; if the path
hangs together then so does the run. -/
theorem keepStretch_covers_stretch {segments : List (Segment ℝ)} {lengths : List ℝ}
    {start stop : ℝ} (hlength : lengths.length = segments.length)
    (nonneg : ∀ length ∈ lengths, 0 ≤ length) (positive : 0 < lengths.sum) (hstart : 0 ≤ start)
    (hlt : start < stop) (hstop : stop ≤ 1) :
    ∃ run cuts, keepStretch segments lengths ⟨start, stop⟩ = .ok [run] ∧
      List.Forall₂ (Cut.Takes segments lengths) cuts run ∧
      (cuts.map Cut.place).Pairwise (· < ·) ∧
      Tile (start * lengths.sum) (stop * lengths.sum) (cuts.map (Cut.interval lengths)) ∧
      (Contiguous segments → StandStill segments lengths → Contiguous run) := by
  have hstretch : start * lengths.sum < stop * lengths.sum := by gcongr
  have hwithin : stop * lengths.sum ≤ lengths.sum := mul_le_of_le_one_left positive.le hstop
  obtain ⟨pieces, cuts, hpieces, leaves⟩ :=
    exists_leaves hlength nonneg hstretch hwithin (Nat.zero_le _)
  have htile := leaves.tile
  rw [List.take_zero, List.sum_nil, max_eq_left (mul_nonneg hstart positive.le),
    min_eq_right hstretch.le] at htile
  have hnonempty : pieces ≠ [] := by
    rintro rfl
    have hnil := List.forall₂_nil_right_iff.mp leaves.takes
    rw [hnil] at htile
    exact absurd htile hstretch.ne
  have htakes : List.Forall₂ (Cut.Takes segments lengths) cuts (pieces.map Piece.segment) :=
    List.forall₂_map_right_iff.mpr leaves.takes
  refine ⟨pieces.map Piece.segment, cuts, ?_, htakes, leaves.inOrder, htile, ?_⟩
  · have hkept : ¬ (lengths.sum ≤ 0 ∨ stop ≤ start) :=
      not_or.mpr ⟨not_le.mpr positive, not_le.mpr hlt⟩
    rw [List.take_zero, List.sum_nil, List.drop_zero] at hpieces
    rw [keepStretch_eq, if_neg hkept, hpieces, ← runsOf_eq_singleton hnonempty leaves.whole]
    rfl
  · intro contiguous still
    exact contiguous_of_tile hlength nonneg contiguous still htakes leaves.inOrder htile

/-! ## A bent path -/

/-- A line and a curve that is bent away from it, with a line without a length between. -/
def bentPath : List (Segment ℝ) :=
  [.line ⟨0, 0⟩ ⟨1, 0⟩, .line ⟨1, 0⟩ ⟨1, 0⟩, .cubic ⟨1, 0⟩ ⟨1, 0⟩ ⟨1, 1⟩ ⟨0, 1⟩]

/-- Lengths of its segments. -/
def bentLengths : List ℝ := [1, 0, 1]

theorem contiguous_bentPath : Contiguous bentPath :=
  .cons_cons rfl (.cons_cons rfl (.singleton _))

theorem standStill_bentPath : StandStill bentPath bentLengths := by
  intro place segment hsegment hlength
  match place with
  | 0 => norm_num [bentLengths] at hlength
  | 1 =>
      cases hsegment
      rfl
  | 2 => norm_num [bentLengths] at hlength
  | place + 3 => cases hsegment

theorem keepStretch_bentPath :
    bentLengths.length = bentPath.length ∧ (∀ length ∈ bentLengths, 0 ≤ length) ∧
      0 < bentLengths.sum ∧ ∃ run cuts,
        keepStretch bentPath bentLengths ⟨1 / 4, 3 / 4⟩ = .ok [run] ∧
        List.Forall₂ (Cut.Takes bentPath bentLengths) cuts run ∧
        (cuts.map Cut.place).Pairwise (· < ·) ∧
        Tile (1 / 2) (3 / 2) (cuts.map (Cut.interval bentLengths)) ∧ Contiguous run := by
  have nonneg : ∀ length ∈ bentLengths, 0 ≤ length := by simp [bentLengths]
  have hsum : bentLengths.sum = 2 := by norm_num [bentLengths]
  have positive : 0 < bentLengths.sum := by rw [hsum]; norm_num
  have hlength : bentLengths.length = bentPath.length := rfl
  have hstart : (0 : ℝ) ≤ 1 / 4 := by norm_num
  have hlt : (1 / 4 : ℝ) < 3 / 4 := by norm_num
  have hstop : (3 / 4 : ℝ) ≤ 1 := by norm_num
  obtain ⟨run, cuts, hrun, htakes, hplaces, htile, hcontiguous⟩ :=
    keepStretch_covers_stretch hlength nonneg positive hstart hlt hstop
  refine ⟨rfl, nonneg, positive, run, cuts, hrun, htakes, hplaces, ?_, ?_⟩
  · norm_num [hsum] at htile
    exact htile
  · exact hcontiguous contiguous_bentPath standStill_bentPath

end MotionScene
