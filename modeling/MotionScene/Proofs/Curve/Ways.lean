import Mathlib.Data.List.Rotate
import MotionScene.Proofs.Curve.Readable

/-!
# The ways of a path

The segments of a path are the ways from each knot to its successor (`segmentsOf_eq_zipWith`): to
the next knot, and from the last one of a closed path to the first.  So they visit the vertices in
order, each is joined to the next one, and a way is a line exactly if both handles beside it lie
on their vertices (`segments_visit_vertices`).
-/

namespace MotionScene

variable {R : Type}

/-- Segments that lead from one point to another are joined, each to the next one. -/
theorem isChain_of_leads {start stop : Point R} {segments : List (Segment R)}
    (leads : Leads start segments stop) : segments.IsChain Segment.Joins := by
  induction segments generalizing start with
  | nil => exact .nil
  | cons segment rest ih =>
      obtain ⟨-, hrest⟩ := leads
      cases rest with
      | nil => exact .singleton segment
      | cons next rest => exact .cons_cons hrest.1.symm (ih hrest)

/-! ## Knots and their successors -/

/-- What the ways of a path lead to, in order, from what they lead away from. -/
def successors {α : Type} (closed : Bool) (knots : List α) : List α :=
  if closed then knots.rotate 1 else knots.tail

theorem getElem?_of_successors {α : Type} {closed : Bool} {knots : List α} {place : ℕ} {next : α}
    (h : (successors closed knots)[place]? = some next) :
    knots[(place + 1) % knots.length]? = some next := by
  unfold successors at h
  split at h
  · have hlt : place < knots.length := by
      simpa using (List.getElem?_eq_some_iff.mp h).1
    rwa [List.getElem?_rotate hlt] at h
  · rw [List.getElem?_tail] at h
    have hlt : place + 1 < knots.length := (List.getElem?_eq_some_iff.mp h).1
    rwa [Nat.mod_eq_of_lt hlt]

variable [Scalar R]

theorem segmentsThrough_eq_zipWith (knot : Knot R) (rest : List (Knot R)) :
    knot.segmentsThrough rest = List.zipWith Knot.segmentTo (knot :: rest) rest := by
  induction rest generalizing knot with
  | nil => rfl
  | cons next rest ih => rw [Knot.segmentsThrough, ih, List.zipWith_cons_cons]

/-- The segments of a path are the ways from its knots to their successors. -/
theorem segmentsOf_eq_zipWith (closed : Bool) (knots : List (Knot R)) :
    segmentsOf closed knots = List.zipWith Knot.segmentTo knots (successors closed knots) := by
  cases knots with
  | nil => cases closed <;> rfl
  | cons first rest =>
      rw [segmentsOf, segmentsThrough_eq_zipWith]
      cases closed with
      | false => rfl
      | true =>
          -- no way leads away from the first knot when it comes again
          have hlength : (first :: rest).length = (rest ++ [first]).length := by simp
          have hlast : List.zipWith Knot.segmentTo ((first :: rest) ++ [first]) (rest ++ [first] ++ []) =
              List.zipWith Knot.segmentTo (first :: rest) (rest ++ [first]) ++ [] :=
            List.zipWith_append hlength
          rw [List.append_nil, List.append_nil] at hlast
          simpa [successors] using hlast

theorem starts_segmentsThrough (knot : Knot R) (rest : List (Knot R)) :
    (knot.segmentsThrough rest).map Segment.start = ((knot :: rest).map Knot.vertex).dropLast := by
  induction rest generalizing knot with
  | nil => rfl
  | cons next rest ih =>
      rw [Knot.segmentsThrough, List.map_cons, ih, start_segmentTo]
      rfl

theorem stops_segmentsThrough (knot : Knot R) (rest : List (Knot R)) :
    (knot.segmentsThrough rest).map Segment.stop = rest.map Knot.vertex := by
  induction rest generalizing knot with
  | nil => rfl
  | cons next rest ih => rw [Knot.segmentsThrough, List.map_cons, ih, stop_segmentTo, List.map_cons]

theorem starts_segmentsOf (closed : Bool) (knots : List (Knot R)) :
    (segmentsOf closed knots).map Segment.start =
      if closed then knots.map Knot.vertex else (knots.map Knot.vertex).dropLast := by
  cases knots with
  | nil => cases closed <;> rfl
  | cons first rest =>
      rw [segmentsOf, starts_segmentsThrough]
      cases closed with
      | false => rfl
      | true =>
          have hback : (first :: (rest ++ [first])).map Knot.vertex =
              (first :: rest).map Knot.vertex ++ [first.vertex] := by simp
          rw [if_pos rfl, if_pos rfl, hback, List.dropLast_concat]

theorem stops_segmentsOf (closed : Bool) (knots : List (Knot R)) :
    (segmentsOf closed knots).map Segment.stop = successors closed (knots.map Knot.vertex) := by
  cases knots with
  | nil => cases closed <;> rfl
  | cons first rest =>
      rw [segmentsOf, stops_segmentsThrough]
      cases closed <;> simp [successors]

/-! ## Lines and curves -/

/-- A handle lies on its vertex if neither of their coordinates differ by `1e-8` or more. -/
def Point.LiesOn (handle vertex : Point R) : Prop :=
  Scalar.magnitude (handle.x - vertex.x) < Scalar.decimal 1 8 ∧
    Scalar.magnitude (handle.y - vertex.y) < Scalar.decimal 1 8

theorem isNear_iff_liesOn (handle vertex : Point R) :
    handle.isNear vertex = true ↔ handle.LiesOn vertex := by
  rw [Point.isNear, Bool.and_eq_true, decide_eq_true_iff, decide_eq_true_iff]
  rfl

/-- How a way leads from a vertex to its successor, past the handles beside it. -/
structure Segment.Follows (segment : Segment R) (vertex leaving arriving successor : Point R) :
    Prop where
  isLine_iff : segment.isLine = true ↔ leaving.LiesOn vertex ∧ arriving.LiesOn successor
  line : segment.isLine = true → segment = .line vertex successor
  curve : segment.isLine = false → segment = .cubic vertex leaving arriving successor

theorem segmentTo_follows (knot next : Knot R) :
    (knot.segmentTo next).Follows knot.vertex knot.leaving next.arriving next.vertex := by
  have htest : (knot.leaving.isNear knot.vertex && next.arriving.isNear next.vertex) = true ↔
      knot.leaving.LiesOn knot.vertex ∧ next.arriving.LiesOn next.vertex := by
    rw [Bool.and_eq_true, isNear_iff_liesOn, isNear_iff_liesOn]
  unfold Knot.segmentTo
  split
  · rename_i hnear
    exact ⟨⟨fun _ => htest.mp hnear, fun _ => rfl⟩, fun _ => rfl, fun h => (nomatch h)⟩
  · rename_i hfar
    exact ⟨⟨fun h => (nomatch h), fun h => absurd (htest.mpr h) hfar⟩, fun h => (nomatch h),
      fun _ => rfl⟩

/-! ## Paths of points -/

section Points

variable {vertices arriving leaving : List (Value R)} {points arrivals departures : List (Point R)}

theorem forall_of_map_point? {entries : List (Value R)} {points : List (Point R)}
    (h : entries.map Value.point? = points.map some) :
    ∀ entry ∈ entries, ∃ point, entry.point? = some point := by
  intro entry hentry
  have hmem : entry.point? ∈ points.map some := h ▸ List.mem_map_of_mem hentry
  obtain ⟨point, -, hpoint⟩ := List.mem_map.mp hmem
  exact ⟨point, hpoint.symm⟩

theorem getElem?_bind_point? {entries : List (Value R)} {points : List (Point R)}
    (h : entries.map Value.point? = points.map some) (place : ℕ) :
    entries[place]?.bind Value.point? = points[place]? := by
  have hplace : (entries.map Value.point?)[place]? = (points.map some)[place]? := by rw [h]
  rw [List.getElem?_map, List.getElem?_map] at hplace
  cases hentry : entries[place]? with
  | none =>
      rw [hentry] at hplace
      cases hpoint : points[place]? with
      | none => rfl
      | some point => simp [hpoint] at hplace
  | some entry =>
      rw [hentry] at hplace
      cases hpoint : points[place]? with
      | none => simp [hpoint] at hplace
      | some point => simpa [hpoint] using hplace

/-- The knots of lists of points. -/
theorem getElem?_knotsOf_points (hvertices : vertices.map Value.point? = points.map some)
    (harriving : arriving.map Value.point? = arrivals.map some)
    (hleaving : leaving.map Value.point? = departures.map some) (place : ℕ) :
    (knotsOf vertices arriving leaving)[place]? = points[place]?.map fun vertex =>
      ⟨vertex, arrivals[place]?.getD vertex, departures[place]?.getD vertex⟩ := by
  rw [getElem?_knotsOf, ← getElem?_bind_point? hvertices]
  cases hentry : vertices[place]? with
  | none => rfl
  | some entry =>
      obtain ⟨point, hpoint⟩ :=
        forall_of_map_point? hvertices entry (List.mem_of_getElem? hentry)
      simp only [Option.map_some, Option.bind_some, hpoint, Option.getD_some,
        getElem?_bind_point? harriving, getElem?_bind_point? hleaving]

theorem vertices_knotsOf (hvertices : vertices.map Value.point? = points.map some)
    (harriving : arriving.map Value.point? = arrivals.map some)
    (hleaving : leaving.map Value.point? = departures.map some) :
    (knotsOf vertices arriving leaving).map Knot.vertex = points := by
  refine List.ext_getElem? fun place => ?_
  rw [List.getElem?_map, getElem?_knotsOf_points hvertices harriving hleaving, Option.map_map]
  exact Option.map_id'

/-- Lists of points give the segments through their knots. -/
theorem segments_ofLists (hvertices : vertices.map Value.point? = points.map some)
    (harriving : arriving.map Value.point? = arrivals.map some)
    (hleaving : leaving.map Value.point? = departures.map some) (closed : Bool) :
    (PathRows.ofLists vertices arriving leaving).segments closed =
      .ok (segmentsOf closed (knotsOf vertices arriving leaving)) := by
  have hread : ∀ entry ∈ vertices ++ arriving ++ leaving, ∃ point, entry.point? = some point := by
    simp only [List.forall_mem_append]
    exact ⟨⟨forall_of_map_point? hvertices, forall_of_map_point? harriving⟩,
      forall_of_map_point? hleaving⟩
  have hknots : ∀ entry ∈ knotEntries vertices arriving leaving,
      entry ∈ vertices ++ arriving ++ leaving := by
    intro entry hentry
    rcases List.mem_append.mp hentry with hentry | hentry
    · rcases List.mem_append.mp hentry with hentry | hentry
      · exact List.mem_append_left _ (List.mem_append_left _ hentry)
      · exact List.mem_append_left _ (List.mem_append_right _ (List.mem_of_mem_take hentry))
    · exact List.mem_append_right _ (List.mem_of_mem_take hentry)
  rw [PathRows.segments, knots_ofLists]
  · rfl
  · intro entry hentry
    obtain ⟨point, hpoint⟩ := hread entry hentry
    exact Value.isInRange_of_point? hpoint
  · intro entry hentry
    obtain ⟨point, hpoint⟩ := hread entry (hknots entry hentry)
    exact Value.isObject_of_point? hpoint

/-- **Paths are connected and faithful.**  The segments of a path, given by three lists of points
of any lengths, start at its vertices in order, and each stops at the next vertex, where the next
segment starts; the last one of a closed path stops where the first one starts.  The segment from a
vertex to its successor is a line exactly if the leaving handle of the one and the arriving handle
of the other lie on their vertices, and a curve with these two handles as control points
otherwise; a handle that is missing counts as its vertex. -/
theorem segments_visit_vertices (hvertices : vertices.map Value.point? = points.map some)
    (harriving : arriving.map Value.point? = arrivals.map some)
    (hleaving : leaving.map Value.point? = departures.map some) (closed : Bool) :
    ∃ segments, (PathRows.ofLists vertices arriving leaving).segments closed = .ok segments ∧
      segments.IsChain Segment.Joins ∧
      segments.map Segment.start = (if closed then points else points.dropLast) ∧
      segments.map Segment.stop = (if closed then points.rotate 1 else points.tail) ∧
      (closed = true → segments.getLast?.map Segment.stop = segments.head?.map Segment.start) ∧
      ∀ (place : ℕ) (segment : Segment R), segments[place]? = some segment →
        ∃ vertex successor, points[place]? = some vertex ∧
          points[(place + 1) % points.length]? = some successor ∧
          segment.Follows vertex (departures[place]?.getD vertex)
            (arrivals[(place + 1) % points.length]?.getD successor) successor := by
  have hpoints := vertices_knotsOf hvertices harriving hleaving
  have hstarts := starts_segmentsOf closed (knotsOf vertices arriving leaving)
  have hstops := stops_segmentsOf closed (knotsOf vertices arriving leaving)
  rw [hpoints] at hstarts hstops
  refine ⟨_, segments_ofLists hvertices harriving hleaving closed, ?_, hstarts, hstops, ?_, ?_⟩
  · cases hknots : knotsOf vertices arriving leaving with
    | nil => cases closed <;> exact .nil
    | cons first rest => exact isChain_of_leads (leads_segmentsOf closed first rest)
  · rintro rfl
    rw [← List.getLast?_map, ← List.head?_map, hstarts, hstops]
    cases points <;> simp [successors]
  · intro place segment hsegment
    rw [segmentsOf_eq_zipWith, List.getElem?_zipWith_eq_some] at hsegment
    obtain ⟨knot, next, hknot, hnext, rfl⟩ := hsegment
    have hsuccessor := getElem?_of_successors hnext
    rw [getElem?_knotsOf_points hvertices harriving hleaving] at hknot hsuccessor
    have hlength : (knotsOf vertices arriving leaving).length = points.length := by
      rw [← hpoints, List.length_map]
    rw [hlength] at hsuccessor
    obtain ⟨vertex, hvertex, rfl⟩ := Option.map_eq_some_iff.mp hknot
    obtain ⟨successor, hsucc, rfl⟩ := Option.map_eq_some_iff.mp hsuccessor
    exact ⟨vertex, successor, hvertex, hsucc, segmentTo_follows _ _⟩

end Points

/-! ## A corner with a bend -/

/-- A point with whole coordinates, as an entry. -/
def wholeEntry (x y : ℤ) : Value ℝ :=
  .list [.num (.whole x), .num (.whole y)]

/-- Three vertices of a closed path. -/
def bentVertices : List (Value ℝ) := [wholeEntry 0 0, wholeEntry 1 0, wholeEntry 1 1]

/-- The handles that leave the first two of them: the second one lies off its vertex. -/
def bentLeaving : List (Value ℝ) := [wholeEntry 0 0, wholeEntry 0 1]

noncomputable section

def bentPoints : List (Point ℝ) :=
  [⟨(0 : ℤ), (0 : ℤ)⟩, ⟨(1 : ℤ), (0 : ℤ)⟩, ⟨(1 : ℤ), (1 : ℤ)⟩]

def bentDepartures : List (Point ℝ) := [⟨(0 : ℤ), (0 : ℤ)⟩, ⟨(0 : ℤ), (1 : ℤ)⟩]

end

/-- The way from the second vertex to the third one is a curve, and its other handle is missing. -/
theorem segments_bentVertices :
    bentVertices.map Value.point? = bentPoints.map some ∧
      ([] : List (Value ℝ)).map Value.point? = ([] : List (Point ℝ)).map some ∧
      bentLeaving.map Value.point? = bentDepartures.map some ∧
      ∃ segments, (PathRows.ofLists bentVertices [] bentLeaving).segments true = .ok segments ∧
        segments.IsChain Segment.Joins ∧ segments.map Segment.stop = bentPoints.rotate 1 ∧
        segments[1]? = some (.cubic ⟨1, 0⟩ ⟨0, 1⟩ ⟨1, 1⟩ ⟨1, 1⟩) := by
  have hvertices : bentVertices.map Value.point? = bentPoints.map some := rfl
  have harriving : ([] : List (Value ℝ)).map Value.point? = ([] : List (Point ℝ)).map some := rfl
  have hleaving : bentLeaving.map Value.point? = bentDepartures.map some := rfl
  obtain ⟨segments, hsegments, hchain, -, hstops, -, hfollows⟩ :=
    segments_visit_vertices hvertices harriving hleaving true
  refine ⟨hvertices, harriving, hleaving, segments, hsegments, hchain, hstops, ?_⟩
  have hlength : segments.length = 3 := by
    rw [← List.length_map Segment.stop, hstops]
    rfl
  have hsecond : segments[1]? = some segments[1] := List.getElem?_eq_getElem (by omega)
  obtain ⟨vertex, successor, hvertex, hsuccessor, follows⟩ := hfollows 1 _ hsecond
  obtain rfl : Point.mk ((1 : ℤ) : ℝ) (0 : ℤ) = vertex := Option.some_inj.mp hvertex
  obtain rfl : Point.mk ((1 : ℤ) : ℝ) (1 : ℤ) = successor := Option.some_inj.mp hsuccessor
  have hoff : ¬ (Point.mk ((0 : ℤ) : ℝ) (1 : ℤ)).LiesOn ⟨(1 : ℤ), (0 : ℤ)⟩ := by
    rw [← isNear_iff_liesOn, Point.isNear_iff]
    norm_num
  have hcurve : segments[1].isLine = false :=
    Bool.eq_false_iff.mpr fun hline => hoff (follows.isLine_iff.mp hline).1
  rw [hsecond, follows.curve hcurve]
  simp [bentDepartures]

end MotionScene
