import MotionScene.Drawing.Command
import MotionScene.Proofs.Curve.Chain
import MotionScene.Proofs.Drawing.Copies

/-!
# Drawn commands replay to the geometry

A canvas builds a path from commands: `moveTo` starts a subpath, `lineTo` and `curveTo` add a
segment from the point that the subpath has got to, and `closePath` adds the straight segment
back to the start, unless the subpath is there already.  Replaying the commands that draw a path
gives the segments of the path back (`replay_gives_segments`).

A straight closing segment is not drawn, but left to `closePath`.  That it comes back is due to
the closed path leading back to where it starts; only where it has no length, nothing is added.
-/

namespace MotionScene

variable {R : Type}

/-! ## A canvas path -/

/-- A subpath of a canvas path: the point at which it was started, and the segments that were
added to it. -/
structure Subpath (R : Type) where
  start : Point R
  segments : List (Segment R)

namespace Subpath

/-- The point that a subpath has got to. -/
def point (subpath : Subpath R) : Point R :=
  (subpath.segments.getLast?.map Segment.stop).getD subpath.start

def extend (subpath : Subpath R) (segments : List (Segment R)) : Subpath R :=
  { subpath with segments := subpath.segments ++ segments }

/-- Adds the straight segment back to the start, unless the subpath is there already. -/
def close [DecidableEq R] (subpath : Subpath R) : Subpath R :=
  if subpath.point = subpath.start then subpath
  else subpath.extend [.line subpath.point subpath.start]

/-- The subpath that a run of segments is, none if there are no segments. -/
def ofRun? : List (Segment R) → Option (Subpath R)
  | [] => none
  | first :: rest => some ⟨first.start, first :: rest⟩

@[simp] theorem extend_nil (subpath : Subpath R) : subpath.extend [] = subpath := by
  simp [extend]

@[simp] theorem extend_extend (subpath : Subpath R) (segments more : List (Segment R)) :
    (subpath.extend segments).extend more = subpath.extend (segments ++ more) := by
  simp [extend]

@[simp] theorem point_extend_singleton (subpath : Subpath R) (segment : Segment R) :
    (subpath.extend [segment]).point = segment.stop := by
  simp [extend, point]

/-- A subpath of segments that lead on from its start has got to where they lead. -/
theorem point_of_leads {start stop : Point R} {segments : List (Segment R)}
    (leads : Leads start segments stop) : (Subpath.mk start segments).point = stop := by
  rcases segments.eq_nil_or_concat' with rfl | ⟨segments, last, rfl⟩
  · exact leads
  · obtain ⟨middle, -, -, hstop⟩ := leads_append.mp leads
    rw [point, List.getLast?_concat, Option.map_some, Option.getD_some]
    exact hstop

end Subpath

variable [DecidableEq R]

/-- What a command makes of a canvas path, whose subpaths are given with the latest one first.
The commands of figures have no part in this, and neither has one that comes before any
`moveTo`. -/
def Command.replayOn : Command R → List (Subpath R) → Option (List (Subpath R))
  | .moveTo target, subpaths => some (⟨target, []⟩ :: subpaths)
  | .lineTo target, latest :: before =>
    some (latest.extend [.line latest.point target] :: before)
  | .curveTo first second target, latest :: before =>
    some (latest.extend [.cubic latest.point first second target] :: before)
  | .closePath, latest :: before => some (latest.close :: before)
  | _, _ => none

/-- What commands make of a canvas path. -/
def replayFrom (subpaths : List (Subpath R)) (commands : List (Command R)) :
    Option (List (Subpath R)) :=
  commands.foldlM (fun subpaths command => command.replayOn subpaths) subpaths

/-- The subpaths that commands build, in the order in which they are started. -/
def replay (commands : List (Command R)) : Option (List (Subpath R)) :=
  (replayFrom [] commands).map List.reverse

/-! ## Steps of a replay -/

theorem replayFrom_cons {subpaths next : List (Subpath R)} {command : Command R}
    (h : command.replayOn subpaths = some next) (rest : List (Command R)) :
    replayFrom subpaths (command :: rest) = replayFrom next rest := by
  rw [replayFrom, List.foldlM_cons, h]
  rfl

theorem replayFrom_append {subpaths next : List (Subpath R)} {commands : List (Command R)}
    (h : replayFrom subpaths commands = some next) (rest : List (Command R)) :
    replayFrom subpaths (commands ++ rest) = replayFrom next rest := by
  rw [replayFrom] at h
  rw [replayFrom, List.foldlM_append, h]
  rfl

/-- The command of a segment adds the segment to a subpath that has got to its start. -/
theorem replayOn_command {latest : Subpath R} {segment : Segment R}
    (h : segment.start = latest.point) (before : List (Subpath R)) :
    segment.command.replayOn (latest :: before) = some (latest.extend [segment] :: before) := by
  cases segment with
  | line start stop =>
      obtain rfl : start = latest.point := h
      rfl
  | cubic start first second stop =>
      obtain rfl : start = latest.point := h
      rfl

/-- The commands of segments that lead on from a subpath add them all: the induction is on the
segments. -/
theorem replayFrom_commands {latest : Subpath R} {segments : List (Segment R)} {stop : Point R}
    (leads : Leads latest.point segments stop) (before : List (Subpath R)) :
    replayFrom (latest :: before) (segments.map Segment.command) =
      some (latest.extend segments :: before) := by
  induction segments generalizing latest with
  | nil =>
      rw [Subpath.extend_nil]
      rfl
  | cons segment rest ih =>
      obtain ⟨hstart, hrest⟩ := leads
      have hleads : Leads (latest.extend [segment]).point rest stop := by
        rw [Subpath.point_extend_singleton]
        exact hrest
      rw [List.map_cons, replayFrom_cons (replayOn_command hstart before), ih hleads,
        Subpath.extend_extend]
      rfl

/-- The commands of segments that lead on from where a subpath was just started. -/
theorem replayFrom_started {start stop : Point R} {segments : List (Segment R)}
    (leads : Leads start segments stop) (before : List (Subpath R)) :
    replayFrom (⟨start, []⟩ :: before) (segments.map Segment.command) =
      some (⟨start, segments⟩ :: before) := by
  have hstart : Leads (Subpath.mk start []).point segments stop := leads
  rw [replayFrom_commands hstart, Subpath.extend, List.nil_append]

/-! ## Commands of a path -/

section Commands

omit [DecidableEq R]

/-- The segments of a path are followed by their commands, but for a straight last one of a
closed path. -/
theorem followSegments_concat (closed : Bool) (segments : List (Segment R)) (last : Segment R) :
    followSegments closed (segments ++ [last]) =
      segments.map Segment.command ++ if closed && last.isLine then [] else [last.command] := by
  induction segments with
  | nil => rfl
  | cons segment rest ih =>
      rw [List.map_cons, List.cons_append, List.cons_append, ← ih]
      cases rest <;> rfl

theorem followSegments_open (segments : List (Segment R)) :
    followSegments false segments = segments.map Segment.command := by
  rcases segments.eq_nil_or_concat' with rfl | ⟨segments, last, rfl⟩
  · rfl
  · rw [followSegments_concat, List.map_append]
    rfl

theorem closePath_ne_command (segment : Segment R) : Command.closePath ≠ segment.command := by
  intro h
  cases segment <;> cases h

theorem closePath_notMem_followSegments (closed : Bool) (segments : List (Segment R)) :
    Command.closePath ∉ followSegments closed segments := by
  rcases segments.eq_nil_or_concat' with rfl | ⟨segments, last, rfl⟩
  · exact List.not_mem_nil
  · rw [followSegments_concat]
    split <;> simp [(closePath_ne_command _).symm, closePath_ne_command]

/-- A path that has segments is drawn with one `closePath` at the end if it is closed, and
without any if it is open. -/
theorem exists_drawSegments_eq (closed : Bool) (segments : List (Segment R)) :
    ∃ commands, drawSegments closed segments =
        commands ++ (if closed && !segments.isEmpty then [.closePath] else []) ∧
      Command.closePath ∉ commands := by
  cases segments with
  | nil => exact ⟨[], by simp [drawSegments], List.not_mem_nil⟩
  | cons first rest =>
      refine ⟨.moveTo first.start :: followSegments closed (first :: rest), ?_, ?_⟩
      · simp [drawSegments]
      · simp [closePath_notMem_followSegments]

theorem closePath_notMem_drawRuns (runs : List (List (Segment R))) :
    Command.closePath ∉ drawRuns runs := by
  rw [drawRuns, List.mem_flatMap]
  rintro ⟨run, -, hrun⟩
  cases run with
  | nil => cases hrun
  | cons first rest =>
      simp only [drawRun, List.mem_cons, List.mem_map, reduceCtorEq, false_or] at hrun
      obtain ⟨segment, -, hsegment⟩ := hrun
      exact closePath_ne_command segment hsegment.symm

end Commands

/-! ## Paths -/

/-- What a replay gives back of the segments of a path: one subpath with all of them, but that
straight segments at the end which stop where they start may be left out. -/
structure GivesBack (segments : List (Segment R)) (subpaths : List (Subpath R)) : Prop where
  single : subpaths.length = if segments.isEmpty then 0 else 1
  start : ∀ subpath ∈ subpaths, segments.head?.map Segment.start = some subpath.start
  segments : ∃ omitted, subpaths.flatMap Subpath.segments ++ omitted = segments ∧
    ∀ segment ∈ omitted, segment.isLine = true ∧ segment.stop = segment.start

/-- A straight segment that leads back to the start is what closing a subpath adds, or it has
no length and is left out. -/
theorem exists_close_eq (subpath : Subpath R) {last : Segment R} (hline : last.isLine = true)
    (hstart : last.start = subpath.point) (hstop : last.stop = subpath.start) :
    ∃ added omitted, subpath.close = subpath.extend added ∧ added ++ omitted = [last] ∧
      ∀ segment ∈ omitted, segment.isLine = true ∧ segment.stop = segment.start := by
  cases last with
  | cubic => cases hline
  | line start stop =>
      obtain rfl : start = subpath.point := hstart
      obtain rfl : stop = subpath.start := hstop
      rw [Subpath.close]
      split
      · rename_i hback
        exact ⟨[], [_], subpath.extend_nil.symm, rfl,
          List.forall_mem_singleton.mpr ⟨rfl, hback.symm⟩⟩
      · exact ⟨[_], [], rfl, rfl, List.forall_mem_nil _⟩

/-- A closed path comes back through the closing segment that is drawn, or through the one that
`closePath` adds in its place. -/
theorem exists_replayFrom_closed {start : Point R} {segments : List (Segment R)}
    (nonempty : segments ≠ []) (leads : Leads start segments start) :
    ∃ drawn omitted, replayFrom [⟨start, []⟩] (followSegments true segments ++ [.closePath]) =
        some [⟨start, drawn⟩] ∧ drawn ++ omitted = segments ∧
      ∀ segment ∈ omitted, segment.isLine = true ∧ segment.stop = segment.start := by
  rcases segments.eq_nil_or_concat' with rfl | ⟨segments, last, rfl⟩
  · exact absurd rfl nonempty
  obtain ⟨middle, hsegments, hstart, hstop⟩ := leads_append.mp leads
  have hclose : ∀ subpath : Subpath R,
      replayFrom [subpath] [.closePath] = some [subpath.close] := fun _ => rfl
  rw [followSegments_concat, Bool.true_and]
  by_cases hline : last.isLine = true
  · have hpoint := Subpath.point_of_leads hsegments
    obtain ⟨added, omitted, hadded, hlast, homitted⟩ :=
      exists_close_eq ⟨start, segments⟩ hline (hstart.trans hpoint.symm) hstop
    refine ⟨segments ++ added, omitted, ?_, by rw [List.append_assoc, hlast], homitted⟩
    rw [if_pos hline, List.append_nil, replayFrom_append (replayFrom_started hsegments []),
      hclose, hadded, Subpath.extend]
  · -- a curve is drawn back to the start, so nothing is left to be added
    have hcommands : segments.map Segment.command ++ [last.command] =
        (segments ++ [last]).map Segment.command := by
      rw [List.map_append, List.map_singleton]
    refine ⟨segments ++ [last], [], ?_, List.append_nil _, List.forall_mem_nil _⟩
    rw [if_neg hline, hcommands, replayFrom_append (replayFrom_started leads []), hclose,
      Subpath.close, if_pos (Subpath.point_of_leads leads)]

theorem exists_replay_drawSegments {closed : Bool} {start stop : Point R}
    {segments : List (Segment R)} (leads : Leads start segments stop)
    (back : closed = true → stop = start) :
    ∃ subpaths, replay (drawSegments closed segments) = some subpaths ∧
      GivesBack segments subpaths := by
  cases segments with
  | nil => exact ⟨[], rfl, rfl, List.forall_mem_nil _, [], rfl, List.forall_mem_nil _⟩
  | cons first rest =>
      obtain ⟨drawn, omitted, hdrawn, hsegments, homitted⟩ : ∃ drawn omitted,
          replayFrom [⟨start, []⟩] (followSegments closed (first :: rest) ++
            if closed then [.closePath] else []) = some [⟨start, drawn⟩] ∧
          drawn ++ omitted = first :: rest ∧
          ∀ segment ∈ omitted, segment.isLine = true ∧ segment.stop = segment.start := by
        cases closed with
        | false =>
            refine ⟨first :: rest, [], ?_, List.append_nil _, List.forall_mem_nil _⟩
            rw [followSegments_open, replayFrom_append (replayFrom_started leads [])]
            rfl
        | true =>
            obtain rfl := back rfl
            exact exists_replayFrom_closed (List.cons_ne_nil _ _) leads
      have hmove : (Command.moveTo start).replayOn [] = some [⟨start, []⟩] := rfl
      refine ⟨[⟨start, drawn⟩], ?_, rfl, ?_, omitted, ?_, homitted⟩
      · rw [replay, drawSegments, leads.1, List.cons_append, replayFrom_cons hmove, hdrawn]
        rfl
      · rw [List.forall_mem_singleton, List.head?_cons, Option.map_some, leads.1]
      · simpa using hsegments

/-! ## Runs -/

theorem replayFrom_drawRun {run : List (Segment R)} (chain : run.IsChain Segment.Joins)
    (subpaths : List (Subpath R)) :
    replayFrom subpaths (drawRun run) = some ((Subpath.ofRun? run).toList ++ subpaths) := by
  cases run with
  | nil => rfl
  | cons first rest =>
      obtain ⟨stop, hleads⟩ := exists_leads_of_isChain chain
      have hmove : (Command.moveTo first.start).replayOn subpaths =
          some (⟨first.start, []⟩ :: subpaths) := by
        rw [Command.replayOn]
      rw [drawRun, replayFrom_cons hmove, replayFrom_started hleads]
      rfl

/-- Runs are started one after the other: the induction is on the runs. -/
theorem replayFrom_drawRuns {runs : List (List (Segment R))}
    (chains : ∀ run ∈ runs, run.IsChain Segment.Joins) (subpaths : List (Subpath R)) :
    replayFrom subpaths (drawRuns runs) =
      some ((runs.filterMap Subpath.ofRun?).reverse ++ subpaths) := by
  induction runs generalizing subpaths with
  | nil => rfl
  | cons run rest ih =>
      obtain ⟨hrun, hrest⟩ := List.forall_mem_cons.mp chains
      have hruns : drawRuns (run :: rest) = drawRun run ++ drawRuns rest := List.flatMap_cons
      rw [hruns, replayFrom_append (replayFrom_drawRun hrun subpaths), ih hrest,
        List.filterMap_cons]
      cases run <;> simp [Subpath.ofRun?]

/-! ## The replay -/

/-- **Drawn commands replay to the geometry.**  Of the segments that are built of a path, closed
or open, the commands that draw them give all back, in order and in one subpath, but for straight
ones that stop where they start; they end with `closePath`, and have no other, if the path is
closed and has segments.  The commands that draw runs of joined segments give one subpath for
every run that has segments, with these segments and without a `closePath`. -/
theorem replay_gives_segments [Scalar R] {rows : PathRows R} {closed : Bool}
    {segments : List (Segment R)} (returned : rows.segments closed = .ok segments) :
    (∃ subpaths, replay (drawSegments closed segments) = some subpaths ∧
      GivesBack segments subpaths) ∧
    (∃ commands, drawSegments closed segments =
        commands ++ (if closed && !segments.isEmpty then [.closePath] else []) ∧
      Command.closePath ∉ commands) ∧
    ∀ runs : List (List (Segment R)), (∀ run ∈ runs, run.IsChain Segment.Joins) →
      replay (drawRuns runs) = some (runs.filterMap Subpath.ofRun?) ∧
        Command.closePath ∉ drawRuns runs := by
  obtain ⟨knots, -, hpure⟩ := bind_eq_ok.mp returned
  obtain rfl := pure_eq_ok.mp hpure
  refine ⟨?_, exists_drawSegments_eq closed _, fun runs chains => ⟨?_, ?_⟩⟩
  · cases knots with
    | nil =>
        have hnone : Leads Point.origin ([] : List (Segment R)) Point.origin := rfl
        exact exists_replay_drawSegments hnone fun _ => rfl
    | cons first rest =>
        refine exists_replay_drawSegments (leads_segmentsOf closed first rest) fun hclosed => ?_
        rw [if_pos hclosed]
  · rw [replay, replayFrom_drawRuns chains]
    simp
  · exact closePath_notMem_drawRuns runs

/-! ## A path that has come back -/

noncomputable section

/-- A path with a bend whose last vertex lies on its first one. -/
def returningPath : PathRows ℝ :=
  ⟨wholeRow [(0, 0), (1, 0), (1, 1), (0, 0)], wholeRow [], wholeRow [(0, 0), (0, 1)]⟩

/-- Its segments when it is closed: the last one has no length. -/
def returningSegments : List (Segment ℝ) :=
  [.line ⟨0, 0⟩ ⟨1, 0⟩, .cubic ⟨1, 0⟩ ⟨0, 1⟩ ⟨1, 1⟩ ⟨1, 1⟩, .line ⟨1, 1⟩ ⟨0, 0⟩,
    .line ⟨0, 0⟩ ⟨0, 0⟩]

end

theorem segments_returningPath : returningPath.segments true = .ok returningSegments := by
  have arrays : returningPath.AreArrays :=
    ⟨PointRow.isArray_ofValue _, PointRow.isArray_ofValue _, PointRow.isArray_ofValue _⟩
  have gives : returningPath.Gives [some ⟨(0 : ℤ), (0 : ℤ)⟩, some ⟨(1 : ℤ), (0 : ℤ)⟩,
      some ⟨(1 : ℤ), (1 : ℤ)⟩, some ⟨(0 : ℤ), (0 : ℤ)⟩] []
      [some ⟨(0 : ℤ), (0 : ℤ)⟩, some ⟨(0 : ℤ), (1 : ℤ)⟩] := ⟨rfl, rfl, rfl⟩
  have hbend : ¬ (Point.mk (0 : ℝ) 1).isNear ⟨1, 0⟩ = true := by
    rw [Point.isNear_iff]
    norm_num
  rw [PathRows.segments, gives.knots arrays, ok_bind]
  simp [knotsFrom, segmentsOf, Knot.segmentsThrough, Knot.segmentTo, Point.isNear_self, hbend,
    returningSegments]

/-- The last segment is what `closePath` does not add. -/
theorem replay_returningPath :
    returningPath.segments true = .ok returningSegments ∧
      (∃ subpaths, replay (drawSegments true returningSegments) = some subpaths ∧
        GivesBack returningSegments subpaths) ∧
      (∀ run ∈ [returningSegments.take 2, [], returningSegments.drop 2],
        run.IsChain Segment.Joins) ∧
      replay (drawRuns [returningSegments.take 2, [], returningSegments.drop 2]) =
        some [⟨⟨0, 0⟩, returningSegments.take 2⟩, ⟨⟨1, 1⟩, returningSegments.drop 2⟩] := by
  obtain ⟨hpath, -, hruns⟩ := replay_gives_segments segments_returningPath
  have chains : ∀ run ∈ [returningSegments.take 2, [], returningSegments.drop 2],
      run.IsChain Segment.Joins := by
    simp [returningSegments, Segment.Joins, Segment.start, Segment.stop]
  exact ⟨segments_returningPath, hpath, chains, (hruns _ chains).1⟩

end MotionScene
