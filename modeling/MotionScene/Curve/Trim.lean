import MotionScene.Curve.Segment
import MotionScene.Number

/-!
# Trimming

A trim keeps the stretch of a path between two fractions of its length, moved on by an
offset; what moves past the end of the path comes in again at its start.  Segments that
the stretch covers are kept whole, and segments at its ends are cut.  The place of a cut
inside a segment is taken by length and used as a parameter.
-/

namespace MotionScene

open scoped Scalar

variable {R : Type}

/-- A request to keep part of a path. -/
structure Trim (R : Type) where
  start : R
  stop : R
  offset : R
  deriving Repr

/-- A stretch of a path by fractions of its length. -/
structure Stretch (R : Type) where
  start : R
  stop : R
  deriving Repr

namespace Trim

variable [Scalar R]

/-- Whether a trim keeps the whole path. -/
def isIdentity (trim : Trim R) : Bool :=
  let (start, stop) := Scalar.inOrder trim.start trim.stop
  start ≤ 0 && 1 ≤ stop && Scalar.fraction trim.offset == 0

/-- The stretches that a trim keeps, in order along the path. -/
def stretches (trim : Trim R) : List (Stretch R) :=
  let (start, stop) := Scalar.inOrder (Scalar.clampUnit trim.start) (Scalar.clampUnit trim.stop)
  if start == stop then []
  else
    let shift := Scalar.fraction trim.offset
    if shift == 0 then [⟨start, stop⟩]
    else
      let start := start + shift
      let stop := stop + shift
      if stop ≤ 1 then [⟨start, stop⟩]
      else if 1 ≤ start then [⟨start - 1, stop - 1⟩]
      else [⟨0, stop - 1⟩, ⟨start, 1⟩]

end Trim

/-- A segment that a trim keeps, perhaps cut. -/
structure Piece (R : Type) where
  segment : Segment R
  /-- Whether the piece does not start where its segment starts. -/
  isCutOff : Bool

/-- Pieces one after another make up a run; a piece that is cut off at its start begins
another. -/
def runsOf : List (Piece R) → List (List (Segment R))
  | [] => []
  | [piece] => [[piece.segment]]
  | piece :: next :: rest =>
    match next.isCutOff, runsOf (next :: rest) with
    | false, run :: later => (piece.segment :: run) :: later
    | _, later => [piece.segment] :: later

/-- Runs keep every piece, in order. -/
theorem flatten_runsOf (pieces : List (Piece R)) :
    (runsOf pieces).flatten = pieces.map Piece.segment := by
  fun_induction runsOf pieces with
  | case1 => rfl
  | case2 piece => rfl
  | case3 piece next rest run later hcut hruns ih => simp_all
  | case4 piece next rest hcut ih => simp_all

variable [Scalar R]

/-- The part of a segment between two parameters.  The second one is taken anew in what
the first cut leaves. -/
def Segment.part (segment : Segment R) (lower upper : R) : Except Fault (Segment R) :=
  let rest := if 0 < lower then (segment.split lower).2 else segment
  if upper < 1 then do return (rest.split (← Number.divideReal (upper - lower) (1 - lower))).1
  else .ok rest

/-- The pieces of measured segments between two lengths along the path; `before` is the
length of the path before the first of them. -/
def piecesBetween (start stop before : R) : List (Segment R × R) → Except Fault (List (Piece R))
  | [] => .ok []
  | (segment, length) :: rest =>
    let after := before + length
    if length ≤ 0 || after ≤ start then piecesBetween start stop after rest
    else if stop ≤ before then .ok []
    else do
      let lower ← if before < start then Number.divideReal (start - before) length else .ok 0
      let upper ← if stop < after then Number.divideReal (stop - before) length else .ok 1
      let piece ← segment.part lower upper
      return ⟨piece, 0 < lower⟩ :: (← piecesBetween start stop after rest)

/-- The runs of a path that lie in a stretch of it, by the given lengths of its segments. -/
def keepStretch (segments : List (Segment R)) (lengths : List R) (stretch : Stretch R) :
    Except Fault (List (List (Segment R))) :=
  let total := lengths.foldl (· + ·) 0
  if total ≤ 0 || stretch.stop ≤ stretch.start then .ok []
  else do
    return runsOf (← piecesBetween (stretch.start * total) (stretch.stop * total) 0
      (segments.zip lengths))

/-- The runs that a trim keeps of a path. -/
def trimPath (segments : List (Segment R)) (trim : Trim R) :
    Except Fault (List (List (Segment R))) := do
  return (← trim.stretches.mapM (keepStretch segments (segments.map Segment.length))).flatten

end MotionScene
