import MotionScene.Drawing.Drawer
import MotionScene.Proofs.Outcome

/-!
# Nothing of a drawing is left in its drawer

A drawer keeps its placement and its buffers from one copy to the next, from one call to the
next, and also when a call fails with the buffers half written.  Whatever a buffer holds, it is
brought to the length of a row and written over from its start to its end before any of it is
read (`finished_writeImages`, `finished_fillBuffer`).  So the commands of a call are those that
`PathRequest.commands` gives, which knows no drawer (`commands_draw`), and a drawer that has been
used draws what a fresh one draws (`drawAll_eq_fresh`).
-/

namespace MotionScene

open scoped Scalar

variable {R : Type} [Scalar R]

/-! ## Images -/

/-- The point that a reading of a row becomes. -/
def PointReading.imagePoint (placement : Placement R) (point? : Option (Point R)) : Point R :=
  placement.apply (point?.getD .origin)

/-- The points that readings give, unless one of them fails. -/
def readAll (readings : List (PointReading R)) : Except Fault (List (Option (Point R))) :=
  readings.mapM id

/-- The images of the points of a row. -/
def PointRow.images (placement : Placement R) (row : PointRow R) :
    Except Fault (List (Point R)) := do
  let _ ← row.size
  let points ← readAll row.readings
  return points.map (PointReading.imagePoint placement)

/-- The image of a path. -/
def PathRows.image (placement : Placement R) (rows : PathRows R) : Except Fault (PathRows R) := do
  let vertices ← rows.vertices.images placement
  let arriving ← rows.arriving.images placement
  let leaving ← rows.leaving.images placement
  return ⟨.ofPoints vertices, .ofPoints arriving, .ofPoints leaving⟩

/-! ## Buffers -/

/-- What a step leaves that may have stopped early, if it has not. -/
def finishedOf {α : Type} (written : α × Except Fault Unit) : Except Fault α :=
  written.2.map fun _ => written.1

@[simp] theorem finishedOf_ok {α : Type} (a : α) : finishedOf (a, .ok ()) = .ok a := rfl

@[simp] theorem finishedOf_error {α : Type} (a : α) (fault : Fault) :
    finishedOf (a, .error fault) = .error fault := rfl

theorem length_resizeBuffer (buffer : List (Point R)) (size : ℕ) :
    (resizeBuffer buffer size).length = size := by
  rw [resizeBuffer, List.length_append, List.length_take, List.length_replicate]
  omega

theorem take_succ_set {α : Type} {items : List α} {place : ℕ} (room : place < items.length)
    (item : α) : (items.set place item).take (place + 1) = items.take place ++ [item] := by
  have hplace : place < (items.set place item).length := by
    rw [List.length_set]
    exact room
  rw [List.take_succ_eq_append_getElem hplace, List.getElem_set_self,
    List.take_set_of_le (Nat.le_refl place)]

/-- Writing from a place on keeps what is before it and leaves nothing of what was behind: the
induction is on the readings, of which each takes the place after the last. -/
theorem finished_writeImages (placement : Placement R) (place : ℕ)
    (readings : List (PointReading R)) (buffer : List (Point R))
    (room : buffer.length = place + readings.length) :
    finishedOf (writeImages placement place readings buffer) =
      (readAll readings).map fun points =>
        buffer.take place ++ points.map (PointReading.imagePoint placement) := by
  induction readings generalizing place buffer with
  | nil =>
      have hall : buffer.take place = buffer := List.take_of_length_le (by simp [room])
      rw [writeImages, finishedOf_ok, readAll, List.mapM_nil]
      exact congrArg Except.ok ((List.append_nil _).trans hall).symm
  | cons reading rest ih =>
      rw [List.length_cons] at room
      rw [readAll, List.mapM_cons]
      cases reading with
      | error fault => rfl
      | ok point? =>
          rw [writeImages, ih (place + 1) _ (by rw [List.length_set]; omega),
            take_succ_set (by omega), id_eq, ok_bind, readAll]
          cases (rest.mapM id : Except Fault (List (Option (Point R)))) with
          | error fault => rfl
          | ok points => exact congrArg Except.ok (List.append_assoc _ _ _)

/-- Whatever a buffer held, it holds the image of the row in the end. -/
theorem finished_fillBuffer (placement : Placement R) (row : PointRow R)
    (buffer : List (Point R)) :
    finishedOf (fillBuffer placement row buffer) = row.images placement := by
  rw [fillBuffer, PointRow.images, PointRow.size]
  cases row.isCounted with
  | false => rfl
  | true =>
      rw [if_pos rfl, ok_bind]
      dsimp only
      rw [finished_writeImages placement 0 row.readings _
        (by rw [length_resizeBuffer, Nat.zero_add]), List.take_zero]
      rfl

/-- The rows of a drawer that has been filled are the image of the path. -/
theorem rows_fill (drawer : Drawer R) (rows : PathRows R) :
    (finishedOf (drawer.fill rows)).map Drawer.rows = rows.image drawer.placement := by
  unfold PathRows.image
  rw [← finished_fillBuffer _ _ drawer.vertices, ← finished_fillBuffer _ _ drawer.arriving,
    ← finished_fillBuffer _ _ drawer.leaving, Drawer.fill]
  obtain ⟨vertices, outcome⟩ := fillBuffer drawer.placement rows.vertices drawer.vertices
  cases outcome with
  | error fault => rfl
  | ok _ =>
      obtain ⟨arriving, outcome⟩ := fillBuffer drawer.placement rows.arriving drawer.arriving
      cases outcome with
      | error fault => rfl
      | ok _ =>
          obtain ⟨leaving, outcome⟩ := fillBuffer drawer.placement rows.leaving drawer.leaving
          cases outcome <;> rfl

/-! ## Drawings without a drawer -/

namespace PathRequest

/-- The rows of the copy at a step. -/
def rowsAt (request : PathRequest R) (step : R) : Except Fault (PathRows R) :=
  if step == 0 then .ok request.rows
  else do
    let placement ← placementAt request.repeater.members step
    request.rows.image placement

/-- The commands of the copy at a step. -/
def copyCommands (request : PathRequest R) (step : R) : Traced (Command R) Unit := do
  let rows ← request.rowsAt step
  Traced.tellAll (← request.drawOnce rows)

/-- The commands of copies, of which the first has the given number. -/
def copiesCommands (request : PathRequest R) (offset : R) :
    (copies first : ℕ) → Traced (Command R) Unit
  | 0, _ => pure ()
  | copies + 1, first => do
    request.copyCommands (Scalar.ofNat first + offset)
    request.copiesCommands offset copies (first + 1)

/-- The commands that draw a path with its trim and its repeater. -/
def commands (request : PathRequest R) : Traced (Command R) Unit := do
  let count ← repeatCount request.repeater
  let offset ← repeatOffset request.repeater
  request.copiesCommands offset (count + 1) 0

end PathRequest

theorem commands_drawCopy (drawer : Drawer R) (request : PathRequest R) (step : R) :
    (drawer.drawCopy request step).commands = request.copyCommands step := by
  rw [Drawer.drawCopy, PathRequest.copyCommands, PathRequest.rowsAt]
  split
  · rfl
  cases placementAt request.repeater.members step with
  | error fault => rfl
  | ok placement =>
      have hrows := rows_fill { drawer with placement } request.rows
      dsimp only at hrows ⊢
      rw [ok_bind, ← hrows]
      obtain ⟨filled, outcome⟩ := Drawer.fill { drawer with placement } request.rows
      cases outcome <;> rfl

/-- Copies of a path are drawn alike with every drawer. -/
theorem commands_drawCopies (request : PathRequest R) (offset : R) (copies first : ℕ)
    (drawer : Drawer R) : (Drawer.drawCopies request offset copies first drawer).commands =
      request.copiesCommands offset copies first := by
  induction copies generalizing first drawer with
  | zero => rfl
  | succ copies ih =>
      rw [Drawer.drawCopies, PathRequest.copiesCommands,
        ← commands_drawCopy drawer request (Scalar.ofNat first + offset)]
      generalize drawer.drawCopy request (Scalar.ofNat first + offset) = drawn
      obtain ⟨drawer, trace, outcome⟩ := drawn
      cases outcome with
      | error fault => rfl
      | ok _ =>
          dsimp only
          rw [ih]

/-- A path is drawn alike with every drawer. -/
theorem commands_draw (drawer : Drawer R) (request : PathRequest R) :
    (drawer.draw request).commands = request.commands := by
  rw [Drawer.draw, PathRequest.commands]
  cases repeatCount request.repeater with
  | error fault => rfl
  | ok count =>
      cases repeatOffset request.repeater with
      | error fault => rfl
      | ok offset => exact commands_drawCopies request offset (count + 1) 0 drawer

/-! ## Calls in a row -/

/-- What the calls of one drawer give: the commands of each, and how it ends. -/
def Drawer.drawAll (drawer : Drawer R) : List (PathRequest R) → List (Traced (Command R) Unit)
  | [] => []
  | request :: rest =>
    (drawer.draw request).commands :: Drawer.drawAll (drawer.draw request).drawer rest

/-- **A drawer that has been used draws as a fresh one.**  Whatever the calls before it were,
and however they ended, a call adds the commands that it adds to a fresh drawer, and fails if
and as it fails there. -/
theorem drawAll_eq_fresh (drawer : Drawer R) (requests : List (PathRequest R)) :
    drawer.drawAll requests = requests.map fun request => (Drawer.fresh.draw request).commands := by
  induction requests generalizing drawer with
  | nil => rfl
  | cons request rest ih =>
      rw [Drawer.drawAll, List.map_cons, ih, commands_draw, commands_draw]

end MotionScene
