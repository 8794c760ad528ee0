import Mathlib.Tactic.ByContra
import MotionScene.Proofs.Drawing.PathData
import MotionScene.Proofs.Outcome

/-!
# Arcs that are joined

On a surface, an arc is joined by a line to the current point, if there is one, and begins a subpath
if there is none.  Every command but `closePath` leaves a current point, and `closePath` keeps the
one that is there.  The path data of commands joins arcs in the same way (`pathItems_joins_arcs`),
but for an arc that has nothing but rectangles before it: it begins a subpath, although a rectangle
leaves its corner behind (`pathItems_leaves_rectangle`).
-/

namespace MotionScene

variable {R : Type}

/-! ## Current points -/

namespace Command

/-- Whether a command leaves a current point of its own on a surface; a rectangle leaves its
corner. -/
def leavesCurrentPoint : Command R → Bool
  | closePath => false
  | _ => true

def isRect : Command R → Bool
  | rect .. => true
  | _ => false

/-- Whether a drawing can begin with a command, since it needs no current point. -/
def canOpen : Command R → Bool
  | moveTo _ | rect .. | arc .. => true
  | _ => false

/-- Whether a command begins a subpath on a surface, which may have a current point or not. -/
def beginsSubpath (hasPoint : Bool) : Command R → Bool
  | moveTo _ | rect .. => true
  | closePath => false
  | lineTo _ | curveTo .. | arc .. => !hasPoint

end Command

/-- Whether a surface has a current point after commands. -/
def hasCurrentPoint (commands : List (Command R)) : Bool :=
  commands.any Command.leavesCurrentPoint

/-- The current point after commands is the corner of a rectangle, and no command of another kind
has left one before. -/
structure LeftByRectangle (commands : List (Command R)) : Prop where
  rectangle : ∃ command ∈ commands, command.isRect = true
  alone : ∀ command ∈ commands, command.leavesCurrentPoint = true → command.isRect = true

/-- Path data keeps track of the current point, unless rectangles alone have left it. -/
theorem any_leavesPoint {commands : List (Command R)} (h : ¬LeftByRectangle commands) :
    commands.any Command.leavesPoint = hasCurrentPoint commands := by
  rw [Bool.eq_iff_iff, hasCurrentPoint, List.any_eq_true, List.any_eq_true]
  constructor
  · rintro ⟨command, hmem, hleaves⟩
    refine ⟨command, hmem, ?_⟩
    cases command with
    | closePath => exact hleaves
    | moveTo | lineTo | curveTo | arc | rect => rfl
  · rintro ⟨command, hmem, hleaves⟩
    by_contra hnone
    have hrect : ∀ other ∈ commands, other.leavesCurrentPoint = true → other.isRect = true := by
      intro other hother hpoint
      cases other with
      | rect => rfl
      | closePath => exact hpoint
      | moveTo | lineTo | curveTo | arc => exact absurd ⟨_, hother, rfl⟩ hnone
    exact h ⟨⟨command, hmem, hrect command hmem hleaves⟩, hrect⟩

/-- A drawing that begins with a command that can open it has a current point from then on. -/
theorem hasCurrentPoint_take {commands : List (Command R)}
    (h : ∀ command ∈ commands.head?, command.canOpen = true) {i : ℕ} {command : Command R}
    (hi : commands[i]? = some command) (hopen : command.canOpen = false) :
    hasCurrentPoint (commands.take i) = true := by
  cases commands with
  | nil => simp at hi
  | cons first rest =>
      have hfirst : first.canOpen = true := h first rfl
      cases i with
      | zero =>
          obtain rfl : first = command := Option.some.inj hi
          exact absurd hfirst (by simp [hopen])
      | succ i =>
          have hleaves : first.leavesCurrentPoint = true := by
            cases first with
            | closePath => exact hfirst
            | moveTo | lineTo | curveTo | arc | rect => rfl
          rw [hasCurrentPoint, List.take_succ_cons, List.any_cons, hleaves, Bool.true_or]

variable [Scalar R]

/-! ## The text of a command -/

open scoped Scalar in
/-- Whether an arc goes all the way round, so that its text has two halves. -/
def IsFullTurn (start stop : R) : Prop :=
  2 * Scalar.pi - Scalar.decimal 1 9 ≤ Scalar.magnitude (stop - start)

instance (start stop : R) : Decidable (IsFullTurn start stop) :=
  inferInstanceAs (Decidable (_ ≤ _))

namespace Command

/-- The angles at which the text of a command has points of a circle. -/
def angles : Command R → List R
  | arc _ _ start stop _ => [start, if IsFullTurn start stop then start + Scalar.pi else stop]
  | _ => []

/-- No angle of the command is infinite. -/
def HasDirections (command : Command R) : Prop :=
  ∀ angle ∈ command.angles, ∀ negative, Scalar.special? angle ≠ some (.infinity negative)

end Command

theorem Command.HasDirections.of_no_angle {command : Command R} (h : command.angles = []) :
    command.HasDirections := by
  simp [HasDirections, h]

theorem Command.HasDirections.of_finite {center : Point R} {radius start stop : R}
    {anticlockwise : Bool} (hstart : Scalar.special? start = none)
    (hhalf : Scalar.special? (start + Scalar.pi) = none) (hstop : Scalar.special? stop = none) :
    (Command.arc center radius start stop anticlockwise).HasDirections := by
  intro angle hangle negative
  rw [angles, List.mem_pair] at hangle
  rcases hangle with rfl | rfl
  · simp [hstart]
  · split <;> simp [hhalf, hstop]

/-- The letter that the text of a command begins with. -/
def Command.letter (joined : Bool) : Command R → Char
  | moveTo _ | rect .. => 'M'
  | lineTo _ => 'L'
  | curveTo .. => 'C'
  | closePath => 'Z'
  | arc .. => if joined then 'L' else 'M'

/-- The letter that a text begins with. -/
def lead? (text : String) : Option Char :=
  text.toList.head?

theorem lead?_append {text : String} {letter : Char} (h : lead? text = some letter)
    (later : String) : lead? (text ++ later) = some letter := by
  rw [lead?, String.toList_append, List.head?_append, ← lead?, h]
  rfl

theorem lead?_pathItem {letter : String} {c : Char} (h : lead? letter = some c) (values : List R) :
    lead? (pathItem letter values) = some c :=
  lead?_append (lead?_append h _) _

/-- A circle has a point at every angle that is not infinite. -/
theorem exists_onCircle_iff {angle : R} (center : Point R) (radius : R) :
    (∃ point, onCircle center radius angle = .ok point) ↔
      ∀ negative, Scalar.special? angle ≠ some (.infinity negative) := by
  unfold onCircle direction
  split
  · rename_i negative hspecial
    exact iff_of_false (by simp [bind, Except.bind]) fun h => h negative hspecial
  · rename_i hspecial
    exact iff_of_true ⟨_, rfl⟩ hspecial

open scoped Scalar in
/-- The text of an arc goes to the start of the arc first, by a line if the arc is joined. -/
theorem exists_arcData {center : Point R} {radius start stop : R} {anticlockwise : Bool}
    (h : (Command.arc center radius start stop anticlockwise).HasDirections) (joined : Bool) :
    ∃ first rest, onCircle center radius start = .ok first ∧
      arcData joined center radius start stop anticlockwise =
        .ok (pathItem (if joined then "L" else "M") [first.x, first.y] ++ rest) := by
  obtain ⟨hstart, hother⟩ := (List.forall_mem_cons.mp h).imp_right List.forall_mem_singleton.mp
  obtain ⟨first, hfirst⟩ := (exists_onCircle_iff center radius).mpr hstart
  obtain ⟨other, hother⟩ := (exists_onCircle_iff center radius).mpr hother
  unfold arcData
  rw [hfirst]
  by_cases hturn : 2 * Scalar.pi - Scalar.decimal 1 9 ≤ Scalar.magnitude (stop - start)
  · have hfull : IsFullTurn start stop := hturn
    rw [if_pos hfull] at hother
    simp only [ok_bind]
    rw [if_pos hturn, hother, ok_bind, String.intercalate_cons_cons, String.append_assoc]
    exact ⟨first, _, rfl, rfl⟩
  · have hpart : ¬IsFullTurn start stop := hturn
    rw [if_neg hpart] at hother
    simp only [ok_bind]
    rw [if_neg hturn, hother, ok_bind, String.append_assoc]
    exact ⟨first, _, rfl, rfl⟩

open scoped Scalar in
theorem hasDirections_of_arcData {center : Point R} {radius start stop : R} {anticlockwise : Bool}
    {joined : Bool} {text : String}
    (h : arcData joined center radius start stop anticlockwise = .ok text) :
    (Command.arc center radius start stop anticlockwise).HasDirections := by
  obtain ⟨first, hfirst, hrest⟩ := bind_eq_ok.mp h
  have hstart := (exists_onCircle_iff center radius).mp ⟨first, hfirst⟩
  refine List.forall_mem_cons.mpr ⟨hstart, List.forall_mem_singleton.mpr ?_⟩
  by_cases hturn : 2 * Scalar.pi - Scalar.decimal 1 9 ≤ Scalar.magnitude (stop - start)
  · have hfull : IsFullTurn start stop := hturn
    rw [if_pos hturn] at hrest
    obtain ⟨middle, hmiddle, -⟩ := bind_eq_ok.mp hrest
    rw [if_pos hfull]
    exact (exists_onCircle_iff center radius).mp ⟨middle, hmiddle⟩
  · have hpart : ¬IsFullTurn start stop := hturn
    rw [if_neg hturn] at hrest
    obtain ⟨last, hlast, -⟩ := bind_eq_ok.mp hrest
    rw [if_neg hpart]
    exact (exists_onCircle_iff center radius).mp ⟨last, hlast⟩

/-- A command has a text if its angles have directions. -/
theorem exists_data_iff {command : Command R} (joined : Bool) :
    (∃ text, command.data joined = .ok text) ↔ command.HasDirections := by
  cases command with
  | arc center radius start stop anticlockwise =>
      constructor
      · rintro ⟨text, htext⟩
        exact hasDirections_of_arcData htext
      · intro h
        obtain ⟨first, rest, -, htext⟩ := exists_arcData h joined
        exact ⟨_, htext⟩
  | moveTo | lineTo | curveTo | closePath | rect =>
      exact iff_of_true ⟨_, rfl⟩ (.of_no_angle rfl)

/-- The text of a command begins with its letter. -/
theorem lead?_data {command : Command R} {joined : Bool} {text : String}
    (h : command.data joined = .ok text) : lead? text = some (command.letter joined) := by
  cases command with
  | moveTo target =>
      obtain rfl : pathItem "M" [target.x, target.y] = text := Except.ok.inj h
      exact lead?_pathItem rfl _
  | lineTo target =>
      obtain rfl : pathItem "L" [target.x, target.y] = text := Except.ok.inj h
      exact lead?_pathItem rfl _
  | curveTo first second target =>
      obtain rfl : pathItem "C" _ = text := Except.ok.inj h
      exact lead?_pathItem rfl _
  | closePath =>
      obtain rfl : "Z" = text := Except.ok.inj h
      rfl
  | rect corner width height =>
      simp only [Command.data, String.append_assoc] at h
      obtain rfl := Except.ok.inj h
      exact lead?_append (lead?_pathItem rfl _) _
  | arc center radius start stop anticlockwise =>
      obtain ⟨first, rest, -, hdata⟩ := exists_arcData (hasDirections_of_arcData h) joined
      obtain rfl : _ = text := Except.ok.inj (hdata.symm.trans h)
      refine lead?_append (lead?_pathItem ?_ _) _
      cases joined <;> rfl

/-! ## The texts of a drawing -/

theorem pathItems_cons {command : Command R} {rest : List (Command R)} {joined : Bool}
    {items : List String} :
    pathItems joined (command :: rest) = .ok items ↔
      ∃ text later, command.data joined = .ok text ∧
        pathItems (joined || command.leavesPoint) rest = .ok later ∧ items = text :: later := by
  constructor
  · intro h
    obtain ⟨text, htext, hrest⟩ := bind_eq_ok.mp h
    obtain ⟨later, hlater, hpure⟩ := bind_eq_ok.mp hrest
    exact ⟨text, later, htext, hlater, (pure_eq_ok.mp hpure).symm⟩
  · rintro ⟨text, later, htext, hlater, rfl⟩
    rw [pathItems, htext, ok_bind, hlater]
    rfl

/-- A drawing has path data if all of its commands have texts. -/
theorem exists_pathItems_iff (commands : List (Command R)) (joined : Bool) :
    (∃ items, pathItems joined commands = .ok items) ↔
      ∀ command ∈ commands, command.HasDirections := by
  induction commands generalizing joined with
  | nil => exact iff_of_true ⟨[], rfl⟩ (List.forall_mem_nil _)
  | cons command rest ih =>
      rw [List.forall_mem_cons, ← exists_data_iff joined, ← ih (joined || command.leavesPoint)]
      constructor
      · rintro ⟨items, hitems⟩
        obtain ⟨text, later, htext, hlater, -⟩ := pathItems_cons.mp hitems
        exact ⟨⟨text, htext⟩, later, hlater⟩
      · rintro ⟨⟨text, htext⟩, later, hlater⟩
        exact ⟨text :: later, pathItems_cons.mpr ⟨text, later, htext, hlater, rfl⟩⟩

theorem length_pathItems {commands : List (Command R)} {joined : Bool} {items : List String}
    (h : pathItems joined commands = .ok items) : items.length = commands.length := by
  induction commands generalizing joined items with
  | nil =>
      obtain rfl : [] = items := Except.ok.inj h
      rfl
  | cons command rest ih =>
      obtain ⟨text, later, -, hlater, rfl⟩ := pathItems_cons.mp h
      rw [List.length_cons, List.length_cons, ih hlater]

/-- Every command has its text, in which it is joined to what the commands before it have left. -/
theorem getElem?_pathItems {commands : List (Command R)} {joined : Bool} {items : List String}
    (h : pathItems joined commands = .ok items) {i : ℕ} {command : Command R}
    (hi : commands[i]? = some command) :
    ∃ text, items[i]? = some text ∧
      command.data (joined || (commands.take i).any Command.leavesPoint) = .ok text := by
  induction commands generalizing joined items i with
  | nil => simp at hi
  | cons first rest ih =>
      obtain ⟨text, later, htext, hlater, rfl⟩ := pathItems_cons.mp h
      cases i with
      | zero =>
          obtain rfl : first = command := Option.some.inj hi
          exact ⟨text, rfl, by simpa using htext⟩
      | succ i =>
          obtain ⟨found, hfound, hdata⟩ := ih hlater (i := i) hi
          exact ⟨found, hfound, by simpa [Bool.or_assoc] using hdata⟩

/-! ## Joined arcs -/

/-- **Path data joins arcs as a surface does.**  Commands have path data unless an angle of theirs
has no direction.  The text of an arc begins with a line to the start of the arc if there is a
current point, and with a move to it if there is none, unless the current point is one that
rectangles alone have left.  So a drawing that can open has the same subpaths on a surface and in
its path data, if none of its arcs stands behind rectangles alone. -/
theorem pathItems_joins_arcs (commands : List (Command R)) :
    ((∃ items, pathItems false commands = .ok items) ↔
      ∀ command ∈ commands, command.HasDirections) ∧
    ∀ items, pathItems false commands = .ok items →
      pathData commands = .ok (" ".intercalate items) ∧ items.length = commands.length ∧
      (∀ (i : ℕ) center radius start stop anticlockwise,
        commands[i]? = some (.arc center radius start stop anticlockwise) →
        ¬LeftByRectangle (commands.take i) →
          ∃ first rest, onCircle center radius start = .ok first ∧
            items[i]? = some (pathItem (if hasCurrentPoint (commands.take i) then "L" else "M")
              [first.x, first.y] ++ rest)) ∧
      ((∀ command ∈ commands.head?, command.canOpen = true) →
        (∀ (i : ℕ) (command : Command R), commands[i]? = some command → command.isArc = true →
          ¬LeftByRectangle (commands.take i)) →
        ∀ (i : ℕ) (command : Command R) (text : String), commands[i]? = some command →
          items[i]? = some text →
            (lead? text = some 'M' ↔
              command.beginsSubpath (hasCurrentPoint (commands.take i)) = true)) := by
  refine ⟨exists_pathItems_iff commands false, fun items hitems =>
    ⟨by rw [pathData, hitems]; rfl, length_pathItems hitems, ?_, ?_⟩⟩
  · intro i center radius start stop anticlockwise hi hleft
    obtain ⟨text, htext, hdata⟩ := getElem?_pathItems hitems hi
    rw [Bool.false_or, any_leavesPoint hleft] at hdata
    obtain ⟨first, rest, hfirst, harc⟩ :=
      exists_arcData (hasDirections_of_arcData hdata) (hasCurrentPoint (commands.take i))
    exact ⟨first, rest, hfirst, by rw [htext, ← Except.ok.inj (harc.symm.trans hdata)]⟩
  · intro hopen hleft i command text hi htext
    obtain ⟨text', htext', hdata⟩ := getElem?_pathItems hitems hi
    obtain rfl : text = text' := Option.some.inj (htext.symm.trans htext')
    rw [Bool.false_or] at hdata
    rw [lead?_data hdata, Option.some_inj]
    cases command with
    | moveTo | rect => exact iff_of_true rfl rfl
    | closePath => exact iff_of_false (by simp [Command.letter]) Bool.false_ne_true
    | lineTo | curveTo =>
        -- there is a current point, since the drawing did not begin with the command
        have hpoint := hasCurrentPoint_take hopen hi rfl
        exact iff_of_false (by simp [Command.letter]) (by simp [Command.beginsSubpath, hpoint])
    | arc =>
        rw [any_leavesPoint (hleft i _ hi rfl)]
        cases hasCurrentPoint (commands.take i) <;> simp [Command.letter, Command.beginsSubpath]

/-- A move, a rectangle and two arcs, of which the first one goes all the way round. -/
def movedFigures : List (Command Float) :=
  [.moveTo ⟨1, 1⟩, .rect ⟨0, 0⟩ 4 4, .closePath, .arc ⟨9, 2⟩ 1 0 7 false, .arc ⟨0, 2⟩ 1 0 3 true]

/-- The move has left a current point before the rectangle does, so both arcs are joined. -/
theorem pathItems_movedFigures :
    (∀ command ∈ movedFigures, command.HasDirections) ∧
      (∀ command ∈ movedFigures.head?, command.canOpen = true) ∧
      (∀ (i : ℕ) (command : Command Float), movedFigures[i]? = some command →
        command.isArc = true → ¬LeftByRectangle (movedFigures.take i)) ∧
      ∃ items, pathItems false movedFigures = .ok items ∧
        (∃ first rest, onCircle (⟨9, 2⟩ : Point Float) 1 0 = .ok first ∧
          items[3]? = some (pathItem "L" [first.x, first.y] ++ rest)) ∧
        ∀ (i : ℕ) (command : Command Float) (text : String), movedFigures[i]? = some command →
          items[i]? = some text →
            (lead? text = some 'M' ↔
              command.beginsSubpath (hasCurrentPoint (movedFigures.take i)) = true) := by
  have hdirections : ∀ command ∈ movedFigures, command.HasDirections := by
    simp only [movedFigures, List.forall_mem_cons]
    refine ⟨.of_no_angle rfl, .of_no_angle rfl, .of_no_angle rfl, ?_, ?_, List.forall_mem_nil _⟩
    · exact .of_finite (by decide +kernel) (by decide +kernel) (by decide +kernel)
    · exact .of_finite (by decide +kernel) (by decide +kernel) (by decide +kernel)
  have hopen : ∀ command ∈ movedFigures.head?, command.canOpen = true := by
    rintro command ⟨⟩
    rfl
  have hleft : ∀ (i : ℕ) (command : Command Float), movedFigures[i]? = some command →
      command.isArc = true → ¬LeftByRectangle (movedFigures.take i) := by
    rintro (_ | i) command hi harc
    · obtain rfl : Command.moveTo ⟨1, 1⟩ = command := Option.some.inj hi
      exact absurd harc Bool.false_ne_true
    · intro hrectangles
      exact absurd (hrectangles.alone (.moveTo ⟨1, 1⟩) List.mem_cons_self rfl) Bool.false_ne_true
  obtain ⟨hreturns, hjoins⟩ := pathItems_joins_arcs movedFigures
  obtain ⟨items, hitems⟩ := hreturns.mpr hdirections
  obtain ⟨-, -, harcs, hsubpaths⟩ := hjoins items hitems
  exact ⟨hdirections, hopen, hleft, items, hitems,
    harcs 3 _ _ _ _ _ rfl (hleft 3 _ rfl rfl), hsubpaths hopen hleft⟩

/-- An arc beside a rectangle. -/
def rectangleAndArc : List (Command Float) :=
  [.rect ⟨0, 0⟩ 4 4, .arc ⟨9, 2⟩ 1 0 3 false]

/-- The corner of a rectangle is the current point, but the arc behind it is not joined. -/
theorem pathItems_leaves_rectangle :
    ∃ items text, pathItems false rectangleAndArc = .ok items ∧ items[1]? = some text ∧
      hasCurrentPoint (rectangleAndArc.take 1) = true ∧ lead? text = some 'M' ∧
      lead? text ≠ some 'L' := by
  have hdirections : ∀ command ∈ rectangleAndArc, command.HasDirections := by
    simp only [rectangleAndArc, List.forall_mem_cons]
    exact ⟨.of_no_angle rfl, .of_finite (by decide +kernel) (by decide +kernel) (by decide +kernel),
      List.forall_mem_nil _⟩
  obtain ⟨items, hitems⟩ := (exists_pathItems_iff _ false).mpr hdirections
  obtain ⟨text, htext, hdata⟩ := getElem?_pathItems hitems (i := 1) rfl
  have hlead : lead? text = some 'M' := lead?_data hdata
  exact ⟨items, text, hitems, htext, rfl, hlead, by rw [hlead]; decide⟩

end MotionScene
