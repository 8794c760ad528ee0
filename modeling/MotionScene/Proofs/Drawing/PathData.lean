import MotionScene.Drawing.PathData
import MotionScene.Proofs.Binary64
import MotionScene.Proofs.Text.Compact

/-!
# Path data read back

Without arcs, path data is a row of words, each a letter or a number, with a blank between
one and the next.  The letter tells which numbers follow it, and a subpath that begins with
a horizontal line is a rectangle, since no other command has one.  So the words can be read
in one way only (`Spells.unique`), and what is read are the commands with their numbers rounded
to millionths (`pathData_reads_back`).
-/

namespace MotionScene

open Text

/-! ## Commands and their numbers -/

/-- A point with another number in the place of each of its own. -/
def Point.map {R S : Type} (f : R → S) (p : Point R) : Point S :=
  ⟨f p.x, f p.y⟩

namespace Command

variable {R S : Type}

/-- A command with another number in the place of each of its own. -/
def map (f : R → S) : Command R → Command S
  | moveTo target => moveTo (target.map f)
  | lineTo target => lineTo (target.map f)
  | curveTo first second target => curveTo (first.map f) (second.map f) (target.map f)
  | arc center radius start stop anticlockwise =>
    arc (center.map f) (f radius) (f start) (f stop) anticlockwise
  | closePath => closePath
  | rect corner width height => rect (corner.map f) (f width) (f height)

/-- The numbers of a command, in the order in which they are written. -/
def numbers : Command R → List R
  | moveTo target => [target.x, target.y]
  | lineTo target => [target.x, target.y]
  | curveTo first second target => [first.x, first.y, second.x, second.y, target.x, target.y]
  | arc center radius start stop _ => [center.x, center.y, radius, start, stop]
  | closePath => []
  | rect corner width height => [corner.x, corner.y, width, height]

def isArc : Command R → Bool
  | arc .. => true
  | _ => false

/-- A command that is no arc and has finite numbers. -/
structure IsPlain [Scalar R] (command : Command R) : Prop where
  no_arc : command.isArc = false
  finite : ∀ x ∈ command.numbers, Scalar.special? x = none

end Command

/-- The multiple of a millionth that is nearest to a number, ties to even. -/
noncomputable def millionth (x : Float) : ℝ :=
  nearestInt (Binary64.exact x * (10 ^ 6 : ℕ)) / (10 ^ 6 : ℕ)

/-! ## Words -/

/-- The words of a text, which blanks separate. -/
def words (text : String) : List (List Char) :=
  (text.toList.splitOn ' ').filter fun word => !word.isEmpty

theorem words_append (text later : String) :
    words (text ++ " " ++ later) = words text ++ words later := by
  have hlist : (text ++ " " ++ later).toList = text.toList ++ ' ' :: later.toList := by
    rw [String.toList_append, String.toList_append, List.append_assoc]
    rfl
  rw [words, hlist, List.splitOn_append_cons_self, List.filter_append]
  rfl

theorem words_ofList {word : List Char} (hne : word ≠ []) (h : ' ' ∉ word) :
    words (String.ofList word) = [word] := by
  rw [words, String.toList_ofList, List.splitOn_eq_singleton h, List.filter_cons_of_pos]
  · rfl
  · simpa using hne

theorem words_intercalate (items : List String) :
    words (" ".intercalate items) = items.flatMap words := by
  induction items with
  | nil => decide
  | cons item items ih =>
      cases items with
      | nil => simp [String.intercalate_singleton]
      | cons next items =>
          rw [String.intercalate_cons_cons, words_append, ih]
          rfl

/-- The word that a finite number is written as. -/
def coordinate (x : Float) : List Char :=
  unitsText compactPlaces (Scalar.decimalUnits compactPlaces x)

theorem real?_coordinate (x : Float) : real? (coordinate x) = some (millionth x) := by
  rw [coordinate, real?_unitsText]
  show some ((Binary64.decimalUnits 6 x : ℝ) / 10 ^ 6) = _
  rw [Binary64.decimalUnits_eq, millionth, Nat.cast_pow, Nat.cast_ofNat]

theorem words_compact {x : Float} (h : Scalar.special? x = none) :
    words (compact x) = [coordinate x] := by
  rw [compact_eq h]
  refine words_ofList (unitsText_ne_nil _ _) fun hmem => ?_
  rcases mem_unitsText hmem with hdigit | hsign | hpoint
  · exact absurd hdigit (by decide)
  · exact absurd hsign (by decide)
  · exact absurd hpoint (by decide)

theorem flatMap_words_compact {values : List Float} (h : ∀ x ∈ values, Scalar.special? x = none) :
    (values.map compact).flatMap words = values.map coordinate := by
  induction values with
  | nil => rfl
  | cons x values ih =>
      rw [List.forall_mem_cons] at h
      rw [List.map_cons, List.flatMap_cons, words_compact h.1, ih h.2]
      rfl

theorem words_pathItem {letter : String} {c : Char} (hletter : words letter = [[c]])
    {values : List Float} (h : ∀ x ∈ values, Scalar.special? x = none) :
    words (pathItem letter values) = [c] :: values.map coordinate := by
  rw [pathItem, words_append, words_intercalate, hletter, flatMap_words_compact h]
  rfl

/-! ## Reading -/

/-- Words that name a point. -/
structure NamesPoint (x y : List Char) (p : Point ℝ) : Prop where
  horizontal : real? x = some p.x
  vertical : real? y = some p.y

theorem NamesPoint.unique {x y : List Char} {p q : Point ℝ} (hp : NamesPoint x y p)
    (hq : NamesPoint x y q) : p = q := by
  cases p
  cases q
  congr 1
  · exact Option.some.inj (hp.horizontal.symm.trans hq.horizontal)
  · exact Option.some.inj (hp.vertical.symm.trans hq.vertical)

/-- What words of path data say.  A rectangle goes along its width and its height, back
along its width, and is closed. -/
inductive Spells : List (List Char) → List (Command ℝ) → Prop
  | nil : Spells [] []
  | moveTo {x y : List Char} {target : Point ℝ} {rest : List (List Char)}
      {commands : List (Command ℝ)} :
    NamesPoint x y target → Spells rest commands →
      Spells (['M'] :: x :: y :: rest) (.moveTo target :: commands)
  | lineTo {x y : List Char} {target : Point ℝ} {rest : List (List Char)}
      {commands : List (Command ℝ)} :
    NamesPoint x y target → Spells rest commands →
      Spells (['L'] :: x :: y :: rest) (.lineTo target :: commands)
  | curveTo {a b c d x y : List Char} {first second target : Point ℝ}
      {rest : List (List Char)} {commands : List (Command ℝ)} :
    NamesPoint a b first → NamesPoint c d second → NamesPoint x y target →
      Spells rest commands →
      Spells (['C'] :: a :: b :: c :: d :: x :: y :: rest)
        (.curveTo first second target :: commands)
  | closePath {rest : List (List Char)} {commands : List (Command ℝ)} :
    Spells rest commands → Spells (['Z'] :: rest) (.closePath :: commands)
  | rect {x y across down back : List Char} {corner : Point ℝ} {width height : ℝ}
      {rest : List (List Char)} {commands : List (Command ℝ)} :
    NamesPoint x y corner → real? across = some width → real? down = some height →
      real? back = some (-width) → Spells rest commands →
      Spells (['M'] :: x :: y :: ['h'] :: across :: ['v'] :: down :: ['h'] :: back :: ['Z'] :: rest)
        (.rect corner width height :: commands)

/-- Words can be read in one way only. -/
theorem Spells.unique {text : List (List Char)} {commands others : List (Command ℝ)}
    (h : Spells text commands) (hothers : Spells text others) : commands = others := by
  -- the first word tells the command, except that a move and a rectangle begin alike; what
  -- follows a move begins with no horizontal line
  induction h generalizing others with
  | nil => cases hothers; rfl
  | moveTo htarget hlater ih =>
      cases hothers with
      | moveTo htarget' hlater' => rw [htarget.unique htarget', ih hlater']
      | rect => cases hlater
  | lineTo htarget _ ih =>
      cases hothers with
      | lineTo htarget' hlater' => rw [htarget.unique htarget', ih hlater']
  | curveTo hfirst hsecond htarget _ ih =>
      cases hothers with
      | curveTo hfirst' hsecond' htarget' hlater' =>
        rw [hfirst.unique hfirst', hsecond.unique hsecond', htarget.unique htarget', ih hlater']
  | closePath _ ih =>
      cases hothers with
      | closePath hlater' => rw [ih hlater']
  | rect hcorner hwidth hheight _ _ ih =>
      cases hothers with
      | moveTo _ hlater' => cases hlater'
      | rect hcorner' hwidth' hheight' _ hlater' =>
        rw [hcorner.unique hcorner', Option.some.inj (hwidth.symm.trans hwidth'),
          Option.some.inj (hheight.symm.trans hheight'), ih hlater']

theorem namesPoint_coordinate (p : Point Float) :
    NamesPoint (coordinate p.x) (coordinate p.y) (p.map millionth) :=
  ⟨real?_coordinate p.x, real?_coordinate p.y⟩

theorem millionth_neg {x : Float} (h : Scalar.special? x = none) :
    millionth (-x) = -millionth x := by
  rw [millionth, Binary64.exact_neg h, neg_mul, nearestInt_neg, Int.cast_neg, neg_div, millionth]

/-- The words of a command say the command, before whatever else is said. -/
theorem Command.IsPlain.spells {command : Command Float} (h : command.IsPlain) (joined : Bool) :
    ∃ text, command.data joined = .ok text ∧ ∀ {rest : List (List Char)}
      {commands : List (Command ℝ)}, Spells rest commands →
        Spells (words text ++ rest) (command.map millionth :: commands) := by
  cases command with
  | moveTo target =>
      have htext : words (pathItem "M" [target.x, target.y]) = _ :=
        words_pathItem (by decide : words "M" = [['M']]) h.finite
      exact ⟨_, rfl, fun later => htext ▸ .moveTo (namesPoint_coordinate target) later⟩
  | lineTo target =>
      have htext : words (pathItem "L" [target.x, target.y]) = _ :=
        words_pathItem (by decide : words "L" = [['L']]) h.finite
      exact ⟨_, rfl, fun later => htext ▸ .lineTo (namesPoint_coordinate target) later⟩
  | curveTo first second target =>
      have htext : words (pathItem "C" [first.x, first.y, second.x, second.y, target.x, target.y]) =
        _ := words_pathItem (by decide : words "C" = [['C']]) h.finite
      exact ⟨_, rfl, fun later => htext ▸ .curveTo (namesPoint_coordinate first)
        (namesPoint_coordinate second) (namesPoint_coordinate target) later⟩
  | arc => exact absurd h.no_arc (by simp [isArc])
  | closePath =>
      have htext : words "Z" = [['Z']] := by decide
      exact ⟨"Z", rfl, fun later => htext ▸ .closePath later⟩
  | rect corner width height =>
      obtain ⟨hx, hy, hwidth, hheight⟩ : Scalar.special? corner.x = none ∧
          Scalar.special? corner.y = none ∧ Scalar.special? width = none ∧
          Scalar.special? height = none := by
        simpa [numbers] using h.finite
      have hback : real? (coordinate (-width)) = some (-millionth width) := by
        rw [real?_coordinate, millionth_neg hwidth]
      refine ⟨_, rfl, fun later => ?_⟩
      rw [show (" Z" : String) = " " ++ "Z" from rfl, ← String.append_assoc]
      simp only [words_append]
      rw [words_pathItem (by decide : words "M" = [['M']])
          (List.forall_mem_cons.mpr ⟨hx, List.forall_mem_singleton.mpr hy⟩),
        words_pathItem (by decide : words "h" = [['h']]) (List.forall_mem_singleton.mpr hwidth),
        words_pathItem (by decide : words "v" = [['v']]) (List.forall_mem_singleton.mpr hheight),
        words_pathItem (by decide : words "h" = [['h']])
          (List.forall_mem_singleton.mpr (Binary64.special?_neg hwidth)),
        (by decide : words "Z" = [['Z']])]
      exact .rect (namesPoint_coordinate corner) (real?_coordinate width)
        (real?_coordinate height) hback later

theorem pathItems_spells {commands : List (Command Float)}
    (h : ∀ command ∈ commands, command.IsPlain) (joined : Bool) :
    ∃ items, pathItems joined commands = .ok items ∧
      Spells (items.flatMap words) (commands.map (Command.map millionth)) := by
  induction commands generalizing joined with
  | nil => exact ⟨[], rfl, .nil⟩
  | cons command commands ih =>
      rw [List.forall_mem_cons] at h
      obtain ⟨text, htext, hspells⟩ := h.1.spells joined
      obtain ⟨items, hitems, hlater⟩ := ih h.2 (joined || command.leavesPoint)
      exact ⟨text :: items, by rw [pathItems, htext, hitems]; rfl, hspells hlater⟩

/-- **Path data can be read back.**  The path data of commands without arcs and with finite
numbers says the commands with their numbers rounded to millionths, and nothing else; so commands
with the same path data are the same up to that rounding. -/
theorem pathData_reads_back (commands : List (Command Float))
    (h : ∀ command ∈ commands, command.IsPlain) :
    ∃ text, pathData commands = .ok text ∧
      (∀ decoded, Spells (words text) decoded ↔ decoded = commands.map (Command.map millionth)) ∧
      ∀ others : List (Command Float), (∀ command ∈ others, command.IsPlain) →
        pathData others = .ok text →
          others.map (Command.map millionth) = commands.map (Command.map millionth) := by
  obtain ⟨items, hitems, hspells⟩ := pathItems_spells h false
  have htext : pathData commands = .ok (" ".intercalate items) := by rw [pathData, hitems]; rfl
  rw [← words_intercalate] at hspells
  refine ⟨_, htext, fun decoded => ⟨fun hdecoded => hdecoded.unique hspells, ?_⟩, ?_⟩
  · rintro rfl
    exact hspells
  · intro others hothers hsame
    obtain ⟨items', hitems', hspells'⟩ := pathItems_spells hothers false
    rw [pathData, hitems'] at hsame
    rw [← words_intercalate, Except.ok.inj hsame] at hspells'
    exact hspells'.unique hspells

/-- A move is followed by a rectangle, whose path data begins with a move of its own. -/
def movedRect : List (Command Float) :=
  [.moveTo ⟨0.25, -0.0⟩, .rect ⟨1, -2.5⟩ 3 4, .closePath]

/-- The rectangle is read as one, and not as a second move and lines. -/
theorem pathData_movedRect_reads_back :
    (∀ command ∈ movedRect, command.IsPlain) ∧
      ∃ text, pathData movedRect = .ok text ∧
        (∀ decoded, Spells (words text) decoded ↔
          decoded = movedRect.map (Command.map millionth)) ∧
        ∀ others : List (Command Float), (∀ command ∈ others, command.IsPlain) →
          pathData others = .ok text →
            others.map (Command.map millionth) = movedRect.map (Command.map millionth) := by
  have hplain : ∀ command ∈ movedRect, command.IsPlain := by
    simp only [movedRect, List.forall_mem_cons]
    exact ⟨⟨rfl, by decide⟩, ⟨rfl, by decide⟩, ⟨rfl, by decide⟩, List.forall_mem_nil _⟩
  exact ⟨hplain, pathData_reads_back movedRect hplain⟩

example : (pathData movedRect).toOption = some "M 0.25 0 M 1 -2.5 h 3 v 4 h -3 Z Z" := by
  decide +kernel

end MotionScene
