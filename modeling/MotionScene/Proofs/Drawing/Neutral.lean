import MotionScene.Drawing.Figure
import MotionScene.Proofs.Curve.Stretches
import MotionScene.Proofs.Drawing.Reused
import MotionScene.Proofs.Exact
import MotionScene.Proofs.Members

/-!
# Modifiers that change nothing

A trim that keeps the whole path and a repeater that asks for no copy are neutral: a figure with
one of them added is drawn with the very commands that draw it without (`draw_neutral`).  Three
tests decide about this on their own, the one that chooses between a native figure and its
outline, the one that passes over a trim, and the one for the copy at the step zero;
`DrawnAlike` is what they have to agree on.
-/

namespace MotionScene

section Modifiers

open scoped Scalar

variable {R : Type} [Scalar R]

theorem Members.scalarOr_congr {members own : Members R} {key : String}
    (h : own.get? key = members.get? key) (default : R) :
    own.scalarOr key default = members.scalarOr key default := by
  rw [Members.scalarOr, Members.scalarOr, h]

/-! ## Requests drawn alike -/

namespace PathRequest

theorem drawOnce_of_isIdentity {trim : Trim R} (identity : trim.isIdentity = true)
    (rows : PathRows R) (closed : Bool) (repeater : Value R) (drawn : PathRows R) :
    drawOnce ⟨rows, closed, some trim, repeater⟩ drawn =
      drawOnce ⟨rows, closed, none, repeater⟩ drawn := by
  simp only [drawOnce, identity, if_true]

/-- The commands of a path depend on how a copy is drawn, but not on its trim. -/
theorem commands_congr {first second : PathRequest R} (hrows : first.rows = second.rows)
    (hrepeater : first.repeater = second.repeater)
    (honce : ∀ rows, first.drawOnce rows = second.drawOnce rows) :
    first.commands = second.commands := by
  have hcopy : ∀ step, first.copyCommands step = second.copyCommands step := by
    intro step
    simp only [copyCommands, rowsAt, hrows, hrepeater, honce]
  have hcopies : ∀ offset copies number,
      first.copiesCommands offset copies number = second.copiesCommands offset copies number := by
    intro offset copies number
    induction copies generalizing number with
    | zero => rfl
    | succ copies ih => rw [copiesCommands, copiesCommands, hcopy, ih]
  simp only [commands, hrepeater, hcopies]

/-- A repeater that asks for no copy and starts at the step zero leaves the path as it is. -/
theorem commands_of_neutral {request : PathRequest R} {offset : R}
    (hcount : repeatCount request.repeater = .ok 0)
    (hoffset : repeatOffset request.repeater = .ok offset)
    (hzero : ((0 : R) + offset == 0) = true) :
    request.commands = (do Traced.tellAll (← request.drawOnce request.rows)) := by
  have hrows : request.rowsAt (Scalar.ofNat 0 + offset) = .ok request.rows := by
    rw [rowsAt]
    exact if_pos hzero
  rw [commands, hcount, Traced.lift_ok_bind, hoffset, Traced.lift_ok_bind]
  show (request.copyCommands (Scalar.ofNat 0 + offset) >>= fun _ => pure ()) = _
  rw [copyCommands, hrows, Traced.lift_ok_bind]
  exact bind_pure _

end PathRequest

/-! ## Figures drawn alike -/

/-- Draws a path with the modifiers of a shape. -/
def drawModified (shape : Members R) (rows : PathRows R) (closed : Bool) :
    Traced (Command R) Unit := do
  let trim? ← trimOf shape
  drawPath ⟨rows, closed, trim?, shape.get "repeat"⟩

/-- The members of a shape that are no modifiers. -/
def outlineKeys : List String :=
  ["v", "in", "out", "close", "cx", "cy", "rx", "ry", "width", "height", "r"]

/-- Two shapes with one outline whose modifiers are told to do something at the same time, and
do the same to every path. -/
structure DrawnAlike (shape changed : Members R) : Prop where
  outline : ∀ key ∈ outlineKeys, changed.get? key = shape.get? key
  modified : hasModifiers changed = hasModifiers shape
  path : ∀ rows closed, drawModified changed rows closed = drawModified shape rows closed

theorem DrawnAlike.draw {shape changed : Members R} (alike : DrawnAlike shape changed)
    (figure : Figure) : figure.draw (.object changed) = figure.draw (.object shape) := by
  have hget : ∀ key ∈ outlineKeys, changed.get key = shape.get key :=
    fun key hkey => Members.get_congr (alike.outline key hkey)
  have hscalar : ∀ key ∈ outlineKeys, ∀ default : R,
      changed.scalarOr key default = shape.scalarOr key default :=
    fun key hkey => Members.scalarOr_congr (alike.outline key hkey)
  have houtline : drawOutline changed = drawOutline shape :=
    funext fun knots => alike.path (.ofKnots knots) true
  cases figure with
  | path =>
      show drawModified changed _ _ = drawModified shape _ _
      rw [alike.path]
      dsimp only
      rw [hget "v" (by decide), hget "in" (by decide), hget "out" (by decide),
        hget "close" (by decide)]
  | ellipse =>
      show drawEllipse changed = drawEllipse shape
      rw [drawEllipse, drawEllipse, hscalar "cx" (by decide), hscalar "cy" (by decide),
        hscalar "rx" (by decide), hscalar "ry" (by decide), alike.modified, houtline]
  | rect =>
      show drawRect changed = drawRect shape
      rw [drawRect, drawRect, hscalar "cx" (by decide), hscalar "cy" (by decide),
        hscalar "width" (by decide), hscalar "height" (by decide), hscalar "r" (by decide),
        alike.modified, houtline]

/-! ## Trims -/

/-- A trim that keeps the whole path: the lesser of its ends is not above 0, the greater one not
below 1, and it is moved on by whole turns. -/
structure Trim.IsNeutral (trim : Trim R) : Prop where
  lesser : (Scalar.inOrder trim.start trim.stop).1 ≤ 0
  greater : 1 ≤ (Scalar.inOrder trim.start trim.stop).2
  turns : (Scalar.fraction trim.offset == 0) = true

theorem Trim.IsNeutral.isIdentity {trim : Trim R} (neutral : trim.IsNeutral) :
    trim.isIdentity = true := by
  rw [Trim.isIdentity, Bool.and_eq_true, Bool.and_eq_true, decide_eq_true_iff, decide_eq_true_iff]
  exact ⟨⟨neutral.lesser, neutral.greater⟩, neutral.turns⟩

def trimKeys : List String := ["trimStart", "trimEnd", "trimOffset"]

/-- A shape without a trim, and the same with one. -/
structure AddsTrim (shape changed : Members R) (trim : Trim R) : Prop where
  plain : ∀ key ∈ trimKeys, shape.get? key = none
  same : ∀ key, key ∉ trimKeys → changed.get? key = shape.get? key
  read : trimOf changed = .ok (some trim)

theorem trimOf_of_plain {shape : Members R} (plain : ∀ key ∈ trimKeys, shape.get? key = none) :
    trimOf shape = .ok none := by
  rw [trimOf, if_neg]
  rw [List.any_eq_true]
  rintro ⟨key, hkey, hhas⟩
  rw [Members.has, plain key hkey] at hhas
  cases hhas

theorem AddsTrim.drawnAlike {shape changed : Members R} {trim : Trim R}
    (adds : AddsTrim shape changed trim) (neutral : trim.IsNeutral) :
    DrawnAlike shape changed := by
  have hrepeat : changed.get "repeat" = shape.get "repeat" :=
    Members.get_congr (adds.same "repeat" (by decide))
  have hplain := trimOf_of_plain adds.plain
  refine ⟨fun key hkey => adds.same key fun htrim => ?_, ?_, fun rows closed => ?_⟩
  · have hapart : ∀ key ∈ outlineKeys, key ∉ trimKeys := by decide
    exact hapart key hkey htrim
  · rw [hasModifiers, hasModifiers, adds.read, hplain, ok_bind, ok_bind]
    dsimp only
    rw [if_pos neutral.isIdentity, hrepeat]
  · rw [drawModified, drawModified, adds.read, hplain, Traced.lift_ok_bind, Traced.lift_ok_bind,
      drawPath, drawPath, commands_draw, commands_draw, hrepeat]
    exact PathRequest.commands_congr rfl rfl
      (PathRequest.drawOnce_of_isIdentity neutral.isIdentity _ _ _)

/-! ## Repeaters -/

/-- Scalars among which zero equals itself, and zero and what equals it add up to zero. -/
class LawfulZero (R : Type) [Scalar R] : Prop where
  zero_beq : ((0 : R) == 0) = true
  zero_add_beq : ∀ x : R, (x == 0) = true → ((0 : R) + x == 0) = true

/-- A repeater, or any other value, that asks for no copy and starts at the step zero. -/
structure NeutralRepeater (repeater : Value R) (offset : R) : Prop where
  copies : repeatCount repeater = .ok 0
  start : repeatOffset repeater = .ok offset
  zero : (offset == 0) = true

namespace NeutralRepeater

variable {repeater other : Value R} {offset offset' : R}

theorem null [LawfulZero R] : NeutralRepeater (.null : Value R) 0 := ⟨rfl, rfl, LawfulZero.zero_beq⟩

theorem repeats (neutral : NeutralRepeater repeater offset) :
    MotionScene.repeats repeater = .ok false := by
  rw [MotionScene.repeats, neutral.copies, ok_bind, if_neg (lt_irrefl 0), neutral.start, ok_bind,
    neutral.zero]
  rfl

/-- Which of the neutral repeaters a path has does not show. -/
theorem drawPath_eq [LawfulZero R] (neutral : NeutralRepeater repeater offset)
    (neutral' : NeutralRepeater other offset') (rows : PathRows R) (closed : Bool)
    (trim? : Option (Trim R)) :
    drawPath ⟨rows, closed, trim?, repeater⟩ = drawPath ⟨rows, closed, trim?, other⟩ := by
  rw [drawPath, drawPath, commands_draw, commands_draw,
    PathRequest.commands_of_neutral neutral.copies neutral.start
      (LawfulZero.zero_add_beq _ neutral.zero),
    PathRequest.commands_of_neutral neutral'.copies neutral'.start
      (LawfulZero.zero_add_beq _ neutral'.zero)]
  rfl

end NeutralRepeater

/-- A shape without a repeater, and the same with one that asks for a number of copies from an
offset on. -/
structure AddsRepeater (shape changed repeater : Members R) (count : ℤ) (offset : R) : Prop where
  plain : shape.get? "repeat" = none
  same : ∀ key, key ≠ "repeat" → changed.get? key = shape.get? key
  added : changed.get? "repeat" = some (.object repeater)
  count : ((repeater.get? "count").getD (.num (.whole 0))).count = .ok count
  offset : repeater.scalarOr "offset" 0 = .ok offset

theorem trimOf_congr {shape changed : Members R}
    (same : ∀ key ∈ trimKeys, changed.get? key = shape.get? key) :
    trimOf changed = trimOf shape := by
  have hscalar : ∀ key ∈ trimKeys, ∀ default : R,
      changed.scalarOr key default = shape.scalarOr key default :=
    fun key hkey => Members.scalarOr_congr (same key hkey)
  have hany : trimKeys.any changed.has = trimKeys.any shape.has := by
    simp only [trimKeys, List.any_cons, List.any_nil, Members.has, same "trimStart" (by decide),
      same "trimEnd" (by decide), same "trimOffset" (by decide)]
  show (if trimKeys.any changed.has then _ else _) = if trimKeys.any shape.has then _ else _
  rw [hany, hscalar "trimStart" (by decide), hscalar "trimEnd" (by decide),
    hscalar "trimOffset" (by decide)]

namespace AddsRepeater

variable {shape changed repeater : Members R} {count : ℤ} {offset : R}
  (adds : AddsRepeater shape changed repeater count offset)

include adds

theorem neutral (hcount : count ≤ 0) (hoffset : (offset == 0) = true) :
    NeutralRepeater (changed.get "repeat") offset where
  copies := by
    rw [Members.get, adds.added, Option.getD_some, repeatCount, adds.count]
    exact congrArg Except.ok (Int.toNat_of_nonpos hcount)
  start := by
    rw [Members.get, adds.added, Option.getD_some, repeatOffset, adds.offset]
    rfl
  zero := hoffset

theorem drawnAlike [LawfulZero R] (hcount : count ≤ 0) (hoffset : (offset == 0) = true) :
    DrawnAlike shape changed := by
  have hchanged := adds.neutral hcount hoffset
  have hshape : NeutralRepeater (shape.get "repeat") 0 := by
    rw [Members.get, adds.plain]
    exact .null
  have hsame : ∀ keys : List String, "repeat" ∉ keys → ∀ key ∈ keys,
      changed.get? key = shape.get? key :=
    fun keys hkeys key hkey => adds.same key fun h => hkeys (h ▸ hkey)
  have htrim : trimOf changed = trimOf shape := trimOf_congr (hsame trimKeys (by decide))
  refine ⟨hsame outlineKeys (by decide), ?_, fun rows closed => ?_⟩
  · rw [hasModifiers, hasModifiers, htrim, hchanged.repeats, hshape.repeats]
  · rw [drawModified, drawModified, htrim]
    exact congrArg (liftM (trimOf shape) >>= ·) (funext fun trim? =>
      hchanged.drawPath_eq hshape rows closed trim?)

end AddsRepeater

/-- **Neutral modifiers do not change the drawing.**  A path, an ellipse or a rectangle is drawn
as before when a trim that keeps the whole path is added to a shape without one, whether or not
it has a repeater; and when a repeater that asks for no copy and starts at the step zero is
added to a shape without one, whether or not it has a trim. -/
theorem draw_neutral [LawfulZero R] (figure : Figure) (shape changed : Members R) :
    (∀ trim, AddsTrim shape changed trim → trim.IsNeutral →
      figure.draw (.object changed) = figure.draw (.object shape)) ∧
    (∀ repeater count offset, AddsRepeater shape changed repeater count offset → count ≤ 0 →
      (offset == 0) = true → figure.draw (.object changed) = figure.draw (.object shape)) :=
  ⟨fun _ adds neutral => (adds.drawnAlike neutral).draw figure,
    fun _ _ _ adds hcount hoffset => (adds.drawnAlike hcount hoffset).draw figure⟩

end Modifiers

/-! ## Floating-point numbers -/

open Float.Model (Format UnpackedFloat)

/-- What equals zero is a zero of either sign. -/
theorem exists_zero_of_beq {x : Float} (h : (x == Scalar.ofNat 0) = true) :
    ∃ sign, x.toModel.unpack = .zero sign := by
  replace h : (x.toModel.unpack.compare (.zero .positive) == some .eq) = true := h
  cases hx : x.toModel.unpack with
  | zero sign => exact ⟨sign, rfl⟩
  | notANumber =>
      rw [hx] at h
      cases h
  | infinity sign =>
      rw [hx] at h
      cases sign <;> cases h
  | finite sign m e hm =>
      rw [hx] at h
      cases sign <;> cases h

instance : LawfulZero Float where
  zero_beq := by decide +kernel
  zero_add_beq x h := by
    obtain ⟨sign, hsign⟩ := exists_zero_of_beq h
    show (Float.Model.pack (UnpackedFloat.add Format.binary64 (.zero .positive) x.toModel.unpack) ==
      (Scalar.ofNat 0 : Float).toModel) = true
    rw [hsign]
    cases sign <;> decide +kernel

/-! ## Exact numbers -/

instance : LawfulZero ℝ where
  zero_beq := by rw [beq_zero, scalar_zero]; exact decide_eq_true rfl
  zero_add_beq x h := by
    rw [beq_zero, decide_eq_true_iff] at h ⊢
    rw [scalar_zero, h, add_zero]

theorem Trim.isNeutral_iff (trim : Trim ℝ) :
    trim.IsNeutral ↔ min trim.start trim.stop ≤ 0 ∧ 1 ≤ max trim.start trim.stop ∧
      ∃ turns : ℤ, trim.offset = turns := by
  have hturns : (Scalar.fraction trim.offset == (Scalar.literal 0 : OfNat ℝ 0).ofNat) = true ↔
      ∃ turns : ℤ, trim.offset = turns := by
    have hfraction : Scalar.fraction trim.offset = Int.fract trim.offset := rfl
    rw [beq_zero, decide_eq_true_iff, hfraction, Int.fract_eq_zero_iff, Set.mem_range]
    exact exists_congr fun _ => eq_comm
  constructor
  · rintro ⟨hlesser, hgreater, hoffset⟩
    rw [inOrder_eq, scalar_zero] at hlesser
    rw [inOrder_eq, scalar_literal, Nat.cast_one] at hgreater
    exact ⟨hlesser, hgreater, hturns.mp hoffset⟩
  · rintro ⟨hlesser, hgreater, hoffset⟩
    refine ⟨?_, ?_, hturns.mpr hoffset⟩
    · rw [inOrder_eq, scalar_zero]
      exact hlesser
    · rw [inOrder_eq, scalar_literal, Nat.cast_one]
      exact hgreater

/-- A number of copies that is not above zero is read as a whole one that is not. -/
theorem exists_count_of_nonpos {value : Value ℝ} {n : Number ℝ} (hnumber : value.quantity? = some n)
    (hn : n.value ≤ 0) : ∃ count ≤ 0, value.count = .ok count := by
  have hcount : value.count = n.truncate := by
    unfold Value.count
    rw [hnumber]
  cases n with
  | whole n => exact ⟨n, Int.cast_nonpos.mp hn, hcount⟩
  | real x =>
      refine ⟨Scalar.truncate x, ?_, hcount⟩
      rw [truncate_eq]
      split
      · exact Int.ceil_nonpos.mpr hn
      · exact Int.cast_nonpos.mp ((Int.floor_le x).trans hn)

/-! ## A rectangle with neutral modifiers -/

/-- A rectangle that is drawn by the command for it. -/
def plainRectangle : Members ℝ :=
  [("width", .num (.whole 4)), ("height", .num (.whole 2))]

/-- The rectangle with a trim from its end to its start, and back by three whole turns. -/
def trimmedRectangle : Members ℝ :=
  ((plainRectangle.set "trimStart" (.num (.whole 1))).set "trimEnd" (.num (.whole 0))).set
    "trimOffset" (.num (.whole (-3)))

/-- A repeater that asks for less than no copy. -/
noncomputable def lessThanNoCopy : Members ℝ :=
  [("count", .num (.real (((-5 : ℤ) : ℝ) / ((2 : ℤ) : ℝ)))), ("offset", .num (.whole 0))]

theorem draw_neutral_rectangle :
    Figure.rect.draw (.object trimmedRectangle) = Figure.rect.draw (.object plainRectangle) ∧
      Figure.rect.draw (.object (plainRectangle.set "repeat" (.object lessThanNoCopy))) =
        Figure.rect.draw (.object plainRectangle) := by
  obtain ⟨htrim, -⟩ := draw_neutral .rect plainRectangle trimmedRectangle
  obtain ⟨-, hrepeat⟩ :=
    draw_neutral .rect plainRectangle (plainRectangle.set "repeat" (.object lessThanNoCopy))
  obtain ⟨count, hcount, hread⟩ : ∃ count ≤ 0,
      (Value.num (.real (((-5 : ℤ) : ℝ) / ((2 : ℤ) : ℝ))) : Value ℝ).count = .ok count :=
    exists_count_of_nonpos rfl (by rw [Number.value_real]; norm_num)
  refine ⟨htrim ⟨(1 : ℤ), (0 : ℤ), (-3 : ℤ)⟩ ?_ ?_,
    hrepeat lessThanNoCopy count (0 : ℤ) ?_ hcount ?_⟩
  · have hne : ∀ other ∈ trimKeys, ∀ key ∉ trimKeys, other ≠ key :=
      fun other hother key hkey h => hkey (h ▸ hother)
    refine ⟨by decide, fun key hkey => ?_, rfl⟩
    rw [trimmedRectangle, Members.get?_set_of_ne _ _ (hne _ (by decide) key hkey),
      Members.get?_set_of_ne _ _ (hne _ (by decide) key hkey),
      Members.get?_set_of_ne _ _ (hne _ (by decide) key hkey)]
  · rw [Trim.isNeutral_iff]
    exact ⟨by simp, by simp, -3, rfl⟩
  · exact ⟨rfl, fun key hkey => Members.get?_set_of_ne _ _ hkey.symm, rfl, hread, rfl⟩
  · rw [beq_zero]
    exact decide_eq_true Int.cast_zero

end MotionScene
