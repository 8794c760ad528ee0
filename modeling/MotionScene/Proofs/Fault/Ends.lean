import MotionScene.Clock
import MotionScene.Proofs.Outcome
import MotionScene.Text.Compact

/-!
# How computations end

A computation ends as it may if it returns something good or fails with an admitted fault
(`Ends`).  Each step of a computation is judged by itself (`Ends.bind`), so what a whole
compilation fails with is read off its steps.

The steps that calculate fail where a number has no scalar, where a scalar is no ordinary
number, and where a divisor is zero.  None of this happens in arithmetic that is
`Unlimited`; elsewhere these faults are admitted (`AdmitsArithmetic`).
-/

namespace MotionScene

open scoped Scalar

/-- A computation returns something good or fails with an admitted fault. -/
def Ends {α : Type} (admitted : Fault → Prop) (good : α → Prop) : Except Fault α → Prop
  | .ok a => good a
  | .error fault => admitted fault

/-- A computation fails with admitted faults only. -/
abbrev FailsOnly {α : Type} (admitted : Fault → Prop) (x : Except Fault α) : Prop :=
  Ends admitted (fun _ => True) x

namespace Ends

variable {α β : Type} {admitted : Fault → Prop} {good : α → Prop} {x : Except Fault α}

theorem imp {better : α → Prop} (ends : Ends admitted good x)
    (h : ∀ a, x = .ok a → good a → better a) : Ends admitted better x := by
  cases x with
  | ok a => exact h a rfl ends
  | error fault => exact ends

theorem failsOnly (ends : Ends admitted good x) : FailsOnly admitted x :=
  ends.imp fun _ _ _ => trivial

theorem of_eq_error {fault : Fault} (ends : Ends admitted good x) (h : x = .error fault) :
    admitted fault := by
  subst h
  exact ends

/-- Two steps in a row, where the second may count on what the first returned. -/
theorem bind {next : α → Except Fault β} {last : β → Prop} (ends : Ends admitted good x)
    (h : ∀ a, x = .ok a → good a → Ends admitted last (next a)) :
    Ends admitted last (x >>= next) := by
  cases x with
  | ok a => exact h a rfl ends
  | error fault => exact ends

theorem map {f : α → β} {last : β → Prop} (ends : Ends admitted good x)
    (h : ∀ a, good a → last (f a)) : Ends admitted last (x.map f) := by
  cases x with
  | ok a => exact h a ends
  | error fault => exact ends

theorem mapM {f : α → Except Fault β} {last : β → Prop} {xs : List α}
    (h : ∀ x ∈ xs, Ends admitted last (f x)) :
    Ends admitted (fun ys => ∀ y ∈ ys, last y) (xs.mapM f) := by
  induction xs with
  | nil => exact fun _ hy => nomatch hy
  | cons first rest ih =>
      rw [List.mapM_cons]
      refine (h first List.mem_cons_self).bind fun y _ hy => ?_
      refine (ih fun x hx => h x (List.mem_cons_of_mem _ hx)).bind fun ys _ hys => ?_
      exact List.forall_mem_cons.mpr ⟨hy, hys⟩

theorem foldlM {f : β → α → Except Fault β} {kept : β → Prop} {xs : List α} {start : β}
    (hstart : kept start) (step : ∀ before, ∀ x ∈ xs, kept before → Ends admitted kept (f before x)) :
    Ends admitted kept (xs.foldlM f start) := by
  induction xs generalizing start with
  | nil => exact hstart
  | cons x xs ih =>
      rw [List.foldlM_cons]
      refine (step start x List.mem_cons_self hstart).bind fun middle _ hmiddle => ?_
      exact ih hmiddle fun before y hy => step before y (List.mem_cons_of_mem x hy)

/-- Two steps in a row that leave notices. -/
theorem report {ε : Type} {x : Traced ε α} {next : α → Traced ε β} {last : β → Prop}
    (ends : Ends admitted good x.outcome)
    (h : ∀ a, x.outcome = .ok a → good a → Ends admitted last (next a).outcome) :
    Ends admitted last (x >>= next).outcome := by
  obtain ⟨trace, outcome⟩ := x
  cases outcome with
  | ok a => exact h a rfl ends
  | error fault => exact ends

theorem tell {ε : Type} {event : ε} {next : Unit → Traced ε β} {last : β → Prop}
    (ends : Ends admitted last (next ()).outcome) :
    Ends admitted last (Traced.tell event >>= next).outcome :=
  ends

end Ends

theorem FailsOnly.mapM {α β : Type} {admitted : Fault → Prop} {f : α → Except Fault β}
    {xs : List α} (h : ∀ x ∈ xs, FailsOnly admitted (f x)) : FailsOnly admitted (xs.mapM f) :=
  (Ends.mapM h).failsOnly

/-! ## Arithmetic -/

/-- A fault of arithmetic: a number is too large, has no meaning, or divides by zero. -/
def Fault.isArithmetic : Fault → Bool
  | .noMeaning | .tooLarge | .divisionByZero => true
  | _ => false

/-- Arithmetic without limits: every number has a scalar, every scalar is an ordinary
number, and nothing but zero is equal to zero. -/
structure Unlimited (R : Type) [Scalar R] : Prop where
  ordinary : ∀ x : R, Scalar.special? x = none
  whole : ∀ n : Int, ∃ x : R, Scalar.ofInt? n = some x ∧ (n ≠ 0 → (x == 0) = false)
  quotient : ∀ m n : Int, n ≠ 0 → ∃ x : R, Scalar.quotient? m n = some x
  literal : ∀ n : Nat, n ≠ 0 → ((Scalar.ofNat n : R) == 0) = false
  zero : ∀ x : R, (x == 0) = true → Scalar.floor x = 0 ∧ Scalar.floor (-x) = 0

/-- Where arithmetic has limits, the faults that come from them are admitted. -/
def AdmitsArithmetic (R : Type) [Scalar R] (admitted : Fault → Prop) : Prop :=
  ∀ fault : Fault, fault.isArithmetic = true → ¬Unlimited R → admitted fault

section Arithmetic

variable {R : Type} [Scalar R] {admitted : Fault → Prop}
  (arithmetic : AdmitsArithmetic R admitted)

include arithmetic

theorem ends_of_unlimited {α : Type} {x : Except Fault α} (h : Unlimited R → ∃ a, x = .ok a)
    (hfault : ∀ fault, x = .error fault → fault.isArithmetic = true) :
    FailsOnly admitted x := by
  cases x with
  | ok a => trivial
  | error fault =>
      refine arithmetic fault (hfault fault rfl) fun unlimited => ?_
      obtain ⟨a, ha⟩ := h unlimited
      cases ha

namespace Number

theorem ends_toReal (n : Number R) :
    Ends admitted (fun x => Unlimited R → n.isZero = false → (x == 0) = false) n.toReal := by
  cases n with
  | real x => exact fun _ h => h
  | whole n =>
      refine (ends_of_unlimited arithmetic (fun unlimited => ?_) fun fault h => ?_).imp ?_
      · obtain ⟨x, hx, -⟩ := unlimited.whole n
        exact ⟨x, by rw [toReal, hx]⟩
      · rw [toReal] at h
        split at h <;> cases h
        rfl
      · intro y hy _ unlimited hzero
        obtain ⟨x, hx, hne⟩ := unlimited.whole n
        rw [toReal, hx] at hy
        cases hy
        exact hne (by simpa [isZero] using hzero)

theorem ends_combine (exact : Int → Int → Int) (rounded : R → R → R) (a b : Number R) :
    FailsOnly admitted (combine exact rounded a b) := by
  have hreal : FailsOnly admitted (do return real (rounded (← a.toReal) (← b.toReal)) : Except Fault (Number R)) :=
    (ends_toReal arithmetic a).bind fun _ _ _ => (ends_toReal arithmetic b).bind fun _ _ _ => trivial
  cases a with
  | real x => exact hreal
  | whole m =>
      cases b with
      | real y => exact hreal
      | whole n => trivial

theorem ends_add (a b : Number R) : FailsOnly admitted (a.add b) :=
  ends_combine arithmetic _ _ a b

theorem ends_mul (a b : Number R) : FailsOnly admitted (a.mul b) :=
  ends_combine arithmetic _ _ a b

theorem ends_divideReal (x : R) {y : R} (h : Unlimited R → (y == 0) = false) :
    FailsOnly admitted (divideReal x y) := by
  refine ends_of_unlimited arithmetic (fun unlimited => ?_) fun fault hfault => ?_
  · exact ⟨x / y, by rw [divideReal, h unlimited]; rfl⟩
  · rw [divideReal] at hfault
    split at hfault <;> cases hfault
    rfl

/-- A quotient fails for a zero divisor only, if arithmetic has no limits. -/
theorem ends_divide (a : Number R) {b : Number R} (h : Unlimited R → b.isZero = false) :
    FailsOnly admitted (a.divide b) := by
  have hreal : FailsOnly admitted (do
      let x ← a.toReal
      let y ← b.toReal
      divideReal x y : Except Fault R) :=
    (ends_toReal arithmetic a).bind fun _ _ _ => (ends_toReal arithmetic b).bind fun y _ hy =>
      ends_divideReal arithmetic _ fun unlimited => hy unlimited (h unlimited)
  cases a with
  | real x => exact hreal
  | whole m =>
      cases b with
      | real y => exact hreal
      | whole n =>
          refine ends_of_unlimited arithmetic (fun unlimited => ?_) fun fault hfault => ?_
          · have hne : n ≠ 0 := by simpa [isZero] using h unlimited
            obtain ⟨q, hq⟩ := unlimited.quotient m n hne
            exact ⟨q, by rw [divide, if_neg hne, hq]⟩
          · rw [divide] at hfault
            split at hfault
            · cases hfault
              rfl
            · split at hfault <;> cases hfault
              rfl

theorem ends_ofSpecial (x : R) (value : Int) :
    FailsOnly admitted (ofSpecial x value) := by
  refine ends_of_unlimited arithmetic (fun unlimited => ?_) fun fault hfault => ?_
  · exact ⟨value, by rw [ofSpecial, unlimited.ordinary]⟩
  · rw [ofSpecial] at hfault
    split at hfault <;> cases hfault <;> rfl

theorem ends_floor (n : Number R) : FailsOnly admitted n.floor := by
  cases n with
  | whole n => trivial
  | real x => exact ends_ofSpecial arithmetic x _

theorem ends_nearest (n : Number R) : FailsOnly admitted n.nearest := by
  cases n with
  | whole n => trivial
  | real x => exact ends_ofSpecial arithmetic x _

end Number

theorem ends_compactNumber (n : Number R) :
    FailsOnly admitted (Text.compactNumber n) :=
  (Number.ends_toReal arithmetic n).map fun _ _ => trivial

end Arithmetic

/-! ## Comparisons with zero -/

section Zero

variable {R : Type} [Scalar R] (unlimited : Unlimited R) {n : Number R}

include unlimited

theorem Number.isZero_of_isPositive (h : n.isPositive = true) : n.isZero = false := by
  rw [isPositive] at h
  cases n with
  | whole n =>
      have hpos : 0 < n := by simpa [below] using h
      simpa [isZero] using Int.ne_of_gt hpos
  | real x =>
      rw [isZero, ← Bool.not_eq_true]
      intro hzero
      rw [below, wholeBelow, unlimited.ordinary] at h
      simp [(unlimited.zero x hzero).2] at h

theorem Number.isZero_of_not_atMost (h : ¬n.atMost (.whole 0) = true) : n.isZero = false := by
  cases n with
  | whole n =>
      have hne : n ≠ 0 := by
        rintro rfl
        exact h rfl
      simpa [isZero] using hne
  | real x =>
      rw [isZero, ← Bool.not_eq_true]
      intro hzero
      -- the comparison goes by whole numbers, and a zero has zero on either side
      obtain ⟨hfloor, hceiling⟩ := unlimited.zero x hzero
      refine h ?_
      simp [atMost, below, same, wholeSame, wholeBelow, realBelow, unlimited.ordinary, hfloor,
        hceiling]

end Zero

/-! ## Clocks -/

namespace Clock

variable {R : Type} [Scalar R] {admitted : Fault → Prop}
  (arithmetic : AdmitsArithmetic R admitted) {clock : Clock R}

/-- A clock whose frame rate is not zero. -/
def Runs (clock : Clock R) : Prop :=
  Unlimited R → clock.frameRate.isZero = false

theorem isZero_span (unlimited : Unlimited R) : clock.span.isZero = false := by
  rw [span]
  split
  · rename_i h
    exact Number.isZero_of_isPositive unlimited h
  · exact unlimited.literal 1 Nat.one_ne_zero

include arithmetic

theorem ends_frameTime (runs : clock.Runs) :
    FailsOnly admitted clock.frameTime :=
  Number.ends_divide arithmetic _ runs

theorem ends_duration (runs : clock.Runs) : FailsOnly admitted clock.duration :=
  (ends_frameTime arithmetic runs).bind fun _ _ _ =>
    (Number.ends_toReal arithmetic clock.span).bind fun _ _ _ => trivial

theorem ends_delay (runs : clock.Runs) : FailsOnly admitted clock.delay := by
  rw [delay]
  split
  · trivial
  · exact (ends_frameTime arithmetic runs).bind fun _ _ _ =>
      (Number.ends_toReal arithmetic clock.inFrame.negate).bind fun _ _ _ => trivial

theorem ends_percent (frame : Number R) : FailsOnly admitted (clock.percent frame) :=
  (Number.ends_add arithmetic frame clock.offset).bind fun rootFrame _ _ =>
    (Number.ends_divide arithmetic rootFrame isZero_span).bind fun _ _ _ => trivial

theorem ends_shifted (runs : clock.Runs) (frames : Number R) :
    Ends admitted Runs (clock.shifted frames) :=
  (Number.ends_add arithmetic clock.offset frames).bind fun _ _ _ => runs

end Clock

end MotionScene
