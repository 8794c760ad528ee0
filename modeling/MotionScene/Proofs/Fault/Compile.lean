import MotionScene.Compile
import MotionScene.Proofs.Fault.Layer
import MotionScene.Proofs.Fault.Migration

/-!
# What a compilation fails with

A value that is no document is refused, with what is wrong about it.  A document is compiled,
unless an object somewhere in it has a flaw, or a number in it goes beyond the limits of the
arithmetic (`compile_returns_unless_flawed`).  Each flaw makes some document fail
(`compile_flawedDocument`).
-/

namespace MotionScene

open scoped Scalar

variable {R : Type} [Scalar R]

/-- Some object that stands in a value has a flaw. -/
def HasFlaw (value : Value R) : Prop :=
  ∃ inner, StandsIn inner value ∧ ∃ flaw : Flaw, flaw.isIn inner = true

/-! ## Clocks of documents -/

section Clocks

variable {admitted : Fault → Prop}

theorem runs_documentFrameRate {options : Options R}
    (hdefault : Unlimited R → options.defaultFrameRate.isZero = false) (members : Members R) :
    Ends admitted (fun frameRate => Unlimited R → frameRate.isZero = false)
      (documentFrameRate members options).outcome := by
  unfold documentFrameRate
  dsimp only
  split
  · exact hdefault
  · rename_i hpositive
    exact fun unlimited => Number.isZero_of_not_atMost unlimited hpositive

theorem ends_documentClock {options : Options R}
    (hdefault : Unlimited R → options.defaultFrameRate.isZero = false) (members : Members R) :
    Ends admitted Clock.Runs (documentClock members options).outcome := by
  refine (runs_documentFrameRate hdefault members).report fun frameRate _ hrate => ?_
  dsimp only
  split
  · exact hrate
  · split <;> exact hrate

theorem ends_compileMigrated (arithmetic : AdmitsArithmetic R admitted) {options : Options R}
    (hdefault : Unlimited R → options.defaultFrameRate.isZero = false)
    {document : MigratedDocument R} (excused : Excused admitted (.object document.members)) :
    FailsOnly admitted (compileMigrated document options).outcome := by
  refine (ends_documentClock hdefault document.members).report fun clock _ runs => ?_
  refine (ends_assembleLayers arithmetic runs _ (excused.get "layers")).report
    fun elements _ _ => ?_
  exact Ends.report (Clock.ends_duration arithmetic runs) fun _ _ _ => trivial

end Clocks

/-! ## Documents -/

theorem isZero_standard (unlimited : Unlimited R) :
    (Options.standard : Options R).defaultFrameRate.isZero = false :=
  unlimited.literal 30 (by decide)

/-- The ways in which the compilation of a document ends. -/
theorem returns_or_fails {members : Members R} (document : isDocument members = true) :
    (∃ scene, (compile (.object members) .standard).outcome = .ok scene) ∨
      (compile (.object members) .standard).outcome = .error .wrongKind ∧
        HasFlaw (.object members) ∨
      ∃ fault : Fault, (compile (.object members) .standard).outcome = .error fault ∧
        fault.isArithmetic = true ∧ ¬Unlimited R := by
  let admitted : Fault → Prop := fun fault =>
    fault = .wrongKind ∧ HasFlaw (.object members) ∨ fault.isArithmetic = true ∧ ¬Unlimited R
  have arithmetic : AdmitsArithmetic R admitted :=
    fun fault harithmetic limited => .inr ⟨harithmetic, limited⟩
  have excused : Excused admitted (.object members) :=
    fun inner stands flaw h => .inl ⟨rfl, inner, stands, flaw, h⟩
  -- migrating excuses what the source excuses, so all flaws are those of the source
  have hends : FailsOnly admitted (compile (.object members) .standard).outcome :=
    (ends_migrate arithmetic document excused).report fun _ _ hmigrated =>
      ends_compileMigrated arithmetic isZero_standard hmigrated
  cases houtcome : (compile (.object members) .standard).outcome with
  | ok scene => exact .inl ⟨scene, rfl⟩
  | error fault =>
      rcases hends.of_eq_error houtcome with ⟨rfl, flawed⟩ | ⟨harithmetic, limited⟩
      · exact .inr (.inl ⟨rfl, flawed⟩)
      · exact .inr (.inr ⟨fault, rfl, harithmetic, limited⟩)

/-- **A compilation returns unless its document is flawed.**  What is no document is refused
and says why.  A document is compiled, or an object in it has a flaw, or the arithmetic has
limits and a number is beyond them. -/
theorem compile_returns_unless_flawed (value : Value R) :
    match value with
    | .object members =>
      if isDocument members then
        (∃ scene, (compile value .standard).outcome = .ok scene) ∨
          (compile value .standard).outcome = .error .wrongKind ∧ HasFlaw value ∨
          ∃ fault : Fault, (compile value .standard).outcome = .error fault ∧
            fault.isArithmetic = true ∧ ¬Unlimited R
      else (compile value .standard).outcome = .error .noLayerList
    | value => (compile value .standard).outcome = .error (.notADocument value.sort) := by
  cases value with
  | object members =>
      dsimp only
      split
      · rename_i document
        exact returns_or_fails document
      · rename_i hnot
        have hrefused : documentMembers (.object members) = .error .noLayerList := if_neg hnot
        rw [compile, migrate, hrefused]
        rfl
  | _ => rfl

/-! ## Exact arithmetic -/

theorem unlimited_real : Unlimited ℝ where
  ordinary _ := rfl
  whole n := ⟨(n : ℝ), rfl, fun hne => decide_eq_false (by
    rwa [scalar_literal, Nat.cast_zero, Int.cast_eq_zero])⟩
  quotient m n _ := ⟨(m : ℝ) / n, rfl⟩
  literal n hne := decide_eq_false (by
    rwa [scalar_literal, Nat.cast_zero, show (Scalar.ofNat n : ℝ) = n from rfl, Nat.cast_eq_zero])
  zero x hzero := by
    have hx : x = ((0 : ℕ) : ℝ) := of_decide_eq_true hzero
    rw [Nat.cast_zero] at hx
    constructor
    · show ⌊x⌋ = 0
      rw [hx, Int.floor_zero]
    · show ⌊-x⌋ = 0
      rw [hx, neg_zero, Int.floor_zero]

/-- With exact numbers a document without flaws is compiled. -/
theorem exists_scene_of_not_hasFlaw {members : Members ℝ} (document : isDocument members = true)
    (flawless : ¬HasFlaw (.object members)) :
    ∃ scene, (compile (.object members) .standard).outcome = .ok scene := by
  rcases returns_or_fails document with returned | ⟨-, flawed⟩ | ⟨-, -, -, limited⟩
  · exact returned
  · exact absurd flawed flawless
  · exact absurd unlimited_real limited

/-! ## Flawed documents -/

/-- A document with one layer. -/
def documentOf (layer : Members R) : Members R :=
  [("fr", .num (.whole 30)), ("ip", .num (.whole 0)), ("op", .num (.whole 30)),
    ("w", .num (.whole 100)), ("h", .num (.whole 100)), ("layers", .list [.object layer])]

/-- A shape layer of one path with the given incoming and outgoing handle. -/
def pathLayer (incoming outgoing : Value R) : Members R :=
  let zero : Value R := .num (.whole 0)
  let bezier : Value R := .object [("v", .list [.list [zero, zero]]), ("i", .list [incoming]),
    ("o", .list [outgoing])]
  [("ty", .num (.whole 4)), ("ks", .object []),
    ("shapes", .list [.object [("ty", .text "sh"), ("ks", .object [("k", bezier)])]])]

/-- A shape layer of one rectangle with a stroke. -/
def strokeLayer (key : String) (value : Value R) : Members R :=
  [("ty", .num (.whole 4)), ("shapes", .list [.object [("ty", .text "rc")],
    .object [("ty", .text "st"), (key, value)]])]

/-- A layer that has nothing but a flaw. -/
def flawedLayer : Flaw → Members R
  | .masks => [("ty", .num (.whole 3)), ("ks", .object []), ("hasMask", .bool true),
      ("masksProperties", .num (.whole 5))]
  | .incoming => pathLayer (.list [.text "left"]) (.list [])
  | .outgoing => pathLayer (.list []) (.list [.text "right"])
  | .start => [("ty", .num (.whole 0)), ("st", .text "soon")]
  | .width => [("ty", .num (.whole 1)), ("sw", .text "wide")]
  | .height => [("ty", .num (.whole 1)), ("sh", .text "high")]
  | .index => [("ty", .num (.whole 3)), ("ind", .list []), ("ks", .object [])]
  | .parent => [("ty", .num (.whole 3)), ("ind", .num (.whole 1)), ("parent", .list [])]
  | .lineCap => strokeLayer "lc" (.list [])
  | .lineJoin => strokeLayer "lj" (.list [])

/-- A document that is migrated to itself fails with its one layer. -/
theorem compile_documentOf {layer : Members R}
    (migrated : (migrate (.object (documentOf layer))).outcome = .ok ⟨documentOf layer, .unknown⟩)
    {fault : Fault}
    (failed : ∀ clock, (assembleLayers clock (.list [.object layer])).outcome = .error fault) :
    (compile (.object (documentOf layer)) .standard).outcome = .error fault := by
  rw [compile, Traced.outcome_bind_of_ok migrated]
  exact Traced.outcome_bind_of_error (failed _) _

/-- Every flaw makes a document fail, also where no number is beyond the arithmetic. -/
theorem compile_flawedDocument (flaw : Flaw) :
    (compile (.object (documentOf (flawedLayer flaw : Members ℝ))) .standard).outcome =
      .error .wrongKind := by
  cases flaw with
  | masks | incoming | outgoing => rfl
  | start | width | height | index | parent | lineCap | lineJoin =>
      refine compile_documentOf rfl fun clock => ?_
      simp only [assembleLayers, buildLayers, buildMembers, flawedLayer, strokeLayer]
      rfl

/-- A list for the index of a layer is neither skipped nor refused as what is no document. -/
theorem compile_listForIndex :
    let members : Members Float := documentOf (flawedLayer .index)
    isDocument members = true ∧
      (compile (.object members) .standard).outcome = .error .wrongKind := by
  refine ⟨rfl, compile_documentOf rfl fun clock => ?_⟩
  simp only [assembleLayers, buildLayers, buildMembers, flawedLayer]
  rfl

end MotionScene
