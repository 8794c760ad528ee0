import MotionScene.Proofs.Compile
import MotionScene.Proofs.Migration.Steps
import MotionScene.Proofs.Presentation.Layers

/-!
# Options are presentation only

What a document is compiled to depends on the options in the names of elements, in the loop
flags of timelines, and in the frame rate of a document that has no usable one.  Two
compilations whose clocks differ in what is erased return the same scene, erased, or fail in
the same way (`outcome_compile_erase_congr`).
-/

namespace MotionScene

open scoped Scalar

variable {R : Type} {erasure : Erasure}

def Scene.erase (erasure : Erasure) (scene : Scene R) : Scene R :=
  { scene with elements := Element.eraseAll erasure scene.elements }

variable [Scalar R]

/-! ## The clock of a document -/

/-- The frame rate of a document, or the one of the options where it is not above zero. -/
def frameRateOf (members : Members R) (options : Options R) : Number R :=
  if (numberOr members "fr" (.real 0)).atMost (.whole 0) then options.defaultFrameRate
  else numberOr members "fr" (.real 0)

/-- A document always has a clock; the notices about it change nothing. -/
theorem outcome_documentClock (members : Members R) (options : Options R) :
    (documentClock members options).outcome = .ok ⟨frameRateOf members options,
      numberOr members "ip" (.real 0), numberOr members "op" (.real 0), .real 0, options⟩ := by
  have hrate : (documentFrameRate members options).outcome =
      .ok (frameRateOf members options) := by
    unfold documentFrameRate frameRateOf
    dsimp only
    split <;> rfl
  unfold documentClock
  rw [Traced.outcome_bind_of_ok hrate]
  dsimp only
  split
  · rfl
  · split <;> rfl

/-! ## Two compilations of a document -/

/-- Options that ask for the same once something is erased, and that give a document the same
frame rate. -/
structure AskAlike (erasure : Erasure) (members : Members R) (options other : Options R) :
    Prop where
  frameRate : frameRateOf members options = frameRateOf members other
  loop : (!erasure.loops && options.loop) = (!erasure.loops && other.loop)
  keepNames : (!erasure.names && options.keepNames) = (!erasure.names && other.keepNames)

theorem outcome_compileMigrated_erase_congr {document : MigratedDocument R}
    {options other : Options R} (alike : AskAlike erasure document.members options other) :
    (compileMigrated document options).outcome.map (Scene.erase erasure) =
      (compileMigrated document other).outcome.map (Scene.erase erasure) := by
  obtain ⟨hrate, hloop, hnames⟩ := alike
  unfold compileMigrated
  rw [Traced.outcome_bind_of_ok (outcome_documentClock document.members options),
    Traced.outcome_bind_of_ok (outcome_documentClock document.members other), hrate]
  set clock : Clock R := ⟨frameRateOf document.members other,
    numberOr document.members "ip" (.real 0), numberOr document.members "op" (.real 0),
    .real 0, options⟩
  set clock' : Clock R := { clock with options := other }
  have herased : clock.erase erasure = clock'.erase erasure := by
    simp only [Clock.erase, clock, clock', hloop, hnames]
  have hduration : clock.duration = clock'.duration := rfl
  -- both lists of layers are the one under the erased clock
  have hlayers := (outcome_assembleLayers_erase clock (document.members.get "layers")).trans
    (herased ▸ (outcome_assembleLayers_erase clock' _).symm)
  refine map_outcome_bind_congr hlayers fun elements elements' helements => ?_
  rw [hduration]
  cases clock'.duration with
  | error fault => rfl
  | ok duration => exact congrArg (fun erased => Except.ok (Scene.mk _ _ _ _ erased)) helements

theorem outcome_compile_erase_congr {value : Value R} {options other : Options R}
    (alike : AskAlike erasure value.members options other) :
    (compile value options).outcome.map (Scene.erase erasure) =
      (compile value other).outcome.map (Scene.erase erasure) := by
  unfold compile
  cases hmigrated : (migrate value).outcome with
  | error fault =>
      rw [Traced.outcome_bind_of_error hmigrated, Traced.outcome_bind_of_error hmigrated]
  | ok document =>
      rw [Traced.outcome_bind_of_ok hmigrated, Traced.outcome_bind_of_ok hmigrated]
      -- the frame rate of a document survives its migration
      have hrate : numberOr document.members "fr" (.real 0) =
          numberOr value.members "fr" (.real (0 : R)) := by
        rw [numberOr, numberOr, Members.get, Members.get, get?_migrate (by decide) hmigrated]
      refine outcome_compileMigrated_erase_congr ⟨?_, alike.loop, alike.keepNames⟩
      have hsame := alike.frameRate
      unfold frameRateOf at hsame ⊢
      rwa [hrate]

omit [Scalar R] in
theorem Scene.erase_nothing (scene : Scene R) : scene.erase ⟨false, false⟩ = scene := by
  rw [erase, Element.eraseAll_nothing]

/-- Nothing is erased if nothing is to be. -/
theorem outcome_compile_congr {value : Value R} {options other : Options R}
    (alike : AskAlike ⟨false, false⟩ value.members options other) :
    (compile value options).outcome = (compile value other).outcome := by
  have herased := outcome_compile_erase_congr alike
  have hnothing : Scene.erase (R := R) ⟨false, false⟩ = id := funext Scene.erase_nothing
  rwa [hnothing, Except.map_id, id, id] at herased

/-! ## Presentation only -/

/-- What the options of a compilation decide, compared with any others that differ in one of
them: the names, the loop flags, and the frame rate of a document without a usable one. -/
structure PresentationOnly (value : Value R) (options : Options R) : Prop where
  names : ∀ keepNames, (compile value { options with keepNames }).outcome.map
      (Scene.erase ⟨true, false⟩) =
    (compile value options).outcome.map (Scene.erase ⟨true, false⟩)
  nameless : options.keepNames = false → ∀ scene, (compile value options).outcome = .ok scene →
    ∀ element ∈ scene.all, element.name? = none
  loops : ∀ loop, (compile value { options with loop }).outcome.map
      (Scene.erase ⟨false, true⟩) =
    (compile value options).outcome.map (Scene.erase ⟨false, true⟩)
  frameRates : ∀ frameRate, value.members.get "fr" = .num frameRate →
    frameRate.atMost (.whole 0) = false → ∀ defaultFrameRate,
    (compile value { options with defaultFrameRate }).outcome = (compile value options).outcome

/-- Where no names are kept, erasing them changes nothing. -/
theorem eraseAll_of_nameless {clock : Clock R} (nameless : clock.options.keepNames = false)
    {layers : Value R} {elements : List (Element R)}
    (returned : (assembleLayers clock layers).outcome = .ok elements) :
    Element.eraseAll ⟨true, false⟩ elements = elements := by
  have herased : clock.erase ⟨true, false⟩ = clock.erase ⟨false, false⟩ := by
    simp only [Clock.erase, nameless, Bool.and_false]
  have hnames : (assembleLayers clock layers).outcome.map (Element.eraseAll ⟨true, false⟩) =
      (assembleLayers (clock.erase ⟨true, false⟩) layers).outcome :=
    outcome_assembleLayers_erase clock layers
  rw [herased, ← outcome_assembleLayers_erase, returned] at hnames
  exact (Except.ok.inj hnames).trans (Element.eraseAll_nothing elements)

theorem name?_eq_none_of_compile {value : Value R} {options : Options R} {scene : Scene R}
    (nameless : options.keepNames = false) (returned : (compile value options).outcome = .ok scene)
    {element : Element R} (h : element ∈ scene.all) : element.name? = none := by
  obtain ⟨document, -, hrest⟩ := Traced.outcome_bind_eq_ok.mp returned
  obtain ⟨clock, hclock, hrest⟩ := Traced.outcome_bind_eq_ok.mp hrest
  obtain ⟨elements, helements, hrest⟩ := Traced.outcome_bind_eq_ok.mp hrest
  obtain ⟨duration, -, hrest⟩ := Traced.outcome_bind_eq_ok.mp hrest
  obtain ⟨-, -, hpure⟩ := Traced.outcome_bind_eq_ok.mp hrest
  cases hpure
  obtain rfl := Except.ok.inj ((outcome_documentClock _ _).symm.trans hclock)
  have hall : element ∈ Element.allOf elements := h
  rw [← eraseAll_of_nameless nameless helements] at hall
  exact Element.name?_eq_none_of_mem rfl element hall

/-- **The options of a compilation are presentation only.**  Whether names are kept decides
the names and nothing else, whether timelines loop decides their loop flags and nothing else,
and the default frame rate decides nothing for a document with a frame rate above zero.  A
document that cannot be compiled fails in the same way under all of them. -/
theorem compile_options_present_only (value : Value R) (options : Options R) :
    PresentationOnly value options where
  names _ := outcome_compile_erase_congr ⟨rfl, rfl, rfl⟩
  nameless nameless _ returned _ h := name?_eq_none_of_compile nameless returned h
  loops _ := outcome_compile_erase_congr ⟨rfl, rfl, rfl⟩
  frameRates frameRate hrate positive _ := by
    have husable : (numberOr value.members "fr" (.real 0)).atMost (.whole 0) = false := by
      rw [numberOr, hrate]
      exact positive
    refine outcome_compile_congr ⟨?_, rfl, rfl⟩
    rw [frameRateOf, frameRateOf, husable]
    rfl

/-- The same layer turns once only, and at the same time. -/
theorem compile_turningDocument_presented : ∃ looping still,
    (compile (.object turningDocument) loopOptions).outcome = .ok looping ∧
    (compile (.object turningDocument) ⟨true, .whole 60, true⟩).outcome = .ok looping ∧
    (compile (.object turningDocument) ⟨false, .whole 30, true⟩).outcome = .ok still ∧
    still.erase ⟨false, true⟩ = looping.erase ⟨false, true⟩ := by
  obtain ⟨looping, returned, -⟩ := exists_compile_turning
  have hpresents := compile_options_present_only (.object turningDocument) loopOptions
  have hrate : (Number.whole 25 : Number ℝ).atMost (.whole 0) = false := by decide
  obtain ⟨still, hstill, herased⟩ :=
    map_eq_ok.mp ((hpresents.loops false).trans (congrArg (Except.map _) returned))
  exact ⟨looping, still, returned, (hpresents.frameRates _ rfl hrate (.whole 60)).trans returned,
    hstill, herased⟩

end MotionScene
