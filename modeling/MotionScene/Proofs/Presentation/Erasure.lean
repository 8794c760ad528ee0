import MotionScene.Element.Pivot
import MotionScene.Proofs.Outcome

/-!
# Scenes without their presentation

Two options concern only how a scene is presented: whether its elements have names and
whether its timelines loop.  An `Erasure` takes the names, the loop flags or both out of
elements, and out of the clock that would put them there.

A step of a compilation that is taken under the erased clock returns what it returns under
the clock itself, erased.  Here this is shown for timelines, for the properties of elements
and for pivots; `map_bind` and `map_outcome_bind` put it together for steps in a row.
-/

namespace MotionScene

/-- What is taken out of a scene. -/
structure Erasure where
  names : Bool
  loops : Bool

variable {R : Type} {erasure : Erasure}

/-! ## Steps in a row -/

section Steps

variable {α β γ δ : Type} {g : α → γ} {h : β → δ}

theorem map_bind {x : Except Fault α} {y : Except Fault γ} {f : α → Except Fault β}
    {f' : γ → Except Fault δ} (hfirst : x.map g = y) (hrest : ∀ a, (f a).map h = f' (g a)) :
    (x >>= f).map h = y >>= f' := by
  subst hfirst
  cases x with
  | error fault => rfl
  | ok a => exact hrest a

/-- A first step that is taken in the same way. -/
theorem map_bind_same {x : Except Fault α} {f : α → Except Fault β} {f' : α → Except Fault δ}
    (hrest : ∀ a, (f a).map h = f' a) : (x >>= f).map h = x >>= f' := by
  cases x with
  | error fault => rfl
  | ok a => exact hrest a

theorem map_outcome_bind {ε : Type} {x : Traced ε α} {y : Traced ε γ} {f : α → Traced ε β}
    {f' : γ → Traced ε δ} (hfirst : x.outcome.map g = y.outcome)
    (hrest : ∀ a, (f a).outcome.map h = (f' (g a)).outcome) :
    (x >>= f).outcome.map h = (y >>= f').outcome := by
  cases hx : x.outcome with
  | error fault =>
      have hy : y.outcome = .error fault := by rw [← hfirst, hx]; rfl
      rw [Traced.outcome_bind_of_error hx, Traced.outcome_bind_of_error hy]
      rfl
  | ok a =>
      have hy : y.outcome = .ok (g a) := by rw [← hfirst, hx]; rfl
      rw [Traced.outcome_bind_of_ok hx, Traced.outcome_bind_of_ok hy]
      exact hrest a

/-- Two computations whose first steps return the same up to a map. -/
theorem map_outcome_bind_congr {ε : Type} {x y : Traced ε α} {f f' : α → Traced ε β}
    (hfirst : x.outcome.map g = y.outcome.map g)
    (hrest : ∀ a b, g a = g b → (f a).outcome.map h = (f' b).outcome.map h) :
    (x >>= f).outcome.map h = (y >>= f').outcome.map h := by
  cases hx : x.outcome with
  | error fault =>
      cases hy : y.outcome with
      | error other =>
          rw [hx, hy] at hfirst
          rw [Traced.outcome_bind_of_error hx, Traced.outcome_bind_of_error hy]
          exact congrArg Except.error (Except.error.inj hfirst)
      | ok b =>
          rw [hx, hy] at hfirst
          cases hfirst
  | ok a =>
      cases hy : y.outcome with
      | error other =>
          rw [hx, hy] at hfirst
          cases hfirst
      | ok b =>
          rw [hx, hy] at hfirst
          rw [Traced.outcome_bind_of_ok hx, Traced.outcome_bind_of_ok hy]
          exact hrest a b (Except.ok.inj hfirst)

theorem map_mapM {f : α → Except Fault β} {f' : γ → Except Fault δ}
    (hstep : ∀ a, (f a).map h = f' (g a)) (xs : List α) :
    (xs.mapM f).map (List.map h) = (xs.map g).mapM f' := by
  induction xs with
  | nil => rfl
  | cons x xs ih =>
      rw [List.mapM_cons, List.map_cons, List.mapM_cons]
      exact map_bind (hstep x) fun y => map_bind ih fun ys => rfl

end Steps

/-! ## Erased parts -/

namespace Erasure

/-- A name, if it is left. -/
def name (erasure : Erasure) (name? : Option String) : Option String :=
  if erasure.names then none else name?

end Erasure

def Timeline.erase (erasure : Erasure) (timeline : Timeline R) : Timeline R :=
  { timeline with loop := !erasure.loops && timeline.loop }

def Body.erase (erasure : Erasure) (body : Body R) : Body R :=
  { body with timelines := body.timelines.map (Timeline.erase erasure) }

namespace Element

mutual

def erase (erasure : Erasure) : Element R → Element R
  | ⟨type, body, some children, name?⟩ =>
    ⟨type, body.erase erasure, some (eraseAll erasure children), erasure.name name?⟩
  | ⟨type, body, none, name?⟩ => ⟨type, body.erase erasure, none, erasure.name name?⟩

def eraseAll (erasure : Erasure) : List (Element R) → List (Element R)
  | [] => []
  | element :: rest => erase erasure element :: eraseAll erasure rest

end

theorem eraseAll_eq_map (elements : List (Element R)) :
    eraseAll erasure elements = elements.map (erase erasure) := by
  induction elements with
  | nil => rfl
  | cons element rest ih => rw [eraseAll, ih, List.map_cons]

theorem eraseAll_append (first second : List (Element R)) :
    eraseAll erasure (first ++ second) = eraseAll erasure first ++ eraseAll erasure second := by
  simp only [eraseAll_eq_map, List.map_append]

theorem erase_eq (element : Element R) : element.erase erasure =
    ⟨element.type, element.body.erase erasure, element.children?.map (eraseAll erasure),
      erasure.name element.name?⟩ := by
  obtain ⟨type, body, children?, name?⟩ := element
  cases children? <;> rw [erase] <;> rfl

end Element

/-- A clock that does not ask for what is erased; it has no use for a default frame rate. -/
def Clock.erase (erasure : Erasure) (clock : Clock R) : Clock R :=
  { clock with options :=
      ⟨!erasure.loops && clock.options.loop, .whole 0, !erasure.names && clock.options.keepNames⟩ }

def Pivoted.erase (erasure : Erasure) (pivoted : Pivoted R) : Pivoted R :=
  ⟨pivoted.wrapper?.map (Body.erase erasure), pivoted.inner.erase erasure⟩

/-! ## Erasing names leaves none, and erasing nothing leaves everything -/

theorem Erasure.name_none : erasure.name none = none := by
  unfold name
  split <;> rfl

mutual

theorem Element.name?_eq_none (hnames : erasure.names = true) : ∀ {element : Element R},
    ∀ part ∈ (element.erase erasure).all, part.name? = none
  | ⟨type, body, some children, name?⟩, part, hpart => by
      rw [erase, all] at hpart
      rcases List.mem_cons.mp hpart with rfl | hpart
      · exact if_pos hnames
      · exact name?_eq_none_of_mem hnames part hpart
  | ⟨type, body, none, name?⟩, part, hpart => by
      rw [erase, all] at hpart
      obtain rfl := List.mem_singleton.mp hpart
      exact if_pos hnames

theorem Element.name?_eq_none_of_mem (hnames : erasure.names = true) :
    ∀ {elements : List (Element R)},
    ∀ part ∈ allOf (eraseAll erasure elements), part.name? = none
  | [], part, hpart => by
      rw [eraseAll, allOf] at hpart
      cases hpart
  | element :: rest, part, hpart => by
      rw [eraseAll, allOf] at hpart
      rcases List.mem_append.mp hpart with hpart | hpart
      · exact name?_eq_none hnames part hpart
      · exact name?_eq_none_of_mem hnames part hpart

end

theorem Body.erase_nothing (body : Body R) : body.erase ⟨false, false⟩ = body := by
  have htimelines : body.timelines.map (Timeline.erase ⟨false, false⟩) = body.timelines :=
    List.map_id' body.timelines
  rw [erase, htimelines]

mutual

theorem Element.erase_nothing : ∀ element : Element R, element.erase ⟨false, false⟩ = element
  | ⟨type, body, some children, name?⟩ => by
      rw [erase, Body.erase_nothing, eraseAll_nothing]
      rfl
  | ⟨type, body, none, name?⟩ => by
      rw [erase, Body.erase_nothing]
      rfl

theorem Element.eraseAll_nothing : ∀ elements : List (Element R),
    eraseAll ⟨false, false⟩ elements = elements
  | [] => rfl
  | element :: rest => by
      rw [eraseAll, erase_nothing, eraseAll_nothing]

end

/-! ## Timelines -/

variable [Scalar R] {clock : Clock R}

theorem emitKeyframes_erase (rule : PatchRule R) (axis : Int) (progress : Progress R)
    (sources : List (SourceKeyframe R)) :
    emitKeyframes (clock.erase erasure) rule axis progress sources =
      emitKeyframes clock rule axis progress sources := by
  induction sources generalizing progress with
  | nil => rw [emitKeyframes, emitKeyframes]
  | cons source rest ih =>
      simp only [emitKeyframes, ih]
      rfl

/-- The loop flag of the options is that of the timeline, and nothing else comes from them. -/
theorem buildTimeline_erase (keyframes : List (Value R)) (rule : PatchRule R) (axis : Int) :
    (buildTimeline keyframes rule clock axis).map (Option.map (Timeline.erase erasure)) =
      buildTimeline keyframes rule (clock.erase erasure) axis := by
  rw [buildTimeline, buildTimeline, emitKeyframes_erase]
  refine map_bind_same fun emitted => ?_
  split
  · rfl
  · refine map_bind_same fun keyframes => ?_
    refine map_bind_same fun duration => ?_
    exact map_bind_same fun delay => rfl

/-! ## Properties -/

theorem axisTimelines_erase (keyframes : List (Value R)) (target : String)
    (conversion : Conversion) (axis : Nat) (names : List String) :
    (axisTimelines keyframes target conversion clock axis names).map
        (List.map (Timeline.erase erasure)) =
      axisTimelines keyframes target conversion (clock.erase erasure) axis names := by
  induction names generalizing axis with
  | nil => rfl
  | cons name rest ih =>
      rw [axisTimelines, axisTimelines]
      refine map_bind (buildTimeline_erase _ _ _) fun timeline? => map_bind (ih _) fun later => ?_
      cases timeline? <;> rfl

section Body

variable (body : Body R)

omit [Scalar R] in
theorem Body.erase_timelines (timelines : List (Timeline R)) :
    Body.erase erasure { body with timelines := body.timelines ++ timelines } =
      { body.erase erasure with
        timelines := (body.erase erasure).timelines ++ timelines.map (Timeline.erase erasure) } := by
  rw [erase, List.map_append]
  rfl

theorem resolve_erase (property : Value R) (target : String) (axes : List String)
    (conversion : Conversion) :
    (resolve property target axes conversion clock body).map (Body.erase erasure) =
      resolve property target axes conversion (clock.erase erasure) (body.erase erasure) := by
  unfold resolve
  split
  · exact map_bind_same fun attributes => rfl
  split
  · refine map_bind (axisTimelines_erase _ _ _ _ _) fun timelines => ?_
    exact congrArg Except.ok (body.erase_timelines timelines)
  · rfl

theorem resolveColor_erase (property : Value R) (target name : String) :
    (resolveColor property target name clock body).map (Body.erase erasure) =
      resolveColor property target name (clock.erase erasure) (body.erase erasure) := by
  unfold resolveColor
  split
  · refine map_bind_same fun color => ?_
    exact map_bind_same fun attributes => rfl
  split
  · refine map_bind (buildTimeline_erase _ _ _) fun timeline? => congrArg Except.ok ?_
    rw [body.erase_timelines]
    cases timeline? <;> rfl
  · rfl

/-! ## Transforms -/

theorem resolvePosition_erase (position : Value R) :
    (resolvePosition position clock body).map (Body.erase erasure) =
      resolvePosition position (clock.erase erasure) (body.erase erasure) := by
  unfold resolvePosition
  split
  · exact map_bind (resolve_erase _ _ _ _ _) fun body => resolve_erase _ _ _ _ _
  · exact resolve_erase _ _ _ _ _

end Body

theorem composeTransform_erase (transform : Value R) :
    (composeTransform transform clock).map (Body.erase erasure) =
      composeTransform transform (clock.erase erasure) := by
  unfold composeTransform
  split
  · refine map_bind (resolvePosition_erase Body.empty _) fun placed => ?_
    refine map_bind (resolve_erase _ _ _ _ _) fun scaled => ?_
    exact map_bind (resolve_erase _ _ _ _ _) fun turned => resolve_erase _ _ _ _ _
  · rfl

theorem withTransform_erase (element : Element R) (transform : Value R) :
    (element.withTransform transform clock).map (Element.erase erasure) =
      (element.erase erasure).withTransform transform (clock.erase erasure) := by
  unfold Element.withTransform
  refine map_bind (composeTransform_erase transform) fun body => congrArg Except.ok ?_
  simp only [Element.erase_eq, Body.merge, Body.erase, List.map_append]

/-! ## Pivots -/

theorem hasAnchor_erase (body : Body R) : (body.erase erasure).hasAnchor = body.hasAnchor := by
  rw [Body.hasAnchor, Body.erase, List.any_map]
  rfl

theorem retarget_erase (timeline : Timeline R) :
    timeline.retarget.map (Timeline.erase erasure) = (timeline.erase erasure).retarget :=
  map_bind_same fun _ => rfl

theorem splitAtAnchor_erase (body : Body R) :
    body.splitAtAnchor.map (Prod.map (Body.erase erasure) (Body.erase erasure)) =
      (body.erase erasure).splitAtAnchor := by
  have hkept : (body.erase erasure).timelines.filter (fun timeline =>
      !timeline.touches transformKeys) = (body.timelines.filter fun timeline =>
        !timeline.touches transformKeys).map (Timeline.erase erasure) :=
    List.filter_map
  have hplacing : (body.erase erasure).timelines.filter (·.touches transformKeys) =
      (body.timelines.filter (·.touches transformKeys)).map (Timeline.erase erasure) :=
    List.filter_map
  rw [Body.splitAtAnchor, Body.splitAtAnchor, hkept, hplacing]
  refine map_bind_same fun inner => ?_
  refine map_bind (map_mapM (fun timeline => ?_) _) fun kept => rfl
  -- a timeline that is erased moves the anchor as before
  show (if timeline.movesAnchor then _ else _ : Except Fault (Timeline R)).map _ =
    if timeline.movesAnchor then _ else _
  split
  · exact retarget_erase timeline
  · rfl

theorem pivot_erase (element : Element R) :
    element.pivot.map (Pivoted.erase erasure) = (element.erase erasure).pivot := by
  have hbody : (element.erase erasure).body = element.body.erase erasure := by
    rw [Element.erase_eq]
  rw [Element.pivot, Element.pivot, hbody, hasAnchor_erase]
  split
  · refine map_bind (splitAtAnchor_erase element.body) fun bodies => congrArg Except.ok ?_
    simp only [Pivoted.erase, Element.erase_eq, Option.map_some]
  · refine congrArg Except.ok ?_
    simp only [Pivoted.erase, Element.erase_eq, Option.map_none]
    rfl

omit [Scalar R] in
theorem outer_erase (pivoted : Pivoted R) :
    (pivoted.erase erasure).outer = pivoted.outer.erase erasure := by
  obtain ⟨wrapper?, inner⟩ := pivoted
  cases wrapper? with
  | none => rfl
  | some body =>
      show (⟨.group, _, some [_], none⟩ : Element R) =
        Element.erase erasure ⟨.group, body, some [inner], none⟩
      rw [Element.erase, Erasure.name_none, Element.eraseAll, Element.eraseAll]
      rfl

omit [Scalar R] in
theorem adopt_erase (pivoted : Pivoted R) (more : List (Element R)) :
    (pivoted.erase erasure).adopt (Element.eraseAll erasure more) =
      (pivoted.adopt more).erase erasure := by
  obtain ⟨wrapper?, type, body, children?, name?⟩ := pivoted
  cases children? with
  | none => simp only [Pivoted.adopt, Pivoted.erase, Element.adopt, Element.erase_eq,
      Option.map_none]
  | some children => simp only [Pivoted.adopt, Pivoted.erase, Element.adopt, Element.erase_eq,
      Option.map_some, Element.eraseAll_append]

end MotionScene
