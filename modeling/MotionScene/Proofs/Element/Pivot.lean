import Mathlib.LinearAlgebra.Matrix.Notation
import MotionScene.Proofs.Element.Placing

/-!
# Pivots keep transforms

A transform moves the anchor to the origin, scales, turns and moves to the position.  A
group that has been given a transform shows the product of these steps at every percent
(`Body.transform`).  Taking its anchor into a group around it keeps that product
(`pivot_keeps_transform`): the group around it scales, turns and moves to the position,
and the group itself moves by the opposite of the anchor.
-/

namespace MotionScene

/-! ## Matrices -/

/-- A cosine and a sine by which an angle turns. -/
structure Turning where
  cosine : ℝ → ℝ
  sine : ℝ → ℝ
  cosine_zero : cosine 0 = 1
  sine_zero : sine 0 = 0

/-- The matrix that moves the origin to a point. -/
def translation (x y : ℝ) : Matrix (Fin 3) (Fin 3) ℝ :=
  !![1, 0, x; 0, 1, y; 0, 0, 1]

/-- The matrix that turns by an angle. -/
def rotation (turning : Turning) (angle : ℝ) : Matrix (Fin 3) (Fin 3) ℝ :=
  !![turning.cosine angle, -turning.sine angle, 0;
    turning.sine angle, turning.cosine angle, 0; 0, 0, 1]

/-- The matrix that scales the two axes. -/
def scaling (x y : ℝ) : Matrix (Fin 3) (Fin 3) ℝ :=
  !![x, 0, 0; 0, y, 0; 0, 0, 1]

theorem translation_zero : translation 0 0 = 1 :=
  Matrix.one_fin_three.symm

theorem rotation_zero (turning : Turning) : rotation turning 0 = 1 := by
  rw [rotation, turning.cosine_zero, turning.sine_zero, neg_zero]
  exact Matrix.one_fin_three.symm

theorem scaling_one : scaling 1 1 = 1 :=
  Matrix.one_fin_three.symm

/-- The real number that is shown, or a default where no number is. -/
def amountOr (default : ℝ) : Option (Value ℝ) → ℝ
  | some (.num n) => n.value
  | _ => default

@[simp] theorem amountOr_none (default : ℝ) : amountOr default none = default := rfl

@[simp] theorem amountOr_num (default : ℝ) (n : Number ℝ) :
    amountOr default (some (.num n)) = n.value := rfl

section Shown

variable (turning : Turning) (curve : Option String → ℝ → ℝ)

/-- The number that a body shows under a key. -/
noncomputable def Body.amount (body : Body ℝ) (percent : ℝ) (key : String) (default : ℝ) : ℝ :=
  amountOr default ((body.shown curve percent).get? key)

/-- The matrix by which an element with the body is placed: the target scales and turns it
about its origin and moves it. -/
noncomputable def Body.placement (body : Body ℝ) (percent : ℝ) : Matrix (Fin 3) (Fin 3) ℝ :=
  translation (body.amount curve percent "x" 0) (body.amount curve percent "y" 0) *
    rotation turning (body.amount curve percent "rotation" 0) *
    scaling (body.amount curve percent "scaleX" 1) (body.amount curve percent "scaleY" 1)

/-- The matrix of a transform, which moves the anchor to the origin first. -/
noncomputable def Body.transform (body : Body ℝ) (percent : ℝ) : Matrix (Fin 3) (Fin 3) ℝ :=
  body.placement turning curve percent *
    translation (-body.amount curve percent "anchorX" 0) (-body.amount curve percent "anchorY" 0)

/-- The matrix by which the content of an element is placed through what stands around it. -/
noncomputable def Pivoted.placement (pivoted : Pivoted ℝ) (percent : ℝ) :
    Matrix (Fin 3) (Fin 3) ℝ :=
  match pivoted.wrapper? with
  | none => pivoted.inner.body.placement turning curve percent
  | some wrapper => wrapper.placement turning curve percent *
      pivoted.inner.body.placement turning curve percent

end Shown

/-- The timelines of an element and of what stands around it. -/
def Pivoted.timelines {R : Type} (pivoted : Pivoted R) : List (Timeline R) :=
  (pivoted.wrapper?.elim [] Body.timelines) ++ pivoted.inner.body.timelines

/-- What becomes of a timeline when the anchor is taken away: one of the anchor turns into
the opposite one of the position, with the same time; the others stay. -/
inductive PivotsTo (timeline : Timeline ℝ) : Timeline ℝ → Prop
  | stays (free : timeline.movesAnchor = false) : PivotsTo timeline timeline
  | turns {key : String × String} (hkey : key ∈ anchorKeys) {result : Timeline ℝ}
      (opposes : Opposes key timeline result) : PivotsTo timeline result

section Placement

variable {turning : Turning} {curve : Option String → ℝ → ℝ} {percent : ℝ}

/-- Only what is shown under the transform keys places an element. -/
theorem placement_congr {body other : Body ℝ}
    (h : ∀ key ∈ transformKeys,
      (body.shown curve percent).get? key = (other.shown curve percent).get? key) :
    body.placement turning curve percent = other.placement turning curve percent := by
  unfold Body.placement Body.amount
  rw [h "x" (by decide), h "y" (by decide), h "rotation" (by decide), h "scaleX" (by decide),
    h "scaleY" (by decide)]

theorem transform_of_amount_eq_zero {body : Body ℝ}
    (h : ∀ key ∈ anchorKeys, body.amount curve percent key.1 0 = 0) :
    body.transform turning curve percent = body.placement turning curve percent := by
  have hx : body.amount curve percent "anchorX" 0 = 0 := h ("anchorX", "x") (by decide)
  have hy : body.amount curve percent "anchorY" 0 = 0 := h ("anchorY", "y") (by decide)
  rw [Body.transform, hx, hy, neg_zero, translation_zero, mul_one]

/-- An element that is only moved is placed by a translation. -/
theorem placement_eq_translation {body : Body ℝ}
    (h : ∀ key ∈ ["rotation", "scaleX", "scaleY"], (body.shown curve percent).get? key = none) :
    body.placement turning curve percent =
      translation (body.amount curve percent "x" 0) (body.amount curve percent "y" 0) := by
  have hturn : body.amount curve percent "rotation" 0 = 0 := by
    rw [Body.amount, h "rotation" (by decide), amountOr_none]
  have hx : body.amount curve percent "scaleX" 1 = 1 := by
    rw [Body.amount, h "scaleX" (by decide), amountOr_none]
  have hy : body.amount curve percent "scaleY" 1 = 1 := by
    rw [Body.amount, h "scaleY" (by decide), amountOr_none]
  rw [Body.placement, hturn, hx, hy, rotation_zero, scaling_one, mul_one, mul_one]

end Placement

/-! ## Elements without an anchor -/

section Free

variable {R : Type} [Scalar R]

omit [Scalar R] in
theorem withoutAnchor_eq {body : Body R}
    (h : ∀ key ∈ anchorKeys, Members.get? body.attributes key.1 = none) :
    body.withoutAnchor = body := by
  have hx : Members.get? body.attributes "anchorX" = none := h ("anchorX", "x") (by decide)
  have hy : Members.get? body.attributes "anchorY" = none := h ("anchorY", "y") (by decide)
  show ({ body with
    attributes := Members.erase (Members.erase body.attributes "anchorX") "anchorY" } :
    Body R) = body
  rw [Members.erase_of_get?_eq_none hx, Members.erase_of_get?_eq_none hy]

theorem hasAnchor_eq_false {body : Body R} : body.hasAnchor = false ↔
    (∀ key ∈ anchorKeys, (body.attributes.get key.1).holds = false) ∧
      ∀ timeline ∈ body.timelines, timeline.movesAnchor = false := by
  simp [Body.hasAnchor, Bool.or_eq_false_iff, List.any_eq_false]

/-- An element without an anchor stays what it is. -/
theorem pivot_of_free {element : Element R}
    (hattributes : ∀ key ∈ anchorKeys, Members.get? element.body.attributes key.1 = none)
    (htimelines : ∀ timeline ∈ element.body.timelines, timeline.movesAnchor = false) :
    element.pivot = .ok ⟨none, element⟩ := by
  have hfree : element.body.hasAnchor = false := by
    refine hasAnchor_eq_false.mpr ⟨fun key hkey => ?_, htimelines⟩
    rw [Members.get, hattributes key hkey]
    rfl
  obtain ⟨type, body, children?, name?⟩ := element
  rw [Element.pivot, hfree, if_neg Bool.false_ne_true, withoutAnchor_eq hattributes]

end Free

section Placing

variable {turning : Turning} {curve : Option String → ℝ → ℝ} {percent : ℝ} {body : Body ℝ}

theorem movesAnchor_iff {own : String} (hown : own ∈ placingKeys) {timeline : Timeline ℝ}
    (tracks : Tracks own timeline.keyframes) :
    timeline.movesAnchor = true ↔ own ∈ anchorKeys.map (·.1) := by
  rw [Timeline.movesAnchor, tracks.touches (notMem_ownKeys hown), List.contains_iff_mem]

/-- An anchor that is neither animated nor other than zero is shown as zero. -/
theorem amount_of_free (placing : body.Placing) (free : body.hasAnchor = false)
    {key : String × String} (hkey : key ∈ anchorKeys) :
    body.amount curve percent key.1 0 = 0 := by
  obtain ⟨hattributes, htimelines⟩ := hasAnchor_eq_false.mp free
  have hnone : ∀ timeline ∈ body.timelines,
      Members.get? (sample (blendNumbers curve) timeline.keyframes percent) key.1 = none := by
    intro timeline h
    obtain ⟨own, hown, tracks⟩ := placing.tracks timeline h
    refine get?_sample_of_ne hown tracks ?_
    rintro rfl
    have hmoves := (movesAnchor_iff hown tracks).mpr (List.mem_map_of_mem hkey)
    rw [htimelines timeline h] at hmoves
    cases hmoves
  rw [Body.amount, get?_shown placing, showing_of_none hnone]
  cases hget : Members.get? body.attributes key.1 with
  | none => rfl
  | some value =>
      obtain ⟨n, hn⟩ := placing.numbers _ (Members.mem_of_get? hget)
      obtain rfl : value = .num n := hn
      have hholds := hattributes key hkey
      rw [Members.get, hget, Option.getD_some, Value.holds, Bool.not_eq_false',
        Number.isZero_iff] at hholds
      rw [amountOr_num, hholds]

theorem mem_withoutAnchor {R : Type} {body : Body R} {entry : String × Value R}
    (h : entry ∈ body.withoutAnchor.attributes) : entry ∈ body.attributes :=
  List.mem_of_mem_filter (List.mem_of_mem_filter h)

theorem get?_withoutAnchor {R : Type} {body : Body R} {key : String} (hkey : key ∈ transformKeys) :
    Members.get? body.withoutAnchor.attributes key = Members.get? body.attributes key := by
  have hne : ∀ key ∈ transformKeys, "anchorX" ≠ key ∧ "anchorY" ≠ key := by decide
  obtain ⟨hx, hy⟩ := hne key hkey
  show Members.get? (Members.erase (Members.erase body.attributes "anchorX") "anchorY") key = _
  rw [Members.get?_erase_of_ne _ hy, Members.get?_erase_of_ne _ hx]

theorem get?_anchor_withoutAnchor {R : Type} {body : Body R} {key : String × String}
    (hkey : key ∈ anchorKeys) : Members.get? body.withoutAnchor.attributes key.1 = none := by
  show Members.get? (Members.erase (Members.erase body.attributes "anchorX") "anchorY") key.1 = _
  rcases List.mem_cons.mp hkey with rfl | hkey
  · rw [Members.get?_erase_of_ne _ (by decide), Members.get?_erase_self]
  · rw [List.mem_singleton.mp hkey, Members.get?_erase_self]

/-- Leaving out an anchor that is zero keeps the transform. -/
theorem placement_withoutAnchor (placing : body.Placing) (free : body.hasAnchor = false) :
    body.withoutAnchor.placement turning curve percent =
      body.transform turning curve percent := by
  have placing' : body.withoutAnchor.Placing :=
    ⟨fun entry h => placing.numbers entry (mem_withoutAnchor h), placing.tracks⟩
  rw [transform_of_amount_eq_zero fun key hkey => amount_of_free placing free hkey]
  refine placement_congr fun key hkey => ?_
  rw [get?_shown placing', get?_shown placing, get?_withoutAnchor hkey]
  rfl

end Placing

/-! ## Elements with an anchor -/

/-- The two bodies into which a body is taken apart at its anchor: one has all that places
an element, the other is moved by the opposite of the anchor. -/
structure SplitsInto (body wrapper inner : Body ℝ) : Prop where
  wrapper_eq : wrapper = ⟨body.attributes.filter fun entry => transformKeys.contains entry.1,
    body.timelines.filter (·.touches transformKeys)⟩
  numbers : ∀ entry ∈ inner.attributes, ∃ n, entry.2 = .num n
  opposite : ∀ key ∈ anchorKeys, amountOr 0 (Members.get? inner.attributes key.2) =
    -amountOr 0 (Members.get? body.attributes key.1)
  cleared : ∀ key ∈ anchorKeys, Members.get? inner.attributes key.1 = none
  still : ∀ key ∈ ["rotation", "scaleX", "scaleY"], Members.get? inner.attributes key = none
  opposes : List.Forall₂ (fun timeline result => ∃ key ∈ anchorKeys, Opposes key timeline result)
    (body.timelines.filter fun timeline => !timeline.touches transformKeys) inner.timelines

theorem exists_opposite_getD {attributes : Members ℝ}
    (numbers : ∀ entry ∈ attributes, ∃ n, entry.2 = .num n) (key : String) :
    ∃ m : Number ℝ, opposite ((attributes.get? key).getD (.num (.whole 0))) = .ok (.num m) ∧
      m.value = -amountOr 0 (attributes.get? key) := by
  cases hget : attributes.get? key with
  | none =>
      obtain ⟨m, hopposite, hvalue⟩ := exists_opposite (.whole 0)
      refine ⟨m, hopposite, ?_⟩
      rw [hvalue, amountOr_none, Number.value_whole, Int.cast_zero]
  | some value =>
      obtain ⟨n, hn⟩ := numbers _ (Members.mem_of_get? hget)
      obtain rfl : value = .num n := hn
      exact exists_opposite n

/-- The position attributes become the opposites of the anchor attributes, which go. -/
theorem exists_retargetAttributes {attributes : Members ℝ}
    (numbers : ∀ entry ∈ attributes, ∃ n, entry.2 = .num n) :
    ∃ result, retargetAttributes attributes = .ok result ∧
      (∀ entry ∈ result, ∃ n, entry.2 = .num n) ∧
      (∀ key ∈ anchorKeys, amountOr 0 (Members.get? result key.2) =
        -amountOr 0 (attributes.get? key.1)) ∧
      (∀ key ∈ anchorKeys, Members.get? result key.1 = none) ∧
      ∀ key ∈ ["rotation", "scaleX", "scaleY"], Members.get? result key = attributes.get? key := by
  obtain ⟨x, hx, hxvalue⟩ := exists_opposite_getD numbers "anchorX"
  obtain ⟨y, hy, hyvalue⟩ := exists_opposite_getD numbers "anchorY"
  have hsecond : Members.get? ((attributes.erase "anchorX").set "x" (.num x)) "anchorY" =
      attributes.get? "anchorY" := by
    rw [Members.get?_set_of_ne _ _ (by decide), Members.get?_erase_of_ne _ (by decide)]
  refine ⟨(Members.erase ((attributes.erase "anchorX").set "x" (.num x)) "anchorY").set "y"
    (.num y), ?_, fun entry h => ?_, fun key hkey => ?_, fun key hkey => ?_, fun key hkey => ?_⟩
  · simp only [retargetAttributes, anchorKeys, List.foldlM_cons, List.foldlM_nil, hx, ok_bind,
      pure_bind, hsecond, hy]
    rfl
  · rcases Members.mem_set h with rfl | h
    · exact ⟨y, rfl⟩
    · rcases Members.mem_set (List.mem_of_mem_filter h) with rfl | h
      · exact ⟨x, rfl⟩
      · exact numbers entry (List.mem_of_mem_filter h)
  · rcases List.mem_cons.mp hkey with rfl | hkey
    · rw [Members.get?_set_of_ne _ _ (by decide), Members.get?_erase_of_ne _ (by decide),
        Members.get?_set_self, amountOr_num, hxvalue]
    · rw [List.mem_singleton.mp hkey, Members.get?_set_self, amountOr_num, hyvalue]
  · rcases List.mem_cons.mp hkey with rfl | hkey
    · rw [Members.get?_set_of_ne _ _ (by decide), Members.get?_erase_of_ne _ (by decide),
        Members.get?_set_of_ne _ _ (by decide), Members.get?_erase_self]
    · rw [List.mem_singleton.mp hkey, Members.get?_set_of_ne _ _ (by decide),
        Members.get?_erase_self]
  · have hne : ∀ key ∈ ["rotation", "scaleX", "scaleY"],
        "x" ≠ key ∧ "y" ≠ key ∧ "anchorX" ≠ key ∧ "anchorY" ≠ key := by decide
    obtain ⟨hx, hy, hanchorX, hanchorY⟩ := hne key hkey
    rw [Members.get?_set_of_ne _ _ hy, Members.get?_erase_of_ne _ hanchorY,
      Members.get?_set_of_ne _ _ hx, Members.get?_erase_of_ne _ hanchorX]

theorem touches_transformKeys {own : String} (hown : own ∈ placingKeys) {timeline : Timeline ℝ}
    (tracks : Tracks own timeline.keyframes) :
    timeline.touches transformKeys = true ↔ own ∈ transformKeys := by
  rw [tracks.touches (notMem_ownKeys hown), List.contains_iff_mem]

theorem free_of_touches {body : Body ℝ} (placing : body.Placing) {timeline : Timeline ℝ}
    (h : timeline ∈ body.timelines) (hplaces : timeline.touches transformKeys = true) :
    timeline.movesAnchor = false := by
  obtain ⟨own, hown, tracks⟩ := placing.tracks timeline h
  rw [Bool.eq_false_iff, ne_eq, movesAnchor_iff hown tracks]
  have hapart : ∀ own ∈ transformKeys, own ∉ anchorKeys.map (·.1) := by decide
  exact hapart own ((touches_transformKeys hown tracks).mp hplaces)

/-- A track that touches no transform key is one of the anchor. -/
theorem exists_anchor_of_tracks {own : String} (hown : own ∈ placingKeys)
    (hfree : own ∉ transformKeys) : ∃ key ∈ anchorKeys, key.1 = own :=
  List.mem_map.mp ((List.mem_append.mp hown).resolve_left hfree)

theorem exists_splitAtAnchor {body : Body ℝ} (placing : body.Placing) :
    ∃ wrapper inner, body.splitAtAnchor = .ok (wrapper, inner) ∧ SplitsInto body wrapper inner := by
  have hfiltered : ∀ entry ∈ body.attributes.filter fun entry => !transformKeys.contains entry.1,
      ∃ n, entry.2 = .num n :=
    fun entry h => placing.numbers entry (List.mem_of_mem_filter h)
  obtain ⟨attributes, hattributes, numbers, hopposite, hcleared, hstill⟩ :=
    exists_retargetAttributes hfiltered
  obtain ⟨kept, hkept, hopposes⟩ : ∃ kept,
      ((body.timelines.filter fun timeline => !timeline.touches transformKeys).mapM
        fun timeline => if timeline.movesAnchor then timeline.retarget else .ok timeline) =
          .ok kept ∧
      List.Forall₂ (fun timeline result => ∃ key ∈ anchorKeys, Opposes key timeline result)
        (body.timelines.filter fun timeline => !timeline.touches transformKeys) kept := by
    refine exists_mapM_eq_ok fun timeline h => ?_
    obtain ⟨hmem, hfree⟩ := List.mem_filter.mp h
    obtain ⟨own, hown, tracks⟩ := placing.tracks timeline hmem
    rw [Bool.not_eq_true', Bool.eq_false_iff, ne_eq, touches_transformKeys hown tracks] at hfree
    obtain ⟨key, hkey, rfl⟩ := exists_anchor_of_tracks hown hfree
    obtain ⟨result, hresult, hopposes⟩ := exists_retarget hkey tracks
    refine ⟨result, ?_, key, hkey, hopposes⟩
    rw [if_pos ((movesAnchor_iff hown tracks).mpr (List.mem_map_of_mem hkey)), hresult]
  refine ⟨_, ⟨attributes, kept⟩, ?_, rfl, numbers, fun key hkey => ?_, hcleared,
    fun key hkey => ?_, hopposes⟩
  · simp only [Body.splitAtAnchor, hattributes, hkept, ok_bind]
    rfl
  · have hanchor : ∀ key ∈ anchorKeys, (!transformKeys.contains key.1) = true := by decide
    rw [hopposite key hkey,
      Members.get?_filter (fun name => !transformKeys.contains name) (hanchor key hkey)]
  · have hplaces : ∀ key ∈ ["rotation", "scaleX", "scaleY"],
        (!transformKeys.contains key) = false := by decide
    rw [hstill key hkey,
      Members.get?_filter_of_not (fun name => !transformKeys.contains name) (hplaces key hkey)]

/-- Timelines that show the opposites under the other keys go on showing them. -/
theorem showing_opposed {curve : Option String → ℝ → ℝ} {percent : ℝ} {key : String × String}
    (hkey : key ∈ anchorKeys) {timelines results : List (Timeline ℝ)}
    (opposes : List.Forall₂ (fun timeline result => ∃ own ∈ anchorKeys,
      Opposes own timeline result) timelines results)
    {before? after? : Option (Value ℝ)} (h : amountOr 0 after? = -amountOr 0 before?) :
    amountOr 0 (showing curve percent key.2 results after?) =
      -amountOr 0 (showing curve percent key.1 timelines before?) := by
  rw [showing, showing]
  induction opposes generalizing before? after? with
  | nil => exact h
  | @cons timeline result timelines results hfirst _ ih =>
      obtain ⟨own, hown, hopposes⟩ := hfirst
      have hkeys : ∀ own ∈ anchorKeys, own.1 ∉ Keyframe.ownKeys ∧ own.2 ∉ Keyframe.ownKeys ∧
          ∀ key ∈ anchorKeys, own = key ∨ (own.1 ≠ key.1 ∧ own.2 ≠ key.2) := by decide
      obtain ⟨hfirst, hsecond, heq⟩ := hkeys own hown
      obtain ⟨n, m, hsample, hsample', hvalue⟩ := sample_rescaled hfirst hsecond hopposes.opposed
        hopposes.nonempty curve percent
      rw [List.foldl_cons, List.foldl_cons, hsample, hsample', Members.get?_cons, Members.get?_cons]
      rcases heq key hkey with rfl | ⟨hne, hne'⟩
      · rw [if_pos rfl, if_pos rfl, Option.some_or, Option.some_or]
        exact ih (by rw [amountOr_num, amountOr_num, hvalue, neg_one_mul])
      · rw [if_neg hne, if_neg hne', Members.get?_nil, Members.get?_nil, Option.none_or,
          Option.none_or]
        exact ih h

namespace SplitsInto

variable {turning : Turning} {curve : Option String → ℝ → ℝ} {percent : ℝ}
  {body wrapper inner : Body ℝ} (split : SplitsInto body wrapper inner) (placing : body.Placing)

include split placing

theorem placing_wrapper : wrapper.Placing := by
  rw [split.wrapper_eq]
  exact ⟨fun entry h => placing.numbers entry (List.mem_of_mem_filter h),
    fun timeline h => placing.tracks timeline (List.mem_of_mem_filter h)⟩

omit placing in
theorem placing_inner : inner.Placing := by
  refine ⟨split.numbers, fun timeline h => ?_⟩
  obtain ⟨before, -, key, hkey, hopposes⟩ := exists_of_mem_right split.opposes h
  have hplaces : ∀ key ∈ anchorKeys, key.2 ∈ placingKeys := by decide
  exact ⟨key.2, hplaces key hkey, hopposes.tracks⟩

/-- The group around the element is placed like the element, but for its anchor. -/
theorem placement_wrapper : wrapper.placement turning curve percent =
    body.placement turning curve percent := by
  refine placement_congr fun key hkey => ?_
  rw [get?_shown (split.placing_wrapper placing), get?_shown placing, split.wrapper_eq,
    Members.get?_filter transformKeys.contains (by rwa [List.contains_iff_mem]), showing_filter]
  intro timeline h hfree
  obtain ⟨own, hown, tracks⟩ := placing.tracks timeline h
  refine get?_sample_of_ne hown tracks ?_
  rintro rfl
  rw [(touches_transformKeys hown tracks).mpr hkey] at hfree
  cases hfree

/-- The element is moved by the opposite of its anchor. -/
theorem amount_inner {key : String × String} (hkey : key ∈ anchorKeys) :
    inner.amount curve percent key.2 0 = -body.amount curve percent key.1 0 := by
  -- timelines that place the element do not show its anchor
  have hanchors : showing curve percent key.1 body.timelines
      (Members.get? body.attributes key.1) = showing curve percent key.1
        (body.timelines.filter fun timeline => !timeline.touches transformKeys)
        (Members.get? body.attributes key.1) := by
    refine (showing_filter _ fun timeline h hplaces => ?_).symm
    obtain ⟨own, hown, tracks⟩ := placing.tracks timeline h
    refine get?_sample_of_ne hown tracks ?_
    rintro rfl
    rw [Bool.not_eq_false', touches_transformKeys hown tracks] at hplaces
    have hanchor : ∀ key ∈ anchorKeys, key.1 ∉ transformKeys := by decide
    exact hanchor key hkey hplaces
  rw [Body.amount, Body.amount, get?_shown split.placing_inner, get?_shown placing, hanchors]
  exact showing_opposed hkey split.opposes (split.opposite key hkey)

theorem placement_inner : inner.placement turning curve percent =
    translation (-body.amount curve percent "anchorX" 0)
      (-body.amount curve percent "anchorY" 0) := by
  rw [placement_eq_translation]
  · have hx : inner.amount curve percent "x" 0 = -body.amount curve percent "anchorX" 0 :=
      split.amount_inner placing (show ("anchorX", "x") ∈ anchorKeys by decide)
    have hy : inner.amount curve percent "y" 0 = -body.amount curve percent "anchorY" 0 :=
      split.amount_inner placing (show ("anchorY", "y") ∈ anchorKeys by decide)
    rw [hx, hy]
  · intro key hkey
    rw [get?_shown split.placing_inner, showing_of_none, split.still key hkey]
    intro timeline h
    obtain ⟨before, -, own, hown, hopposes⟩ := exists_of_mem_right split.opposes h
    have hplaces : ∀ own ∈ anchorKeys, own.2 ∈ placingKeys ∧
        ∀ key ∈ ["rotation", "scaleX", "scaleY"], own.2 ≠ key := by decide
    obtain ⟨hmem, hne⟩ := hplaces own hown
    exact get?_sample_of_ne hmem hopposes.tracks (hne key hkey)

/-- No timeline gets lost, and none is there twice. -/
theorem exists_moved : ∃ moved, List.Forall₂ PivotsTo body.timelines moved ∧
    (wrapper.timelines ++ inner.timelines).Perm moved := by
  have houtside : List.Forall₂ PivotsTo (body.timelines.filter (·.touches transformKeys))
      wrapper.timelines := by
    rw [split.wrapper_eq]
    refine List.forall₂_same.mpr fun timeline h => ?_
    obtain ⟨hmem, hplaces⟩ := List.mem_filter.mp h
    exact .stays (free_of_touches placing hmem hplaces)
  have hinside : List.Forall₂ PivotsTo
      (body.timelines.filter fun timeline => !timeline.touches transformKeys) inner.timelines := by
    refine split.opposes.imp fun timeline result h => ?_
    obtain ⟨key, hkey, hopposes⟩ := h
    exact .turns hkey hopposes
  obtain ⟨moved, hmoved, hperm⟩ := List.perm_comp_forall₂
    (List.filter_append_perm _ body.timelines).symm (List.rel_append houtside hinside)
  exact ⟨moved, hmoved, hperm.symm⟩

/-- What stands around the element has no anchor. -/
theorem pivot_outer (children : List (Element ℝ)) :
    Element.pivot ⟨.group, wrapper, some children, none⟩ =
      .ok ⟨none, ⟨.group, wrapper, some children, none⟩⟩ := by
  refine pivot_of_free (fun key hkey => ?_) fun timeline h => ?_
  · have hplaces : ∀ key ∈ anchorKeys, transformKeys.contains key.1 = false := by decide
    show Members.get? wrapper.attributes key.1 = none
    rw [split.wrapper_eq]
    exact Members.get?_filter_of_not transformKeys.contains (hplaces key hkey)
  · obtain ⟨hmem, hplaces⟩ : timeline ∈ body.timelines ∧
        timeline.touches transformKeys = true := by
      rw [split.wrapper_eq] at h
      exact List.mem_filter.mp h
    exact free_of_touches placing hmem hplaces

omit placing in
/-- The element itself has no anchor any more. -/
theorem pivot_inner (element : Element ℝ) :
    Element.pivot { element with body := inner } = .ok ⟨none, { element with body := inner }⟩ := by
  refine pivot_of_free split.cleared fun timeline h => ?_
  obtain ⟨before, -, key, hkey, hopposes⟩ := exists_of_mem_right split.opposes h
  have hapart : ∀ key ∈ anchorKeys, key.2 ∈ placingKeys ∧ key.2 ∉ anchorKeys.map (·.1) := by decide
  obtain ⟨hplaces, hanchor⟩ := hapart key hkey
  rw [Bool.eq_false_iff, ne_eq, movesAnchor_iff hplaces hopposes.tracks]
  exact hanchor

end SplitsInto

/-! ## Pivots -/

/-- **Pivots keep transforms.**  A group that has been given a transform can be pivoted.  At
every percent its content is placed by the transform as before; its timelines are all
still there, once each; content and name stay with the inner element; and pivoting what
is outside or inside again changes nothing. -/
theorem pivot_keeps_transform {children : List (Element ℝ)} {name? : Option String}
    {transform : Value ℝ} {clock : Clock ℝ} {placed : Element ℝ}
    (returned : (Element.group children name?).withTransform transform clock = .ok placed) :
    ∃ pivoted, placed.pivot = .ok pivoted ∧
      (∀ turning curve percent, pivoted.placement turning curve percent =
        placed.body.transform turning curve percent) ∧
      (∃ moved, List.Forall₂ PivotsTo placed.body.timelines moved ∧
        pivoted.timelines.Perm moved) ∧
      pivoted.inner.children? = some children ∧ pivoted.inner.name? = name? ∧
      pivoted.outer.pivot = .ok ⟨none, pivoted.outer⟩ ∧
      pivoted.inner.pivot = .ok ⟨none, pivoted.inner⟩ := by
  obtain ⟨placing, hchildren, hname⟩ := placing_withTransform returned
  by_cases hanchor : placed.body.hasAnchor = true
  · obtain ⟨wrapper, inner, hsplit, split⟩ := exists_splitAtAnchor placing
    have hpivot : placed.pivot = .ok ⟨some wrapper, { placed with body := inner }⟩ := by
      rw [Element.pivot, if_pos hanchor, hsplit]
      rfl
    refine ⟨_, hpivot, fun turning curve percent => ?_, split.exists_moved placing, hchildren,
      hname, split.pivot_outer placing _, split.pivot_inner placed⟩
    show wrapper.placement turning curve percent * inner.placement turning curve percent = _
    rw [split.placement_wrapper placing, split.placement_inner placing, Body.transform]
  · rw [Bool.not_eq_true] at hanchor
    have hpivot : placed.pivot =
        .ok ⟨none, { placed with body := placed.body.withoutAnchor }⟩ := by
      rw [Element.pivot, hanchor, if_neg Bool.false_ne_true]
    have hfree := (hasAnchor_eq_false.mp hanchor).2
    have hagain : Element.pivot { placed with body := placed.body.withoutAnchor } =
        .ok ⟨none, { placed with body := placed.body.withoutAnchor }⟩ :=
      pivot_of_free (fun key hkey => get?_anchor_withoutAnchor hkey) hfree
    refine ⟨_, hpivot, fun turning curve percent => placement_withoutAnchor placing hanchor,
      ⟨placed.body.timelines, ?_, .refl _⟩, hchildren, hname, hagain, hagain⟩
    exact List.forall₂_same.mpr fun timeline h => .stays (hfree timeline h)

/-! ## A wheel -/

/-- A transform with a position and an anchor. -/
def wheelTransform : Value ℝ :=
  .object [("p", .object [("k", .list [.num (.whole 10), .num (.whole 20)])]),
    ("a", .object [("k", .list [.num (.whole 3), .num (.whole 0)])])]

/-- An empty group with the transform. -/
def wheel : Element ℝ :=
  ⟨.group, ⟨[("x", .num (.whole 10)), ("y", .num (.whole 20)), ("anchorX", .num (.whole 3)),
    ("anchorY", .num (.whole 0))], []⟩, some [], some "wheel"⟩

theorem pivot_wheel :
    (Element.group [] (some "wheel")).withTransform wheelTransform Clock.steady = .ok wheel ∧
      ∃ pivoted, wheel.pivot = .ok pivoted ∧
        pivoted.inner = ⟨.group, ⟨[("x", .num (.whole (-3))), ("y", .num (.whole 0))], []⟩,
          some [], some "wheel"⟩ ∧
        (∀ turning curve percent, pivoted.placement turning curve percent =
          wheel.body.transform turning curve percent) ∧
        (∃ moved, List.Forall₂ PivotsTo wheel.body.timelines moved ∧
          pivoted.timelines.Perm moved) ∧
        pivoted.inner.children? = some [] ∧ pivoted.inner.name? = some "wheel" ∧
        pivoted.outer.pivot = .ok ⟨none, pivoted.outer⟩ ∧
        pivoted.inner.pivot = .ok ⟨none, pivoted.inner⟩ := by
  have returned : (Element.group [] (some "wheel")).withTransform wheelTransform Clock.steady =
      .ok wheel := rfl
  obtain ⟨pivoted, hpivot, hrest⟩ := pivot_keeps_transform returned
  have hinner : pivoted.inner = ⟨.group, ⟨[("x", .num (.whole (-3))), ("y", .num (.whole 0))], []⟩,
      some [], some "wheel"⟩ := by
    cases hpivot
    rfl
  exact ⟨returned, pivoted, hpivot, hinner, hrest⟩

end MotionScene
