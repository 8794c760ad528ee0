import MotionScene.Proofs.Binary64.Whole
import MotionScene.Proofs.Text.Compact

/-!
# Compact text is canonical

A number that is finite, or whole and equal to a finite one, is written as the multiple of a
millionth that is nearest to its exact value, and no other canonical text names that multiple
(`compactNumber_canonical`).  A text is canonical when it has no zero that could be left out and no
sign on zero.  Such a text is what is written for the number of units that its digits make up
(`isCanonical_iff`), so two canonical texts that name one number are the same.
-/

namespace MotionScene

namespace Text

/-! ## Canonical text -/

/-- The parts of a plain decimal text. -/
structure Plain where
  negative : Bool
  whole : List ℕ
  places : List ℕ

/-- A sign, the digits before the point, and the point with the digits after it, if any. -/
def Plain.text (plain : Plain) : List Char :=
  (if plain.negative then ['-'] else []) ++ (plain.whole.map Nat.digitChar ++
    if plain.places.isEmpty then [] else '.' :: plain.places.map Nat.digitChar)

/-- Nothing can be left out, and zero has no sign. -/
structure Plain.IsCanonical (places : ℕ) (plain : Plain) : Prop where
  whole_lt : ∀ d ∈ plain.whole, d < 10
  whole_ne_nil : plain.whole ≠ []
  no_leading_zero : plain.whole.head? = some 0 → plain.whole = [0]
  places_lt : ∀ d ∈ plain.places, d < 10
  length_places_le : plain.places.length ≤ places
  no_final_zero : plain.places.getLast? ≠ some 0
  no_negative_zero : plain.negative = true → plain.whole = [0] → plain.places ≠ []

/-- A text of the canonical form with at most some places after the point. -/
def IsCanonical (places : ℕ) (text : List Char) : Prop :=
  ∃ plain : Plain, plain.IsCanonical places ∧ text = plain.text

/-! ## Digits of a number -/

theorem getLast?_placeDigits (places n : ℕ) : (placeDigits places n).getLast? ≠ some 0 := by
  induction places generalizing n with
  | zero => simp [placeDigits]
  | succ places ih =>
      simp only [placeDigits]
      split
      · simp
      · rename_i hkept
        intro hlast
        cases hlater : placeDigits places (n % 10 ^ places) with
        | nil =>
            rw [hlater, List.getLast?_singleton, Option.some.injEq] at hlast
            exact hkept ⟨hlast, hlater⟩
        | cons d later =>
            rw [hlater, List.getLast?_cons_cons, ← hlater] at hlast
            exact ih _ hlast

theorem placeDigits_zero (places : ℕ) : placeDigits places 0 = [] := by
  induction places with
  | zero => rfl
  | succ places ih => simp [placeDigits, ih]

theorem ofDigits_singleton (d : ℕ) : ofDigits [d] = d := by
  simp [ofDigits]

theorem ofDigits_lt {digits : List ℕ} (h : ∀ d ∈ digits, d < 10) :
    ofDigits digits < 10 ^ digits.length := by
  induction digits using List.reverseRecOn with
  | nil => simp [ofDigits]
  | append_singleton digits d ih =>
      rw [List.forall_mem_append, List.forall_mem_singleton] at h
      have hearlier := ih h.1
      rw [ofDigits_append, ofDigits_singleton, List.length_append, List.length_singleton, pow_succ]
      have := h.2
      omega

/-- Digits without a superfluous zero in front are those of the number that they make up. -/
theorem wholeDigits_ofDigits {digits : List ℕ} (hlt : ∀ d ∈ digits, d < 10) (hne : digits ≠ [])
    (hhead : digits.head? = some 0 → digits = [0]) : wholeDigits (ofDigits digits) = digits := by
  induction digits using List.reverseRecOn with
  | nil => exact absurd rfl hne
  | append_singleton digits d ih =>
      rw [List.forall_mem_append, List.forall_mem_singleton] at hlt
      rw [ofDigits_append, ofDigits_singleton, List.length_singleton, pow_one]
      rcases eq_or_ne digits [] with rfl | hdigits
      · rw [wholeDigits, if_pos (by simpa [ofDigits] using hlt.2)]
        simp [ofDigits]
      · have hnonzero : digits.head? ≠ some 0 := by
          intro hzero
          have hone := hhead (by rw [List.head?_append_of_ne_nil _ hdigits, hzero])
          have := congrArg List.length hone
          have hpos := List.length_pos_of_ne_nil hdigits
          rw [List.length_append, List.length_singleton, List.length_singleton] at this
          omega
        have hback := ih hlt.1 hdigits fun h => absurd h hnonzero
        have hpos : ofDigits digits ≠ 0 := by
          intro hzero
          rw [hzero, wholeDigits, if_pos (by norm_num)] at hback
          exact hnonzero (by rw [← hback]; rfl)
        have := hlt.2
        rw [wholeDigits, if_neg (by omega),
          show (ofDigits digits * 10 + d) / 10 = ofDigits digits by omega,
          show (ofDigits digits * 10 + d) % 10 = d by omega, hback]

/-- Digits after the point that do not end in zero are those of the units they make up. -/
theorem placeDigits_ofDigits {places : ℕ} {digits : List ℕ} (hlt : ∀ d ∈ digits, d < 10)
    (hlength : digits.length ≤ places) (hlast : digits.getLast? ≠ some 0) :
    placeDigits places (ofDigits digits * 10 ^ (places - digits.length)) = digits := by
  induction places generalizing digits with
  | zero =>
      rw [List.eq_nil_of_length_eq_zero (Nat.le_zero.mp hlength)]
      rfl
  | succ places ih =>
      cases digits with
      | nil => simp [ofDigits, placeDigits_zero]
      | cons d later =>
          rw [List.forall_mem_cons] at hlt
          rw [List.length_cons, Nat.succ_le_succ_iff] at hlength
          have hlater := ih hlt.2 hlength fun h => hlast (by
            rw [List.getLast?_cons, h]
            rfl)
          have hsplit : ofDigits (d :: later) * 10 ^ (places + 1 - (d :: later).length) =
              ofDigits later * 10 ^ (places - later.length) + 10 ^ places * d := by
            rw [← List.singleton_append, ofDigits_append, List.singleton_append, List.length_cons,
              Nat.add_sub_add_right, add_mul, mul_assoc, ← pow_add, Nat.add_sub_cancel' hlength]
            simp [ofDigits]
            ring
          have hbelow : ofDigits later * 10 ^ (places - later.length) < 10 ^ places := by
            calc ofDigits later * 10 ^ (places - later.length)
                < 10 ^ later.length * 10 ^ (places - later.length) :=
                  Nat.mul_lt_mul_of_pos_right (ofDigits_lt hlt.2) (by positivity)
              _ = 10 ^ places := by rw [← pow_add, Nat.add_sub_cancel' hlength]
          have hkept : ¬(d = 0 ∧ later = []) := by
            rintro ⟨rfl, rfl⟩
            exact hlast rfl
          simp only [placeDigits, hsplit, Nat.add_mul_mod_self_left, Nat.mod_eq_of_lt hbelow,
            Nat.add_mul_div_left _ _ (by positivity : 0 < 10 ^ places), Nat.div_eq_of_lt hbelow,
            zero_add, hlater, hkept, if_false]

/-! ## Canonical text and numbers of units -/

/-- What is written for a number of units is canonical. -/
theorem isCanonical_unitsText (places : ℕ) (n : ℤ) : IsCanonical places (unitsText places n) := by
  refine ⟨⟨decide (n < 0), wholeDigits (n.natAbs / 10 ^ places),
    placeDigits places (n.natAbs % 10 ^ places)⟩, ?_, unitsText_eq places n⟩
  have hmod : n.natAbs % 10 ^ places < 10 ^ places := Nat.mod_lt _ (by positivity)
  exact {
    whole_lt := lt_of_mem_wholeDigits _
    whole_ne_nil := wholeDigits_ne_nil _
    no_leading_zero := head?_wholeDigits _
    places_lt := lt_of_mem_placeDigits hmod
    length_places_le := length_placeDigits_le _ _
    no_final_zero := getLast?_placeDigits _ _
    no_negative_zero := by
      intro hneg hwhole hplaces
      dsimp only at hneg hwhole hplaces
      have hunits := ofDigits_units places n.natAbs
      rw [hwhole, hplaces] at hunits
      have hzero : n.natAbs = 0 := by simpa [ofDigits] using hunits.symm
      have := of_decide_eq_true hneg
      omega }

namespace Plain

variable (places : ℕ) (plain : Plain)

/-- The number of units that all the digits make up. -/
def magnitude : ℕ :=
  ofDigits plain.places * 10 ^ (places - plain.places.length) + 10 ^ places * ofDigits plain.whole

def units : ℤ :=
  if plain.negative then -plain.magnitude places else plain.magnitude places

theorem natAbs_units : (plain.units places).natAbs = plain.magnitude places := by
  unfold units
  split <;> omega

namespace IsCanonical

variable {places : ℕ} {plain : Plain} (h : plain.IsCanonical places)

include h

theorem places_below :
    ofDigits plain.places * 10 ^ (places - plain.places.length) < 10 ^ places := by
  calc ofDigits plain.places * 10 ^ (places - plain.places.length)
      < 10 ^ plain.places.length * 10 ^ (places - plain.places.length) :=
        Nat.mul_lt_mul_of_pos_right (ofDigits_lt h.places_lt) (by positivity)
    _ = 10 ^ places := by rw [← pow_add, Nat.add_sub_cancel' h.length_places_le]

theorem wholeDigits_magnitude :
    wholeDigits (plain.magnitude places / 10 ^ places) = plain.whole := by
  rw [magnitude, Nat.add_mul_div_left _ _ (by positivity), Nat.div_eq_of_lt h.places_below,
    zero_add]
  exact wholeDigits_ofDigits h.whole_lt h.whole_ne_nil h.no_leading_zero

theorem placeDigits_magnitude :
    placeDigits places (plain.magnitude places % 10 ^ places) = plain.places := by
  rw [magnitude, Nat.add_mul_mod_self_left, Nat.mod_eq_of_lt h.places_below]
  exact placeDigits_ofDigits h.places_lt h.length_places_le h.no_final_zero

theorem units_neg_iff : plain.units places < 0 ↔ plain.negative = true := by
  unfold units
  cases hnegative : plain.negative with
  | false => simp
  | true =>
      have hne : plain.magnitude places ≠ 0 := by
        intro hzero
        have hwhole := h.wholeDigits_magnitude
        have hplaces := h.placeDigits_magnitude
        rw [hzero, Nat.zero_div, wholeDigits, if_pos (by norm_num)] at hwhole
        rw [hzero, Nat.zero_mod, placeDigits_zero] at hplaces
        exact h.no_negative_zero hnegative hwhole.symm hplaces.symm
      simp only [if_true, iff_true]
      omega

/-- A canonical text is what is written for the number of units that its digits make up. -/
theorem text_eq : plain.text = unitsText places (plain.units places) := by
  rw [unitsText_eq, natAbs_units, h.wholeDigits_magnitude, h.placeDigits_magnitude]
  simp only [h.units_neg_iff, Bool.decide_eq_true]
  rfl

end IsCanonical

end Plain

theorem isCanonical_iff {places : ℕ} {text : List Char} :
    IsCanonical places text ↔ ∃ n : ℤ, text = unitsText places n := by
  constructor
  · rintro ⟨plain, hcanonical, rfl⟩
    exact ⟨_, hcanonical.text_eq⟩
  · rintro ⟨n, rfl⟩
    exact isCanonical_unitsText places n

theorem unitsText_injective (places : ℕ) : Function.Injective (unitsText places) := by
  intro m n h
  have hread := (real?_unitsText places m).symm.trans (h ▸ real?_unitsText places n)
  have hvalue := Option.some.inj hread
  rw [div_left_inj' (by positivity)] at hvalue
  exact_mod_cast hvalue

/-! ## Numbers -/

/-- The exact value of a number that is finite, or whole and equal to a finite one. -/
inductive IsExactly : Number Float → ℝ → Prop
  | real {x : Float} : Binary64.special? x = none → IsExactly (.real x) (Binary64.exact x)
  | whole {n : ℤ} {x : Float} : Binary64.special? x = none → Binary64.exact x = n →
      IsExactly (.whole n) n

/-- A number is written as the nearest number of units. -/
theorem compactNumber_eq {number : Number Float} {v : ℝ} (h : IsExactly number v) :
    compactNumber number = .ok (String.ofList (unitsText 6 (nearestInt (v * 10 ^ 6)))) := by
  obtain ⟨x, htoReal, hfinite, rfl⟩ : ∃ x, number.toReal = .ok x ∧
      Binary64.special? x = none ∧ Binary64.exact x = v := by
    cases h with
    | real hfinite => exact ⟨_, rfl, hfinite, rfl⟩
    | @whole n y hfinite hexact =>
        obtain ⟨x, hx, hspecial, hvalue⟩ := Binary64.exists_ofInt? ⟨y, hfinite, hexact⟩
        have hconvert : Scalar.ofInt? n = some x := hx
        exact ⟨x, by simp only [Number.toReal, hconvert], hspecial, hvalue⟩
  rw [compactNumber, htoReal]
  show Except.ok (compact x) = _
  rw [compact_eq hfinite, ← Binary64.decimalUnits_eq 6 x]
  rfl

/-- The text of a number names the multiple of a millionth that is nearest to it, in the one
canonical way, and a number has the same text as another when they are rounded to the same
multiple. -/
theorem compactNumber_canonical {number : Number Float} {v : ℝ} (h : IsExactly number v) :
    ∃ (units : ℤ) (text : String), IsNearest (v * 10 ^ 6) units ∧
      compactNumber number = .ok text ∧
      real? text.toList = some (units / 10 ^ 6 : ℝ) ∧
      IsCanonical 6 text.toList ∧
      (∀ other, IsCanonical 6 other → real? other = some (units / 10 ^ 6 : ℝ) →
        other = text.toList) ∧
      ∀ {other : Number Float} {w : ℝ}, IsExactly other w →
        (compactNumber other = .ok text ↔ IsNearest (w * 10 ^ 6) units) := by
  refine ⟨nearestInt (v * 10 ^ 6), String.ofList (unitsText 6 (nearestInt (v * 10 ^ 6))),
    isNearest_nearestInt _, compactNumber_eq h, ?_, ?_, ?_, ?_⟩
  · rw [String.toList_ofList]
    exact real?_unitsText 6 _
  · rw [String.toList_ofList]
    exact isCanonical_unitsText 6 _
  · intro other hcanonical hreads
    obtain ⟨n, rfl⟩ := isCanonical_iff.mp hcanonical
    rw [real?_unitsText, Option.some.injEq, div_left_inj' (by positivity)] at hreads
    rw [String.toList_ofList, Int.cast_injective hreads]
  · intro other w hother
    rw [compactNumber_eq hother, isNearest_iff, Except.ok.injEq, String.ofList_inj,
      (unitsText_injective 6).eq_iff]

/-- A negative number that is rounded to zero is written without a sign, as are all that are
rounded to zero; the greatest power of ten that is a floating-point number keeps its zeros. -/
theorem compactNumber_tiny_and_large :
    IsExactly (.real (Float.ofBits 0xBE7AD7F29ABCAF48))
        (Binary64.exact (Float.ofBits 0xBE7AD7F29ABCAF48)) ∧
      (∀ {other : Number Float} {w : ℝ}, IsExactly other w →
        (compactNumber other = .ok "0" ↔ IsNearest (w * 10 ^ 6) 0)) ∧
      IsExactly (.whole (10 ^ 22)) ((10 ^ 22 : ℤ) : ℝ) ∧
      IsCanonical 6 "10000000000000000000000".toList ∧
      ∀ other, IsCanonical 6 other → real? other = some (10 ^ 22) →
        other = "10000000000000000000000".toList := by
  have htiny : IsExactly (.real (Float.ofBits 0xBE7AD7F29ABCAF48))
      (Binary64.exact (Float.ofBits 0xBE7AD7F29ABCAF48)) := .real (by decide +kernel)
  have hlarge : IsExactly (.whole (10 ^ 22)) ((10 ^ 22 : ℤ) : ℝ) := by
    have hparts : Binary64.special? (Float.ofBits 0x4480F0CF064DD592) = none ∧
      Binary64.parts (Float.ofBits 0x4480F0CF064DD592) = ⟨false, 2 * 5 ^ 22, 21⟩ := by
      decide +kernel
    refine .whole hparts.1 ?_
    rw [Binary64.exact, hparts.2, Binary64.Parts.value]
    norm_num
  obtain ⟨units, text, -, htext, hreads, -, -, hsame⟩ := compactNumber_canonical htiny
  obtain ⟨units', text', -, htext', hreads', hcanonical, hunique, -⟩ :=
    compactNumber_canonical hlarge
  have hzero : text = "0" := Except.ok.inj (htext.symm.trans rfl)
  have hpower : text' = "10000000000000000000000" := Except.ok.inj (htext'.symm.trans rfl)
  have hunits : units = 0 := by
    have hread := real?_unitsText 6 0
    rw [hzero, show "0".toList = unitsText 6 0 from rfl, hread, Option.some.injEq,
      div_left_inj' (by positivity)] at hreads
    exact_mod_cast hreads.symm
  have hunits' : (units' / 10 ^ 6 : ℝ) = 10 ^ 22 := by
    have hread := real?_unitsText 6 (10 ^ 28)
    rw [hpower, show "10000000000000000000000".toList = unitsText 6 (10 ^ 28) from rfl, hread,
      Option.some.injEq] at hreads'
    rw [← hreads']
    norm_num
  rw [hpower] at hcanonical hunique
  rw [hunits'] at hunique
  refine ⟨htiny, fun hother => ?_, hlarge, hcanonical, hunique⟩
  rw [← hunits, ← hzero]
  exact hsame hother

end Text

end MotionScene
