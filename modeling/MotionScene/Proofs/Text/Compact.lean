import MotionScene.Proofs.Exact
import MotionScene.Text.Compact
import MotionScene.Text.Numeral

/-!
# Compact text read back

Compact text is a plain numeral: a sign, the digits of the whole part, and after a point the
digits of the rest down to the last one that is not zero.  Read as a numeral it names the
number of units that it was written for (`real?_unitsText`).
-/

namespace MotionScene.Text

/-- The real number that a text names, if it names a finite one. -/
noncomputable def real? (text : List Char) : Option ℝ :=
  match numeral? text with
  | some (.finite negative digits exponent) =>
    some (realOfNumeral (.finite negative digits exponent))
  | _ => none

/-! ## Digits -/

theorem ofDigits_append (digits later : List ℕ) :
    ofDigits (digits ++ later) = ofDigits digits * 10 ^ later.length + ofDigits later := by
  induction later using List.reverseRecOn with
  | nil => simp [ofDigits]
  | append_singleton later d ih =>
      rw [← List.append_assoc]
      simp only [ofDigits, List.foldl_append, List.foldl_cons, List.foldl_nil] at ih ⊢
      rw [ih, List.length_append, List.length_singleton, pow_succ]
      ring

/-- The decimal digits of a natural number; zero has one. -/
def wholeDigits (n : ℕ) : List ℕ :=
  if n < 10 then [n] else wholeDigits (n / 10) ++ [n % 10]
decreasing_by omega

theorem toDigits_eq (n : ℕ) : Nat.toDigits 10 n = (wholeDigits n).map Nat.digitChar := by
  induction n using wholeDigits.induct with
  | case1 n h => rw [wholeDigits, if_pos h, Nat.toDigits_of_lt_base h]; rfl
  | case2 n h ih =>
      rw [wholeDigits, if_neg h, Nat.toDigits_eq_if (by norm_num), if_neg h, ih, List.map_append]
      rfl

theorem wholeDigits_ne_nil (n : ℕ) : wholeDigits n ≠ [] := by
  rw [wholeDigits]
  split
  · exact List.cons_ne_nil _ _
  · exact List.append_ne_nil_of_right_ne_nil _ (List.cons_ne_nil _ _)

theorem lt_of_mem_wholeDigits (n : ℕ) : ∀ d ∈ wholeDigits n, d < 10 := by
  induction n using wholeDigits.induct with
  | case1 n h =>
      intro d hd
      rw [wholeDigits, if_pos h, List.mem_singleton] at hd
      exact hd ▸ h
  | case2 n h ih =>
      intro d hd
      rw [wholeDigits, if_neg h, List.mem_append, List.mem_singleton] at hd
      rcases hd with hd | rfl
      · exact ih d hd
      · exact Nat.mod_lt n (by norm_num)

theorem ofDigits_wholeDigits (n : ℕ) : ofDigits (wholeDigits n) = n := by
  induction n using wholeDigits.induct with
  | case1 n h => rw [wholeDigits, if_pos h]; simp [ofDigits]
  | case2 n h ih =>
      rw [wholeDigits, if_neg h, ofDigits_append, ih]
      simp [ofDigits]
      omega

theorem head?_wholeDigits (n : ℕ) (h : (wholeDigits n).head? = some 0) : wholeDigits n = [0] := by
  induction n using wholeDigits.induct with
  | case1 n hlt =>
      rw [wholeDigits, if_pos hlt, List.head?_cons, Option.some.injEq] at h
      rw [wholeDigits, if_pos hlt, h]
  | case2 n hge ih =>
      rw [wholeDigits, if_neg hge, List.head?_append_of_ne_nil _ (wholeDigits_ne_nil _)] at h
      have hzero := congrArg ofDigits (ih h)
      rw [ofDigits_wholeDigits] at hzero
      have : n / 10 = 0 := hzero
      omega

/-- The digits after the point, down to the last one that is not zero. -/
def placeDigits : (places n : ℕ) → List ℕ
  | 0, _ => []
  | places + 1, n =>
    let later := placeDigits places (n % 10 ^ places)
    if n / 10 ^ places = 0 ∧ later = [] then [] else n / 10 ^ places :: later

theorem decimals_eq (places n : ℕ) :
    decimals places n = (placeDigits places n).map Nat.digitChar := by
  induction places generalizing n with
  | zero => rfl
  | succ places ih =>
      simp only [decimals, placeDigits, ih, Nat.pow_eq, List.isEmpty_map, Bool.and_eq_true,
        decide_eq_true_eq, List.isEmpty_iff]
      split <;> rfl

theorem lt_of_mem_placeDigits {places n : ℕ} (h : n < 10 ^ places) :
    ∀ d ∈ placeDigits places n, d < 10 := by
  induction places generalizing n with
  | zero => exact fun d hd => absurd hd List.not_mem_nil
  | succ places ih =>
      have hlater := ih (Nat.mod_lt n (by positivity : 0 < 10 ^ places))
      have hdigit : n / 10 ^ places < 10 := by
        rw [pow_succ] at h
        exact Nat.div_lt_of_lt_mul h
      simp only [placeDigits]
      split
      · exact fun d hd => absurd hd List.not_mem_nil
      · exact List.forall_mem_cons.mpr ⟨hdigit, hlater⟩

theorem length_placeDigits_le (places n : ℕ) : (placeDigits places n).length ≤ places := by
  induction places generalizing n with
  | zero => exact le_rfl
  | succ places ih =>
      simp only [placeDigits]
      split
      · exact Nat.zero_le _
      · exact Nat.succ_le_succ (ih _)

/-- The digits after the point, with the zeros that were left out, make up the number. -/
theorem ofDigits_placeDigits {places n : ℕ} (h : n < 10 ^ places) :
    ofDigits (placeDigits places n) * 10 ^ (places - (placeDigits places n).length) = n := by
  induction places generalizing n with
  | zero => rw [Nat.lt_one_iff.mp h]; rfl
  | succ places ih =>
      have hlater := ih (Nat.mod_lt n (by positivity : 0 < 10 ^ places))
      have hlength := length_placeDigits_le places (n % 10 ^ places)
      have hsplit := Nat.div_add_mod n (10 ^ places)
      simp only [placeDigits]
      split
      · rename_i hzero
        rw [hzero.2] at hlater
        rw [← hsplit, hzero.1, ← hlater]
        simp [ofDigits]
      · rw [List.length_cons, Nat.add_sub_add_right, ← List.singleton_append, ofDigits_append,
          add_mul, hlater, mul_assoc, ← pow_add, Nat.add_sub_cancel' hlength]
        calc ofDigits [n / 10 ^ places] * 10 ^ places + n % 10 ^ places
            = n / 10 ^ places * 10 ^ places + n % 10 ^ places := by simp [ofDigits]
          _ = n := by rw [mul_comm, hsplit]

/-! ## Numbers of units -/

/-- A number of units is written as a plain numeral. -/
theorem unitsText_eq (places : ℕ) (n : ℤ) :
    unitsText places n = (if decide (n < 0) then ['-'] else []) ++
      ((wholeDigits (n.natAbs / 10 ^ places)).map Nat.digitChar ++
        if (placeDigits places (n.natAbs % 10 ^ places)).isEmpty then []
        else '.' :: (placeDigits places (n.natAbs % 10 ^ places)).map Nat.digitChar) := by
  cases n with
  | ofNat n =>
    simp [unitsText, unsignedText, toDigits_eq, decimals_eq]
  | negSucc n =>
    simp [unitsText, unsignedText, toDigits_eq, decimals_eq, Int.negSucc_lt_zero]

/-- All the digits of a number of units make it up, as far as zeros are not left out. -/
theorem ofDigits_units (places n : ℕ) :
    ofDigits (wholeDigits (n / 10 ^ places) ++ placeDigits places (n % 10 ^ places)) *
      10 ^ (places - (placeDigits places (n % 10 ^ places)).length) = n := by
  have hlength := length_placeDigits_le places (n % 10 ^ places)
  rw [ofDigits_append, ofDigits_wholeDigits, add_mul, mul_assoc, ← pow_add,
    Nat.add_sub_cancel' hlength, ofDigits_placeDigits (Nat.mod_lt n (by positivity))]
  exact Nat.div_add_mod' n (10 ^ places)

/-- Compact text names the number of units that it was written for. -/
theorem real?_unitsText (places : ℕ) (n : ℤ) :
    real? (unitsText places n) = some (n / 10 ^ places : ℝ) := by
  have hread := numeral?_plain (decide (n < 0))
    (lt_of_mem_wholeDigits (n.natAbs / 10 ^ places))
    (lt_of_mem_placeDigits (Nat.mod_lt n.natAbs (by positivity : 0 < 10 ^ places)))
    (wholeDigits_ne_nil _)
  have hunits := ofDigits_units places n.natAbs
  have hlength := length_placeDigits_le places (n.natAbs % 10 ^ places)
  rw [← unitsText_eq] at hread
  generalize placeDigits places (n.natAbs % 10 ^ places) = decimals at hread hunits hlength
  generalize ofDigits (wholeDigits (n.natAbs / 10 ^ places) ++ decimals) = digits at hread hunits
  -- the zeros that are left out at the end are a power of ten
  have hvalue : (digits : ℝ) * 10 ^ (-decimals.length : ℤ) = n.natAbs / 10 ^ places := by
    rw [← hunits, zpow_neg, zpow_natCast, ← div_eq_mul_inv, div_eq_div_iff (by positivity)
      (by positivity), Nat.cast_mul, mul_assoc]
    push_cast
    rw [← pow_add, Nat.sub_add_cancel hlength]
  have hsign : (if decide (n < 0) then -1 else 1 : ℝ) * n.natAbs = n := by
    rw [Nat.cast_natAbs]
    by_cases h : n < 0
    · simp [h, abs_of_neg h]
    · simp [h, abs_of_nonneg (not_lt.mp h)]
  rw [real?, hread]
  show some _ = _
  rw [realOfNumeral, mul_assoc, hvalue, ← mul_div_assoc, hsign]

/-- The characters of compact text. -/
theorem mem_unitsText {places : ℕ} {n : ℤ} {c : Char} (h : c ∈ unitsText places n) :
    c.isDigit = true ∨ c = '-' ∨ c = '.' := by
  have hdigit : ∀ {digits : List ℕ}, (∀ d ∈ digits, d < 10) →
      c ∈ digits.map Nat.digitChar → c.isDigit = true := by
    intro digits hdigits hc
    obtain ⟨d, hd, rfl⟩ := List.mem_map.mp hc
    exact (by decide : ∀ d : Fin 10, (Nat.digitChar d).isDigit = true) ⟨d, hdigits d hd⟩
  rw [unitsText_eq, List.mem_append, List.mem_append] at h
  rcases h with h | h | h
  · split at h
    · exact .inr (.inl (List.mem_singleton.mp h))
    · exact absurd h List.not_mem_nil
  · exact .inl (hdigit (lt_of_mem_wholeDigits _) h)
  · split at h
    · exact absurd h List.not_mem_nil
    · rcases List.mem_cons.mp h with rfl | h
      · exact .inr (.inr rfl)
      · exact .inl (hdigit (lt_of_mem_placeDigits (Nat.mod_lt _ (by positivity))) h)

theorem unitsText_ne_nil (places : ℕ) (n : ℤ) : unitsText places n ≠ [] := by
  rw [unitsText_eq]
  refine List.append_ne_nil_of_right_ne_nil _ (List.append_ne_nil_of_left_ne_nil ?_ _)
  exact fun h => wholeDigits_ne_nil _ (List.map_eq_nil_iff.mp h)

theorem compact_eq {R : Type} [Scalar R] {x : R} (h : Scalar.special? x = none) :
    compact x = String.ofList (unitsText compactPlaces (Scalar.decimalUnits compactPlaces x)) := by
  rw [compact, h]

end MotionScene.Text
