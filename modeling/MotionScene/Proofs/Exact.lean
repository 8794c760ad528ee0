import Mathlib.Analysis.SpecialFunctions.Pow.Real
import Mathlib.Analysis.SpecialFunctions.Trigonometric.Basic
import MotionScene.Number

/-!
# Exact arithmetic

Over the real numbers all operations of a scene are exact and no number is too large.
A number of a document then has a `value`, and sums, quotients and comparisons are those
of the values.
-/

namespace MotionScene

noncomputable section

open scoped Classical in
/-- The whole number nearest to a real one, ties to even. -/
def nearestInt (x : ℝ) : ℤ :=
  if Int.fract x < 1 / 2 then ⌊x⌋
  else if 1 / 2 < Int.fract x then ⌊x⌋ + 1
  else if Even ⌊x⌋ then ⌊x⌋ else ⌊x⌋ + 1

/-- The real number that a numeral writes; a special name writes none and is read as zero. -/
def realOfNumeral : Numeral → ℝ
  | .finite negative digits exponent =>
    (if negative then -1 else 1) * digits * (10 : ℝ) ^ exponent
  | .special _ => 0

open scoped Classical in
instance : Scalar ℝ where
  beq x y := decide (x = y)
  decidableLT := inferInstance
  decidableLE := inferInstance
  special? _ := none
  ofNat n := (n : ℝ)
  ofInt? n := some (n : ℝ)
  quotient? m n := some ((m : ℝ) / n)
  ofNumeral := realOfNumeral
  magnitude x := |x|
  floor x := ⌊x⌋
  decimalUnits places x := nearestInt (x * 10 ^ places)
  fraction := Int.fract
  hypotenuse x y := √(x ^ 2 + y ^ 2)
  power x y := x ^ y
  pi := Real.pi
  sine := Real.sin
  cosine := Real.cos

end

instance partialEquivBEqReal : @PartialEquivBEq ℝ Scalar.toBEq where
  symm h := decide_eq_true (of_decide_eq_true h).symm
  trans h h' := decide_eq_true ((of_decide_eq_true h).trans (of_decide_eq_true h'))

/-! ## Scalars -/

theorem scalar_literal (n : ℕ) : (Scalar.literal n : OfNat ℝ n).ofNat = (n : ℝ) := rfl

theorem scalar_zero : (Scalar.literal 0 : OfNat ℝ 0).ofNat = (0 : ℝ) := Nat.cast_zero

theorem beq_zero (x : ℝ) : (x == (Scalar.literal 0 : OfNat ℝ 0).ofNat) = decide (x = 0) := by
  rw [scalar_zero]
  rfl

theorem ite_beq_zero {α : Type} (x : ℝ) (zero other : α) :
    (if x == (Scalar.literal 0 : OfNat ℝ 0).ofNat then zero else other) =
      if x = 0 then zero else other := by
  simp only [beq_zero, decide_eq_true_iff]

@[simp] theorem greatest_eq_max (x y : ℝ) : Scalar.greatest x y = max x y := by
  unfold Scalar.greatest
  split
  · rename_i h
    exact (max_eq_right (le_of_lt h)).symm
  · rename_i h
    exact (max_eq_left (not_lt.mp h)).symm

@[simp] theorem least_eq_min (x y : ℝ) : Scalar.least x y = min x y := by
  unfold Scalar.least
  split
  · rename_i h
    exact (min_eq_right (le_of_lt h)).symm
  · rename_i h
    exact (min_eq_left (not_lt.mp h)).symm

theorem clampUnit_eq (x : ℝ) : Scalar.clampUnit x = min 1 (max 0 x) := by
  rw [Scalar.clampUnit, least_eq_min, greatest_eq_max, scalar_literal, scalar_literal,
    Nat.cast_one, Nat.cast_zero]

theorem clampUnit_mem (x : ℝ) : Scalar.clampUnit x ∈ Set.Icc 0 1 := by
  rw [clampUnit_eq]
  exact ⟨le_min zero_le_one (le_max_left 0 x), min_le_left 1 _⟩

theorem clampUnit_of_mem {x : ℝ} (h : x ∈ Set.Icc 0 1) : Scalar.clampUnit x = x := by
  rw [clampUnit_eq, max_eq_right h.1, min_eq_right h.2]

theorem truncate_eq (x : ℝ) : Scalar.truncate x = if x < 0 then ⌈x⌉ else ⌊x⌋ := by
  rw [Scalar.truncate, scalar_zero, ← neg_neg ⌈x⌉, ← Int.floor_neg]
  rfl

/-! ## Rounding to the nearest whole number -/

theorem nearestInt_intCast (n : ℤ) : nearestInt n = n := by
  rw [nearestInt, Int.fract_intCast, Int.floor_intCast, if_pos (by norm_num)]

theorem nearestInt_neg (x : ℝ) : nearestInt (-x) = -nearestInt x := by
  rcases eq_or_ne (Int.fract x) 0 with h | h
  · -- a whole number is its own rounding
    obtain ⟨n, rfl⟩ : ∃ n : ℤ, x = n := ⟨⌊x⌋, by rw [← Int.floor_add_fract x, h]; simp⟩
    rw [← Int.cast_neg, nearestInt_intCast, nearestInt_intCast]
  · have hfract : Int.fract (-x) = 1 - Int.fract x := Int.fract_neg h
    have hfloor : ⌊-x⌋ = -⌊x⌋ - 1 := by
      have hsum := Int.floor_add_fract x
      have hsum' := Int.floor_add_fract (-x)
      have : ((⌊-x⌋ : ℤ) : ℝ) = ((-⌊x⌋ - 1 : ℤ) : ℝ) := by
        push_cast
        linarith
      exact Int.cast_injective this
    have heven : Even (-⌊x⌋ - 1) ↔ ¬Even ⌊x⌋ := by
      rw [Int.even_sub_one, even_neg]
    unfold nearestInt
    rw [hfract, hfloor]
    -- the cases below and above a half change places, and so do the parities of a tie
    rcases lt_trichotomy (Int.fract x) (1 / 2) with hlt | heq | hgt
    · rw [if_neg (by linarith), if_pos (by linarith), if_pos hlt]
      ring
    · simp only [heq, sub_half, lt_irrefl, if_false]
      by_cases he : Even ⌊x⌋
      · rw [if_neg (by rwa [heven, not_not]), if_pos he]
        ring
      · rw [if_pos (heven.mpr he), if_neg he]
        ring
    · rw [if_pos (by linarith), if_neg (by linarith), if_pos hgt]
      ring

/-- The nearest whole number is at most a half away. -/
theorem abs_nearestInt_sub_le (x : ℝ) : |(nearestInt x : ℝ) - x| ≤ 1 / 2 := by
  have hsum := Int.floor_add_fract x
  have hnonneg := Int.fract_nonneg x
  have hlt := Int.fract_lt_one x
  unfold nearestInt
  rw [abs_le]
  split
  · constructor <;> linarith
  · split
    · push_cast
      constructor <;> linarith
    · split
      · constructor <;> linarith
      · push_cast
        constructor <;> linarith

theorem nearestInt_nonneg {x : ℝ} (h : 0 ≤ x) : 0 ≤ nearestInt x := by
  have hnear := (abs_le.mp (abs_nearestInt_sub_le x)).1
  have hlt : (-1 : ℝ) < nearestInt x := by linarith
  have : -1 < nearestInt x := by exact_mod_cast hlt
  omega

theorem nearestInt_le {x : ℝ} {n : ℤ} (h : x ≤ n) : nearestInt x ≤ n := by
  have hnear := (abs_le.mp (abs_nearestInt_sub_le x)).2
  have hlt : (nearestInt x : ℝ) < n + 1 := by linarith
  have : nearestInt x < n + 1 := by exact_mod_cast hlt
  omega

/-- A whole number is nearest to a real one, the even one where two are equally near. -/
structure IsNearest (x : ℝ) (n : ℤ) : Prop where
  near : |x - n| ≤ 1 / 2
  even_of_tie : |x - n| = 1 / 2 → Even n

theorem isNearest_nearestInt (x : ℝ) : IsNearest x (nearestInt x) := by
  constructor
  · rw [abs_sub_comm]
    exact abs_nearestInt_sub_le x
  · have hsum := Int.floor_add_fract x
    have hnonneg := Int.fract_nonneg x
    have hlt := Int.fract_lt_one x
    unfold nearestInt
    split
    · intro htie
      rw [abs_of_nonneg (by linarith)] at htie
      linarith
    · split
      · intro htie
        push_cast at htie
        rw [abs_of_nonpos (by linarith)] at htie
        linarith
      · split
        · exact fun _ => ‹_›
        · exact fun _ => Int.even_add_one.mpr ‹_›

theorem IsNearest.unique {x : ℝ} {m n : ℤ} (hm : IsNearest x m) (hn : IsNearest x n) : m = n := by
  have hmx := abs_le.mp hm.near
  have hnx := abs_le.mp hn.near
  have hle : m ≤ n + 1 := by
    have : (m : ℝ) ≤ n + 1 := by linarith
    exact_mod_cast this
  have hge : n ≤ m + 1 := by
    have : (n : ℝ) ≤ m + 1 := by linarith
    exact_mod_cast this
  by_contra hne
  -- two neighbours are both a half away, and only one of them is even
  have hties : |x - m| = 1 / 2 ∧ |x - n| = 1 / 2 := by
    rcases (by omega : m = n + 1 ∨ n = m + 1) with h | h
    · have hcast : (m : ℝ) = n + 1 := by exact_mod_cast h
      exact ⟨by rw [abs_of_nonpos] <;> linarith, by rw [abs_of_nonneg] <;> linarith⟩
    · have hcast : (n : ℝ) = m + 1 := by exact_mod_cast h
      exact ⟨by rw [abs_of_nonneg] <;> linarith, by rw [abs_of_nonpos] <;> linarith⟩
  obtain ⟨a, ha⟩ := hm.even_of_tie hties.1
  obtain ⟨b, hb⟩ := hn.even_of_tie hties.2
  omega

theorem isNearest_iff {x : ℝ} {n : ℤ} : IsNearest x n ↔ nearestInt x = n :=
  ⟨fun h => (isNearest_nearestInt x).unique h, fun h => h ▸ isNearest_nearestInt x⟩

/-! ## Values of numbers -/

namespace Number

/-- The real number that a number of a document is. -/
def value : Number ℝ → ℝ
  | whole n => n
  | real x => x

@[simp] theorem value_whole (n : ℤ) : (whole n : Number ℝ).value = n := rfl

@[simp] theorem value_real (x : ℝ) : (real x).value = x := rfl

@[simp] theorem toReal_eq (a : Number ℝ) : a.toReal = .ok a.value := by
  cases a <;> rfl

@[simp] theorem value_negate (a : Number ℝ) : a.negate.value = -a.value := by
  cases a with
  | whole n => exact Int.cast_neg n
  | real x => rfl

theorem exists_add (a b : Number ℝ) : ∃ c, a.add b = .ok c ∧ c.value = a.value + b.value := by
  cases a with
  | whole m =>
      cases b with
      | whole n => exact ⟨whole (m + n), rfl, Int.cast_add m n⟩
      | real y => exact ⟨real (m + y), rfl, rfl⟩
  | real x => cases b <;> exact ⟨real _, rfl, rfl⟩

theorem divideReal_eq (x y : ℝ) :
    divideReal x y = if y = 0 then .error .divisionByZero else .ok (x / y) := by
  rw [divideReal, ite_beq_zero]

theorem divide_eq (a b : Number ℝ) :
    a.divide b = if b.value = 0 then .error .divisionByZero else .ok (a.value / b.value) := by
  cases a with
  | whole m =>
      cases b with
      | whole n =>
          rw [divide, value_whole]
          by_cases h : n = 0
          · rw [if_pos h, if_pos (Int.cast_eq_zero.mpr h)]
          · rw [if_neg h, if_neg (Int.cast_ne_zero.mpr h)]
            rfl
      | real y => exact divideReal_eq m y
  | real x =>
      cases b with
      | whole n => exact divideReal_eq x n
      | real y => exact divideReal_eq x y

theorem divide_of_ne {a b : Number ℝ} (h : b.value ≠ 0) :
    a.divide b = .ok (a.value / b.value) := by
  rw [divide_eq, if_neg h]

theorem wholeBelow_iff (n : ℤ) (x : ℝ) : wholeBelow n x = true ↔ (n : ℝ) < x := by
  show decide (n < -⌊-x⌋) = true ↔ _
  rw [decide_eq_true_iff, Int.floor_neg, neg_neg, Int.lt_ceil]

theorem realBelow_iff (x : ℝ) (n : ℤ) : realBelow x n = true ↔ x < n := by
  show decide (⌊x⌋ < n) = true ↔ _
  rw [decide_eq_true_iff, Int.floor_lt]

theorem below_iff (a b : Number ℝ) : a.below b = true ↔ a.value < b.value := by
  cases a with
  | whole m =>
      cases b with
      | whole n =>
          rw [below, decide_eq_true_iff, value_whole, value_whole, Int.cast_lt]
      | real y => exact wholeBelow_iff m y
  | real x =>
      cases b with
      | whole n => exact realBelow_iff x n
      | real y => exact decide_eq_true_iff

theorem wholeSame_iff (n : ℤ) (x : ℝ) : wholeSame n x = true ↔ (n : ℝ) = x := by
  have hspecial : (Scalar.special? x).isNone = true := rfl
  rw [wholeSame, hspecial, Bool.true_and, Bool.and_eq_true, Bool.not_eq_true', Bool.not_eq_true',
    ← Bool.not_eq_true, ← Bool.not_eq_true, wholeBelow_iff, realBelow_iff, not_lt, not_lt]
  constructor
  · rintro ⟨hle, hge⟩
    exact le_antisymm hge hle
  · rintro rfl
    exact ⟨le_rfl, le_rfl⟩

theorem same_iff (a b : Number ℝ) : a.same b = true ↔ a.value = b.value := by
  cases a with
  | whole m =>
      cases b with
      | whole n => rw [same, beq_iff_eq, value_whole, value_whole, Int.cast_inj]
      | real y => exact wholeSame_iff m y
  | real x =>
      cases b with
      | whole n => exact (wholeSame_iff n x).trans eq_comm
      | real y => exact decide_eq_true_iff

theorem atMost_iff (a b : Number ℝ) : a.atMost b = true ↔ a.value ≤ b.value := by
  rw [atMost, Bool.or_eq_true, below_iff, same_iff, le_iff_lt_or_eq]

theorem isPositive_iff (a : Number ℝ) : a.isPositive = true ↔ 0 < a.value := by
  rw [isPositive, below_iff, value_whole, Int.cast_zero]

theorem isZero_iff (a : Number ℝ) : a.isZero = true ↔ a.value = 0 := by
  cases a with
  | whole n => rw [isZero, beq_iff_eq, value_whole, Int.cast_eq_zero]
  | real x => rw [isZero, beq_zero, decide_eq_true_iff, value_real]

end Number

end MotionScene
