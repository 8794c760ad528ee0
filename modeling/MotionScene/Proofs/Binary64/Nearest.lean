import MotionScene.Proofs.Binary64

/-!
# Rounding to the nearest floating-point number

A number is the one that every real number is rounded to which lies in its interval: from halfway to
the number below to halfway to the one above, with the ends if its significand is even
(`RoundsTo`, `ofNumeral_of_roundsTo`).  The exponent that the rounding chooses is that of the
number, except below a power of two, where it is one less and the rounded significand carries
(`nearestBits_of_roundsTo`).
-/

namespace MotionScene

namespace Binary64

/-! ## Bits of a magnitude -/

/-- The bits of a magnitude of which the exponent is as small as the format has it, or the
significand as large. -/
def Parts.bits (p : Parts) : ℕ :=
  (p.q + 1074).toNat * 2 ^ 52 + p.m

/-- Parts of which no others make up the same magnitude. -/
structure Parts.IsNormal (p : Parts) : Prop where
  significand : p.m < 2 ^ 53
  low : -1074 ≤ p.q
  high : p.q ≤ 971
  leading : 2 ^ 52 ≤ p.m ∨ p.q = -1074

theorem bits_parts (x : Float) : (parts x).bits = x.toBits.toNat % 2 ^ 63 := by
  unfold parts Parts.bits
  simp only [Nat.pow_eq]
  split <;> dsimp only <;> omega

theorem negative_parts (x : Float) :
    (parts x).negative = decide (2 ^ 63 ≤ x.toBits.toNat) := by
  unfold parts
  simp only [Nat.pow_eq, ge_iff_le]
  split <;> rfl

theorem isNormal_parts {x : Float} (h : special? x = none) : (parts x).IsNormal := by
  rw [special?_eq_none_iff] at h
  have : infinityBits = 2047 * 2 ^ 52 := rfl
  unfold parts
  simp only [Nat.pow_eq]
  split <;> constructor <;> dsimp only <;> omega

theorem eq_of_toBits_eq {x y : Float} (h : x.toBits = y.toBits) : x = y := by
  obtain ⟨⟨bits, valid⟩⟩ := x
  obtain ⟨⟨bits', valid'⟩⟩ := y
  obtain rfl : bits = bits' := h
  rfl

open Float.Model (Format UnpackedFloat)
open Float.Model.UnpackedFloat (packComponents)

/-- There is only one pattern for what is no number. -/
theorem toBits_eq_packedNaN {x : Float} {sign : UnpackedFloat.Sign} {exponent : BitVec 11}
    {field : BitVec 52}
    (hbits : x.toBits.toBitVec = packComponents Format.binary64 sign exponent field)
    (hexponent : exponent = -1#11) (hfield : field ≠ 0#52) :
    x.toBits.toBitVec = UnpackedFloat.packedNaN Format.binary64 := by
  have valid : Format.binary64.Valid x.toBits.toBitVec := x.toModel.valid
  refine valid.eq_packedNaN ?_ ?_
  · rw [hbits, UnpackedFloat.unpackExponent_packComponents]
    exact hexponent
  · rw [hbits, UnpackedFloat.unpackMantissa_packComponents]
    exact hfield

/-- A number is the one that its bits stand for. -/
theorem ofBits_toBits (x : Float) : Float.ofBits x.toBits = x := by
  obtain ⟨sign, exponent, field, hbits⟩ := exists_packComponents x.toBits.toBitVec
  refine eq_of_toBits_eq (UInt64.eq_of_toBitVec_eq ?_)
  show UnpackedFloat.pack Format.binary64 (UnpackedFloat.unpack Format.binary64 x.toBits.toBitVec) =
    x.toBits.toBitVec
  by_cases hexponent : exponent = -1#11
  · by_cases hfield : field = 0#52
    · subst hexponent hfield
      rw [hbits, unpack_packComponents]
      rfl
    · rw [toBits_eq_packedNaN hbits hexponent hfield]
      rfl
  · rw [hbits, unpack_packComponents, pack_ofFields sign field hexponent]

/-- A number that is not above infinity is made of its sign and the bits of its magnitude. -/
theorem ofMagnitude_toBits {x : Float} (h : x.toBits.toNat % 2 ^ 63 ≤ infinityBits) :
    ofMagnitude (decide (2 ^ 63 ≤ x.toBits.toNat)) (x.toBits.toNat % 2 ^ 63) = x := by
  have hx := x.toBits.toNat_lt
  have hbits : UInt64.ofNat (min (x.toBits.toNat % 2 ^ 63) infinityBits +
      if decide (2 ^ 63 ≤ x.toBits.toNat) then Nat.pow 2 63 else 0) = x.toBits := by
    apply UInt64.toNat_inj.mp
    rw [min_eq_left h, UInt64.toNat_ofNat', Nat.pow_eq]
    simp only [decide_eq_true_eq]
    split <;> omega
  rw [ofMagnitude, hbits, ofBits_toBits]

/-- A finite number is made of the bits of its parts. -/
theorem ofMagnitude_bits_parts {x : Float} (h : special? x = none) :
    ofMagnitude (parts x).negative (parts x).bits = x := by
  rw [bits_parts, negative_parts]
  exact ofMagnitude_toBits (special?_eq_none_iff.mp h).le

/-- A number that is not finite is named by what it is. -/
theorem ofNumeral_special {x : Float} {special : Special} (h : special? x = some special) :
    ofNumeral (.special special) = x := by
  unfold special? at h
  simp only [Nat.pow_eq] at h
  split at h
  · cases h
  · split at h
    · rename_i hinfinite
      cases h
      calc ofNumeral (.special (.infinity (decide (2 ^ 63 ≤ x.toBits.toNat))))
          = ofMagnitude (decide (2 ^ 63 ≤ x.toBits.toNat)) (x.toBits.toNat % 2 ^ 63) := by
            rw [hinfinite]
            rfl
        _ = x := ofMagnitude_toBits hinfinite.le
    · rename_i hnot hne
      cases h
      obtain ⟨sign, exponent, field, hbits⟩ := exists_packComponents x.toBits.toBitVec
      have hnat : x.toBits.toNat = _ :=
        (congrArg BitVec.toNat hbits).trans (toNat_packComponents sign exponent field)
      have hinf : infinityBits = 2047 * 2 ^ 52 := rfl
      have hlast : (-1#11).toNat = 2047 := rfl
      have hexponentLt := exponent.isLt
      have hfieldLt := field.isLt
      have hexponent : exponent = -1#11 := BitVec.eq_of_toNat_eq (by omega)
      have hfield : field ≠ 0#52 := by
        rintro rfl
        have : (0#52).toNat = 0 := rfl
        omega
      have hquiet : x.toBits = 0x7FF8000000000000 :=
        UInt64.eq_of_toBitVec_eq (toBits_eq_packedNaN hbits hexponent hfield)
      rw [← ofBits_toBits x, hquiet]
      rfl

/-- Zero is made of its sign. -/
theorem ofNumeral_zero {x : Float} (hx : special? x = none) (hm : (parts x).m = 0)
    (exponent : ℤ) : ofNumeral (.finite (parts x).negative 0 exponent) = x := by
  have hbits : (parts x).bits = 0 := by
    have hp := isNormal_parts hx
    have hq : (parts x).q = -1074 := hp.leading.resolve_left (by omega)
    rw [Parts.bits, hq, hm]
    rfl
  calc ofNumeral (.finite (parts x).negative 0 exponent)
      = ofMagnitude (parts x).negative (parts x).bits := by rw [hbits]; rfl
    _ = x := ofMagnitude_bits_parts hx

/-! ## The exponent of a quotient -/

section Quotient

variable {num den : ℕ} (hnum : 0 < num) (hden : 0 < den)

include hnum hden

theorem quotient_mem_log2 :
    (2 : ℝ) ^ ((num.log2 : ℤ) - den.log2 - 1) < num / den ∧
      (num : ℝ) / den < 2 ^ ((num.log2 : ℤ) - den.log2 + 1) := by
  have hpos : (0 : ℝ) < den := Nat.cast_pos.mpr hden
  have hnumLow : (2 : ℝ) ^ num.log2 ≤ num := by exact_mod_cast Nat.log2_self_le hnum.ne'
  have hnumHigh : (num : ℝ) < 2 ^ (num.log2 + 1) := by exact_mod_cast Nat.lt_log2_self
  have hdenLow : (2 : ℝ) ^ den.log2 ≤ den := by exact_mod_cast Nat.log2_self_le hden.ne'
  have hdenHigh : (den : ℝ) < 2 ^ (den.log2 + 1) := by exact_mod_cast Nat.lt_log2_self
  have hsub (i j : ℕ) : (2 : ℝ) ^ ((i : ℤ) - j) * 2 ^ j = 2 ^ i := by
    rw [← zpow_natCast, ← zpow_natCast, ← zpow_add₀ two_ne_zero, sub_add_cancel]
  constructor
  · have hlow := hsub num.log2 (den.log2 + 1)
    push_cast at hlow
    rw [lt_div_iff₀ hpos, sub_sub]
    calc (2 : ℝ) ^ ((num.log2 : ℤ) - (den.log2 + 1)) * den
        < 2 ^ ((num.log2 : ℤ) - (den.log2 + 1)) * 2 ^ (den.log2 + 1) := by gcongr
      _ = 2 ^ num.log2 := hlow
      _ ≤ num := hnumLow
  · have hhigh := hsub (num.log2 + 1) den.log2
    push_cast at hhigh
    rw [div_lt_iff₀ hpos, sub_add_eq_add_sub]
    calc (num : ℝ) < 2 ^ (num.log2 + 1) := hnumHigh
      _ = 2 ^ ((num.log2 : ℤ) + 1 - den.log2) * 2 ^ den.log2 := hhigh.symm
      _ ≤ 2 ^ ((num.log2 : ℤ) + 1 - den.log2) * den := by gcongr

omit hnum in
/-- The test by which an exponent is lowered compares the quotient with a power of two. -/
theorem lt_mul_two_pow_iff (e : ℤ) :
    num * Nat.pow 2 (-e).toNat < den * Nat.pow 2 (52 + e.toNat) ↔
      (num : ℝ) / den < 2 ^ (52 + e) := by
  have hpos : (0 : ℝ) < den := Nat.cast_pos.mpr hden
  have htwo : (0 : ℝ) < 2 ^ (-e).toNat := by positivity
  have hpow : (2 : ℝ) ^ (52 + e) = 2 ^ (52 + e.toNat) / 2 ^ (-e).toNat := by
    rw [zpow_add₀ two_ne_zero, ← pow_toNat_div two_ne_zero e, pow_add, mul_div_assoc, zpow_ofNat]
  rw [hpow, div_lt_div_iff₀ hpos htwo, mul_comm ((2 : ℝ) ^ _), Nat.pow_eq, Nat.pow_eq]
  norm_cast

omit hnum in
theorem roundScaled_eq (q : ℤ) :
    (roundScaled num den q : ℤ) = nearestInt ((num : ℝ) / den / 2 ^ q) := by
  have hdenom : 0 < den * Nat.pow 2 q.toNat := Nat.mul_pos hden (Nat.pow_pos two_pos)
  rw [roundScaled, roundQuotient_eq _ hdenom, ← pow_toNat_div two_ne_zero q, Nat.pow_eq, Nat.pow_eq]
  push_cast
  rw [div_div_div_eq, mul_comm (den : ℝ), mul_comm (2 ^ q.toNat : ℝ)]

/-- The exponent leaves 53 bits before the point, unless it would be too small. -/
theorem exists_nearestBits : ∃ q : ℤ, (2 : ℝ) ^ (52 + q) ≤ num / den ∧
    (num : ℝ) / den < 2 ^ (53 + q) ∧
    nearestBits num den =
      (max q (-1074) + 1074).toNat * 2 ^ 52 + roundScaled num den (max q (-1074)) := by
  obtain ⟨hlow, hhigh⟩ := quotient_mem_log2 hnum hden
  unfold nearestBits
  rw [if_neg hnum.ne']
  dsimp only
  simp only [lt_mul_two_pow_iff hden]
  generalize hestimate : (num.log2 : ℤ) - den.log2 - 52 = e
  have hlow : (2 : ℝ) ^ (51 + e) < num / den := by
    rw [← hestimate, show 51 + ((num.log2 : ℤ) - den.log2 - 52) = num.log2 - den.log2 - 1 by ring]
    exact hlow
  have hhigh : (num : ℝ) / den < 2 ^ (53 + e) := by
    rw [← hestimate, show 53 + ((num.log2 : ℤ) - den.log2 - 52) = num.log2 - den.log2 + 1 by ring]
    exact hhigh
  split
  · rename_i hless
    refine ⟨e - 1, ?_, ?_, rfl⟩
    · rw [show 52 + (e - 1) = 51 + e by ring]
      exact hlow.le
    · rw [show 53 + (e - 1) = 52 + e by ring]
      exact hless
  · rename_i hnot
    exact ⟨e, not_lt.mp hnot, hhigh, rfl⟩

end Quotient

/-! ## The interval of a number -/

/-- How far the interval of a magnitude reaches below it, in units of its last place.  Just above a
power of two the gap below is half the gap above. -/
noncomputable def Parts.reachBelow (p : Parts) : ℝ :=
  if p.m = 2 ^ 52 ∧ -1074 < p.q then ((4 : ℕ) : ℝ)⁻¹ else ((2 : ℕ) : ℝ)⁻¹

/-- The least number of the interval of a magnitude, if it belongs to it. -/
noncomputable def Parts.lowest (p : Parts) : ℝ :=
  (p.m - p.reachBelow) * ((2 : ℕ) : ℝ) ^ p.q

noncomputable def Parts.highest (p : Parts) : ℝ :=
  (p.m + ((2 : ℕ) : ℝ)⁻¹) * ((2 : ℕ) : ℝ) ^ p.q

/-- A real number lies among those that round to a magnitude. -/
def RoundsTo (p : Parts) (v : ℝ) : Prop :=
  if p.m % 2 = 0 then p.lowest ≤ v ∧ v ≤ p.highest else p.lowest < v ∧ v < p.highest

section Interval

variable (p : Parts)

theorem Parts.reachBelow_mem : 0 < p.reachBelow ∧ p.reachBelow ≤ 1 / 2 := by
  unfold reachBelow
  split <;> norm_num

theorem Parts.lowest_eq : p.lowest = (p.m - p.reachBelow) * 2 ^ p.q := by
  rw [lowest, Nat.cast_ofNat]

theorem Parts.highest_eq : p.highest = (p.m + 1 / 2) * 2 ^ p.q := by
  rw [highest, Nat.cast_ofNat, one_div]

theorem Parts.lowest_lt : p.lowest < p.m * 2 ^ p.q := by
  have hreach := p.reachBelow_mem
  rw [p.lowest_eq]
  exact mul_lt_mul_of_pos_right (by linarith) (by positivity)

theorem Parts.lt_highest : p.m * 2 ^ p.q < p.highest := by
  rw [p.highest_eq]
  exact mul_lt_mul_of_pos_right (by linarith) (by positivity)

/-- A magnitude rounds to itself. -/
theorem roundsTo_self : RoundsTo p (p.m * 2 ^ p.q) := by
  unfold RoundsTo
  split
  · exact ⟨p.lowest_lt.le, p.lt_highest.le⟩
  · exact ⟨p.lowest_lt, p.lt_highest⟩

end Interval

section Rounding

variable {p : Parts} {v : ℝ}

theorem RoundsTo.mem_Icc (h : RoundsTo p v) : v ∈ Set.Icc p.lowest p.highest := by
  unfold RoundsTo at h
  split at h
  · exact h
  · exact ⟨h.1.le, h.2.le⟩

theorem RoundsTo.isNearest (h : RoundsTo p v) : IsNearest (v / 2 ^ p.q) p.m := by
  have hunit : (0 : ℝ) < 2 ^ p.q := by positivity
  have hreach := p.reachBelow_mem
  obtain ⟨hlow, hhigh⟩ := h.mem_Icc
  rw [p.lowest_eq, ← le_div_iff₀ hunit] at hlow
  rw [p.highest_eq, ← div_le_iff₀ hunit] at hhigh
  refine ⟨?_, fun htie => ?_⟩
  · rw [abs_le]
    push_cast
    constructor <;> linarith
  · rw [Int.even_coe_nat, Nat.even_iff]
    by_contra hodd
    -- the ends of the interval of an odd significand do not belong to it
    rw [RoundsTo, if_neg hodd, p.lowest_eq, p.highest_eq, ← lt_div_iff₀ hunit,
      ← div_lt_iff₀ hunit] at h
    push_cast at htie
    rcases abs_eq (by norm_num : (0 : ℝ) ≤ 1 / 2) |>.mp htie with htie | htie <;> linarith

variable (hp : p.IsNormal) (h : RoundsTo p v) {q : ℤ}

include hp h

/-- The exponent that leaves 53 bits before the point is not above that of the magnitude. -/
theorem exponent_le_of_roundsTo (hlow : (2 : ℝ) ^ (52 + q) ≤ v) : q ≤ p.q := by
  by_contra hlt
  have hhigh := h.mem_Icc.2
  have hm : (p.m : ℝ) + 1 ≤ 2 ^ 53 := by exact_mod_cast hp.significand
  have hless : p.highest < 2 ^ (52 + q) := by
    calc p.highest = (p.m + 1 / 2) * 2 ^ p.q := p.highest_eq
      _ < 2 ^ 53 * 2 ^ p.q := mul_lt_mul_of_pos_right (by linarith) (by positivity)
      _ = 2 ^ (53 + p.q) := by rw [zpow_add₀ two_ne_zero, zpow_ofNat]
      _ ≤ 2 ^ (52 + q) := zpow_le_zpow_right₀ one_le_two (by omega)
  linarith

variable (hlarge : -1074 < p.q) (hpower : v < (2 : ℝ) ^ (52 + p.q))

include hlarge hpower

/-- Numbers below the power of two where the exponent of a magnitude begins round to it only if it
is that power. -/
theorem significand_eq_of_roundsTo : p.m = 2 ^ 52 := by
  have hlow := h.mem_Icc.1
  have hreach := p.reachBelow_mem
  have hleading : 2 ^ 52 ≤ p.m := hp.leading.resolve_right hlarge.ne'
  have hlt : (p.m - p.reachBelow) * 2 ^ p.q < 2 ^ 52 * 2 ^ p.q := by
    rw [zpow_add₀ two_ne_zero, zpow_ofNat] at hpower
    rw [p.lowest_eq] at hlow
    linarith
  have hless : (p.m : ℝ) < 2 ^ 52 + 1 := by
    have := lt_of_mul_lt_mul_right hlt (by positivity)
    linarith
  have hless : p.m < 2 ^ 52 + 1 := by exact_mod_cast hless
  omega

/-- These numbers are at most a quarter of a unit away from it. -/
theorem quarter_of_roundsTo : (2 ^ 52 - 1 / 4) * 2 ^ p.q ≤ v := by
  have hm := significand_eq_of_roundsTo hp h hlarge hpower
  have hlow := h.mem_Icc.1
  rw [p.lowest_eq, Parts.reachBelow, if_pos ⟨hm, hlarge⟩, hm] at hlow
  norm_num at hlow ⊢
  exact hlow

/-- So their own exponent is one less. -/
theorem exponent_eq_of_roundsTo (hhigh : v < (2 : ℝ) ^ (53 + q)) (hq : q < p.q) : q = p.q - 1 := by
  have hquarter := quarter_of_roundsTo hp h hlarge hpower
  by_contra hne
  have hfar : v < 2 ^ 51 * 2 ^ p.q := by
    calc v < 2 ^ (53 + q) := hhigh
      _ ≤ 2 ^ (51 + p.q) := zpow_le_zpow_right₀ one_le_two (by omega)
      _ = 2 ^ 51 * 2 ^ p.q := by rw [zpow_add₀ two_ne_zero, zpow_ofNat]
  have hnear : (2 : ℝ) ^ 51 * 2 ^ p.q < (2 ^ 52 - 1 / 4) * 2 ^ p.q :=
    mul_lt_mul_of_pos_right (by norm_num) (by positivity)
  linarith

/-- And with this exponent the rounded significand carries. -/
theorem carries_of_roundsTo : IsNearest (v / 2 ^ (p.q - 1)) (2 ^ 53) := by
  have hunit : (0 : ℝ) < 2 ^ p.q := by positivity
  have hhalf : (2 : ℝ) ^ (p.q - 1) = 2 ^ p.q / 2 := zpow_sub_one₀ two_ne_zero _
  have hquarter := quarter_of_roundsTo hp h hlarge hpower
  rw [zpow_add₀ two_ne_zero, zpow_ofNat] at hpower
  have hlower : (2 : ℝ) ^ 53 - 1 / 2 ≤ v / 2 ^ (p.q - 1) := by
    rw [hhalf, le_div_iff₀ (by positivity)]
    linarith
  have hupper : v / 2 ^ (p.q - 1) < 2 ^ 53 := by
    rw [hhalf, div_lt_iff₀ (by positivity)]
    linarith
  refine ⟨?_, fun _ => by decide⟩
  rw [abs_le]
  push_cast
  constructor <;> linarith

end Rounding

/-- A quotient in the interval of a magnitude rounds to its bits. -/
theorem nearestBits_of_roundsTo {p : Parts} (hp : p.IsNormal) {num den : ℕ} (hnum : 0 < num)
    (hden : 0 < den) (h : RoundsTo p (num / den)) : nearestBits num den = p.bits := by
  obtain ⟨q, hlow, hhigh, hbits⟩ := exists_nearestBits hnum hden
  have hq : q ≤ p.q := exponent_le_of_roundsTo hp h hlow
  have hlowest := hp.low
  by_cases hsame : max q (-1074) = p.q
  · have hround : (roundScaled num den p.q : ℤ) = p.m := by
      rw [roundScaled_eq hden]
      exact isNearest_iff.mp h.isNearest
    rw [hbits, hsame, Parts.bits]
    omega
  · -- otherwise the magnitude is a power of two, and the quotient lies below it
    have hlarge : -1074 < p.q := by omega
    have hpower : (num : ℝ) / den < 2 ^ (52 + p.q) :=
      hhigh.trans_le (zpow_le_zpow_right₀ one_le_two (by omega))
    have hnext : q = p.q - 1 := exponent_eq_of_roundsTo hp h hlarge hpower hhigh (by omega)
    have hmax : max q (-1074) = p.q - 1 := by omega
    have hround : (roundScaled num den (p.q - 1) : ℤ) = 2 ^ 53 := by
      rw [roundScaled_eq hden]
      exact isNearest_iff.mp (carries_of_roundsTo hp h hlarge hpower)
    rw [hbits, hmax, Parts.bits, significand_eq_of_roundsTo hp h hlarge hpower]
    omega

/-! ## Numerals -/

/-- The magnitude of a numeral. -/
noncomputable def decimalValue (digits : ℕ) (exponent : ℤ) : ℝ :=
  digits * ((10 : ℕ) : ℝ) ^ exponent

theorem decimalValue_eq (digits : ℕ) (exponent : ℤ) :
    decimalValue digits exponent = digits * 10 ^ exponent := by
  rw [decimalValue, Nat.cast_ofNat]

section Numeral

variable {p : Parts} (hp : p.IsNormal) (hm : p.m ≠ 0) {digits : ℕ} {exponent : ℤ}
  (h : RoundsTo p (decimalValue digits exponent))

include hp hm h

theorem decimalValue_mem_of_roundsTo :
    (2 : ℝ) ^ (-1076 : ℤ) < decimalValue digits exponent ∧
      decimalValue digits exponent < 2 ^ (1024 : ℤ) := by
  obtain ⟨hbelow, habove⟩ := h.mem_Icc
  rw [p.lowest_eq] at hbelow
  rw [p.highest_eq] at habove
  have hreach := p.reachBelow_mem
  have hunit : (0 : ℝ) < 2 ^ p.q := by positivity
  have hone : (1 : ℝ) ≤ p.m := by exact_mod_cast Nat.one_le_iff_ne_zero.mpr hm
  have hlarge : (p.m : ℝ) + 1 ≤ 2 ^ 53 := by exact_mod_cast hp.significand
  constructor
  · calc (2 : ℝ) ^ (-1076 : ℤ) < 2 ^ (-1075 : ℤ) := zpow_lt_zpow_right₀ one_lt_two (by norm_num)
      _ = 1 / 2 * 2 ^ (-1074 : ℤ) := by
          rw [show (-1075 : ℤ) = -1074 - 1 by norm_num, zpow_sub_one₀ two_ne_zero]
          ring
      _ ≤ (p.m - p.reachBelow) * 2 ^ p.q := by
          refine mul_le_mul (by linarith) (zpow_le_zpow_right₀ one_le_two hp.low)
            (by positivity) (by linarith)
      _ ≤ decimalValue digits exponent := hbelow
  · calc decimalValue digits exponent ≤ (p.m + 1 / 2) * 2 ^ p.q := habove
      _ < 2 ^ 53 * 2 ^ p.q := mul_lt_mul_of_pos_right (by linarith) hunit
      _ = 2 ^ (53 + p.q) := by rw [zpow_add₀ two_ne_zero, zpow_ofNat]
      _ ≤ 2 ^ (1024 : ℤ) := zpow_le_zpow_right₀ one_le_two (by have := hp.high; omega)

theorem digits_pos_of_roundsTo : 0 < digits := by
  have hpos := (decimalValue_mem_of_roundsTo hp hm h).1
  refine Nat.pos_of_ne_zero ?_
  rintro rfl
  rw [decimalValue_eq, Nat.cast_zero, zero_mul] at hpos
  exact absurd hpos (not_lt.mpr (by positivity))

/-- A numeral that rounds to a magnitude is not so large or small that it is not looked at. -/
theorem exponent_mem_of_roundsTo :
    exponent ≤ 400 ∧ -1100 ≤ 3 * exponent + digits.log2 := by
  obtain ⟨hlow, hhigh⟩ := decimalValue_mem_of_roundsTo hp hm h
  have hdigits := digits_pos_of_roundsTo hp hm h
  have hone : (1 : ℝ) ≤ digits := by exact_mod_cast hdigits
  have height (n : ℕ) : (8 : ℝ) ^ n = 2 ^ (3 * (n : ℤ)) := by
    rw [zpow_mul, zpow_natCast, zpow_ofNat]
    norm_num
  constructor
  · by_contra hlt
    obtain ⟨n, rfl⟩ := Int.eq_ofNat_of_zero_le (by omega : 0 ≤ exponent)
    have hmore : (2 : ℝ) ^ (1024 : ℤ) ≤ 2 ^ (3 * (n : ℤ)) :=
      zpow_le_zpow_right₀ one_le_two (by omega)
    have hten : (8 : ℝ) ^ n ≤ 10 ^ n := pow_le_pow_left₀ (by norm_num) (by norm_num) n
    have hvalue : (10 : ℝ) ^ n ≤ decimalValue digits n := by
      rw [decimalValue_eq, zpow_natCast]
      exact le_mul_of_one_le_left (by positivity) hone
    rw [height] at hten
    linarith
  · by_contra hlt
    obtain ⟨n, hn⟩ := Int.eq_ofNat_of_zero_le (by omega : 0 ≤ -exponent)
    obtain rfl : exponent = -n := by omega
    have hten : (8 : ℝ) ^ n ≤ 10 ^ n := pow_le_pow_left₀ (by norm_num) (by norm_num) n
    have hlog : (digits : ℝ) < 2 ^ ((digits.log2 : ℤ) + 1) := by
      have hself : digits < 2 ^ (digits.log2 + 1) := Nat.lt_log2_self
      exact_mod_cast hself
    have hvalue : decimalValue digits (-n) * 8 ^ n ≤ digits := by
      have hcancel : decimalValue digits (-n) * 10 ^ n = digits := by
        rw [decimalValue_eq, zpow_neg, zpow_natCast, mul_assoc, inv_mul_cancel₀ (by positivity),
          mul_one]
      rw [← hcancel]
      exact mul_le_mul_of_nonneg_left hten (hlow.le.trans' (by positivity))
    have hless : (2 : ℝ) ^ (-1076 : ℤ) * 8 ^ n < 2 ^ ((digits.log2 : ℤ) + 1) := by
      have : (2 : ℝ) ^ (-1076 : ℤ) * 8 ^ n ≤ decimalValue digits (-n) * 8 ^ n :=
        mul_le_mul_of_nonneg_right hlow.le (by positivity)
      linarith
    rw [height, ← zpow_add₀ two_ne_zero, zpow_lt_zpow_iff_right₀ one_lt_two] at hless
    omega

end Numeral

/-- A numeral in the interval of a number is read as that number. -/
theorem ofNumeral_of_roundsTo {x : Float} (hx : special? x = none) (hm : (parts x).m ≠ 0)
    {digits : ℕ} {exponent : ℤ} (h : RoundsTo (parts x) (decimalValue digits exponent)) :
    ofNumeral (.finite (parts x).negative digits exponent) = x := by
  have hp := isNormal_parts hx
  have hdigits := digits_pos_of_roundsTo hp hm h
  obtain ⟨hhigh, hlow⟩ := exponent_mem_of_roundsTo hp hm h
  have hquotient : ((digits * 10 ^ exponent.toNat : ℕ) : ℝ) / (10 ^ (-exponent).toNat : ℕ) =
      decimalValue digits exponent := by
    rw [decimalValue_eq, ← pow_toNat_div (by norm_num : (10 : ℝ) ≠ 0) exponent]
    push_cast
    rw [mul_div_assoc]
  have hbits := nearestBits_of_roundsTo hp (Nat.mul_pos hdigits (Nat.pow_pos (by norm_num)))
    (Nat.pow_pos (by norm_num)) (hquotient ▸ h)
  unfold ofNumeral
  dsimp only
  rw [if_neg hdigits.ne', if_neg (by omega), if_neg (by omega), Nat.pow_eq, Nat.pow_eq, ofQuotient,
    hbits]
  exact ofMagnitude_bits_parts hx

end Binary64

end MotionScene
