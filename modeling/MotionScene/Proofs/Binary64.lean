import Mathlib.Algebra.Order.Floor.Semifield
import MotionScene.Binary64.Basic
import MotionScene.Proofs.Exact

/-!
# The values of floating-point numbers

A finite floating-point number is the real number `± m · 2 ^ q` of its parts.  It is rounded to
decimals and down to a whole number by that exact value (`decimalUnits_eq`, `floor_eq`).  A change
of sign moves one bit of it and changes the sign of the value (`toNat_toBits_neg`, `exact_neg`).
-/

namespace MotionScene

namespace Binary64

/-- A quotient is rounded as the real number that it is. -/
theorem roundQuotient_eq (num : ℕ) {den : ℕ} (h : 0 < den) :
    (roundQuotient num den : ℤ) = nearestInt ((num : ℝ) / den) := by
  have hden : (0 : ℝ) < den := Nat.cast_pos.mpr h
  have hfloor : ⌊(num : ℝ) / den⌋ = (num / den : ℕ) := by
    rw [← Int.natCast_floor_eq_floor (by positivity), Nat.floor_div_eq_div]
  have hfract : Int.fract ((num : ℝ) / den) = (num % den : ℕ) / den :=
    Int.fract_div_natCast_eq_div_natCast_mod
  have hbelow : Int.fract ((num : ℝ) / den) < 1 / 2 ↔ 2 * (num % den) < den := by
    rw [hfract, div_lt_div_iff₀ hden two_pos, ← @Nat.cast_lt ℝ]
    push_cast
    constructor <;> intro <;> linarith
  have habove : 1 / 2 < Int.fract ((num : ℝ) / den) ↔ den < 2 * (num % den) := by
    rw [hfract, div_lt_div_iff₀ two_pos hden, ← @Nat.cast_lt ℝ]
    push_cast
    constructor <;> intro <;> linarith
  have heven : Even ((num / den : ℕ) : ℤ) ↔ num / den % 2 = 0 := by
    rw [Int.even_coe_nat, Nat.even_iff]
  unfold roundQuotient nearestInt
  simp only [hbelow, habove, hfloor, heven]
  split
  · rfl
  · split
    · rename_i hle heq
      rw [if_neg (by omega)]
      split <;> push_cast <;> omega
    · rw [if_pos (by omega)]
      rfl

/-! ## Exact values -/

/-- The real number that some parts make up. -/
noncomputable def Parts.value (p : Parts) : ℝ :=
  (if p.negative then -1 else 1) * p.m * ((2 : ℕ) : ℝ) ^ p.q

/-- The real number that a finite floating-point number is. -/
noncomputable def exact (x : Float) : ℝ :=
  (parts x).value

/-- A power as a quotient of whole ones, of which one is a unit. -/
theorem pow_toNat_div {b : ℝ} (hb : b ≠ 0) (q : ℤ) : b ^ q.toNat / b ^ (-q).toNat = b ^ q := by
  rw [← zpow_natCast, ← zpow_natCast, ← zpow_sub₀ hb]
  congr 1
  omega

/-- Decimals are rounded by the exact value. -/
theorem decimalUnits_eq (places : ℕ) (x : Float) :
    decimalUnits places x = nearestInt (exact x * 10 ^ places) := by
  have hquotient : (((parts x).m * Nat.pow 10 places * Nat.pow 2 (parts x).q.toNat : ℕ) : ℝ)
      / (Nat.pow 2 (-(parts x).q).toNat : ℕ) = (parts x).m * 2 ^ (parts x).q * 10 ^ places := by
    simp only [Nat.pow_eq]
    rw [← pow_toNat_div two_ne_zero]
    push_cast
    ring
  have hround := @roundQuotient_eq
    ((parts x).m * Nat.pow 10 places * Nat.pow 2 (parts x).q.toNat)
    (Nat.pow 2 (-(parts x).q).toNat) (Nat.pow_pos two_pos)
  rw [hquotient] at hround
  unfold decimalUnits exact Parts.value
  dsimp only
  rw [hround, Nat.cast_ofNat]
  split
  · rw [← nearestInt_neg]
    congr 1
    ring
  · rw [one_mul]

/-- The floor is that of the exact value. -/
theorem floor_eq (x : Float) : floor x = ⌊exact x⌋ := by
  have hquotient : ((parts x).m : ℝ) * 2 ^ (parts x).q =
      (((parts x).m * Nat.pow 2 (parts x).q.toNat : ℤ) : ℝ) /
        (Nat.pow 2 (-(parts x).q).toNat : ℕ) := by
    simp only [Nat.pow_eq]
    rw [← pow_toNat_div two_ne_zero]
    push_cast
    ring
  have hfloor (magnitude : ℤ) : Int.fdiv magnitude (Nat.pow 2 (-(parts x).q).toNat : ℕ) =
      ⌊(magnitude : ℝ) / (Nat.pow 2 (-(parts x).q).toNat : ℕ)⌋ := by
    rw [Int.floor_div_natCast, Int.floor_intCast,
      Int.fdiv_eq_ediv_of_nonneg _ (Int.natCast_nonneg _)]
  unfold floor exact Parts.value
  dsimp only
  rw [hfloor, Nat.cast_ofNat, mul_assoc, hquotient]
  split
  · rw [Int.cast_neg, neg_div, neg_one_mul]
  · rw [one_mul]

/-! ## Change of sign -/

open Float.Model (Format UnpackedFloat)
open Float.Model.UnpackedFloat (Sign packComponents unpackSign)

/-- A sign, an exponent field and a fraction field side by side. -/
theorem toNat_packComponents (sign : Sign) (exponent : BitVec 11) (field : BitVec 52) :
    (packComponents Format.binary64 sign exponent field).toNat =
      sign.toBitVec.toNat * 2 ^ 63 + exponent.toNat * 2 ^ 52 + field.toNat := by
  rw [packComponents, BitVec.toNat_append, BitVec.toNat_append,
    ← Nat.shiftLeft_add_eq_or_of_lt field.isLt, ← Nat.shiftLeft_add_eq_or_of_lt exponent.isLt,
    Nat.shiftLeft_eq, Nat.shiftLeft_eq]
  omega

theorem exists_packComponents (bits : BitVec 64) :
    ∃ (sign : Sign) (exponent : BitVec 11) (field : BitVec 52),
      bits = packComponents Format.binary64 sign exponent field := by
  refine ⟨if bits.toNat < 2 ^ 63 then .positive else .negative,
    BitVec.ofNat 11 (bits.toNat / 2 ^ 52), BitVec.ofNat 52 bits.toNat, BitVec.eq_of_toNat_eq ?_⟩
  rw [toNat_packComponents]
  have := bits.isLt
  split <;> simp only [Sign.toBitVec, BitVec.toNat_ofNat] <;> omega

theorem unpackSign_packComponents (sign : Sign) (exponent : BitVec 11) (field : BitVec 52) :
    Sign.ofBitVec (unpackSign (packComponents Format.binary64 sign exponent field)) = sign := by
  have hbit : unpackSign (packComponents Format.binary64 sign exponent field) = sign.toBitVec := by
    apply BitVec.eq_of_toNat_eq
    show (packComponents Format.binary64 sign exponent field).toNat >>> 63 % 2 ^ 1 = _
    rw [toNat_packComponents, Nat.shiftRight_eq_div_pow]
    omega
  rw [hbit]
  cases sign <;> rfl

theorem pack_finite (sign : Sign) (m : ℕ) (e : ℤ) (hpos : 0 < m) :
    UnpackedFloat.pack Format.binary64 (.finite sign m e hpos) =
      if 2 ^ 11 ≤ (e + Format.binary64.exponentBias + (52 : ℕ)).toNat + 1 then
        UnpackedFloat.packedInfinity Format.binary64 sign
      else if m.log2 + 1 = 53 then
        packComponents Format.binary64 sign
          (BitVec.ofNat 11 (e + Format.binary64.exponentBias + (52 : ℕ)).toNat) (BitVec.ofNat 52 m)
      else packComponents Format.binary64 sign 0#11 (BitVec.ofNat 52 m) :=
  rfl

theorem toNat_one_append (field : BitVec 52) : (1#1 ++ field).toNat = 2 ^ 52 + field.toNat := by
  rw [BitVec.toNat_append, ← Nat.shiftLeft_add_eq_or_of_lt field.isLt, Nat.shiftLeft_eq]
  rfl

/-- A normal number is packed from its significand with the leading bit that no field holds. -/
theorem pack_normal (sign : Sign) {exponent : BitVec 11} (field : BitVec 52)
    (h : exponent ≠ -1#11) (hpos : 0 < (1#1 ++ field).toNat) :
    UnpackedFloat.pack Format.binary64 (.finite sign (1#1 ++ field).toNat
        (exponent.toNat - (Format.binary64.exponentBias + 52)) hpos) =
      packComponents Format.binary64 sign exponent field := by
  have hlog : (2 ^ 52 + field.toNat).log2 = 52 := by
    rw [Nat.log2_eq_iff (by omega)]
    have := field.isLt
    omega
  have hlt : exponent.toNat < 2047 := by
    have hne : exponent.toNat ≠ 2047 := fun he => h (BitVec.eq_of_toNat_eq he)
    have := exponent.isLt
    omega
  have hbiased : (exponent.toNat - ((Format.binary64.exponentBias : ℤ) + 52)
      + Format.binary64.exponentBias + (52 : ℕ)).toNat = exponent.toNat := by omega
  have hfield : BitVec.ofNat 52 (2 ^ 52 + field.toNat) = field := by
    apply BitVec.eq_of_toNat_eq
    rw [BitVec.toNat_ofNat, Nat.add_mod_left, Nat.mod_eq_of_lt field.isLt]
  rw [pack_finite, hbiased, toNat_one_append, hlog, if_neg (by omega), if_pos rfl, hfield,
    BitVec.ofNat_toNat, BitVec.setWidth_eq]

theorem pack_subnormal (sign : Sign) (field : BitVec 52) (hpos : 0 < field.toNat) :
    UnpackedFloat.pack Format.binary64 (.finite sign field.toNat
        ((0#11).toNat - (Format.binary64.exponentBias + 52) + 1) hpos) =
      packComponents Format.binary64 sign 0#11 field := by
  have hlog : field.toNat.log2 < 52 := (Nat.log2_lt hpos.ne').mpr field.isLt
  have hbiased : ((0#11).toNat - ((Format.binary64.exponentBias : ℤ) + 52) + 1
      + Format.binary64.exponentBias + (52 : ℕ)).toNat = 1 := by decide
  rw [pack_finite, hbiased, if_neg (by decide), if_neg (by omega), BitVec.ofNat_toNat,
    BitVec.setWidth_eq]

/-- The number with a sign and the two fields of its magnitude. -/
def ofFields (sign : Sign) (exponent : BitVec 11) (field : BitVec 52) : UnpackedFloat :=
  if exponent = -1#11 then
    if field = 0#52 then .infinity sign else .notANumber
  else if exponent = 0#11 then
    if h : field = 0#52 then .zero sign
    else .finite sign field.toNat (exponent.toNat - (Format.binary64.exponentBias + 52) + 1)
      (Nat.pos_of_ne_zero fun hzero => h (BitVec.eq_of_toNat_eq hzero))
  else .finite sign (1#1 ++ field).toNat (exponent.toNat - (Format.binary64.exponentBias + 52))
    (by rw [toNat_one_append]; omega)

theorem unpack_packComponents (sign : Sign) (exponent : BitVec 11) (field : BitVec 52) :
    UnpackedFloat.unpack Format.binary64 (packComponents Format.binary64 sign exponent field) =
      ofFields sign exponent field := by
  have hunpack : ∀ bits : BitVec Format.binary64.numBits,
    UnpackedFloat.unpack Format.binary64 bits =
      ofFields (Sign.ofBitVec (unpackSign bits)) (UnpackedFloat.unpackExponent bits)
        (UnpackedFloat.unpackMantissa bits) := fun _ => rfl
  rw [hunpack, unpackSign_packComponents, UnpackedFloat.unpackExponent_packComponents,
    UnpackedFloat.unpackMantissa_packComponents]

/-- A number that is finite keeps its two fields when its sign is changed. -/
theorem neg_ofFields (sign : Sign) {exponent : BitVec 11} (field : BitVec 52)
    (h : exponent ≠ -1#11) :
    (ofFields sign exponent field).neg = ofFields (-sign) exponent field := by
  rw [ofFields, ofFields, if_neg h, if_neg h]
  by_cases hexponent : exponent = 0#11
  · rw [if_pos hexponent, if_pos hexponent]
    by_cases hfield : field = 0#52
    · rw [dif_pos hfield, dif_pos hfield]
      rfl
    · rw [dif_neg hfield, dif_neg hfield]
      rfl
  · rw [if_neg hexponent, if_neg hexponent]
    rfl

/-- A finite number is packed from the fields that it is unpacked to. -/
theorem pack_ofFields (sign : Sign) {exponent : BitVec 11} (field : BitVec 52)
    (h : exponent ≠ -1#11) :
    UnpackedFloat.pack Format.binary64 (ofFields sign exponent field) =
      packComponents Format.binary64 sign exponent field := by
  rw [ofFields, if_neg h]
  by_cases hexponent : exponent = 0#11
  · subst hexponent
    rw [if_pos rfl]
    by_cases hfield : field = 0#52
    · subst hfield
      rfl
    · rw [dif_neg hfield]
      exact pack_subnormal sign field _
  · rw [if_neg hexponent]
    exact pack_normal sign field h _

theorem special?_eq_none_iff {x : Float} :
    special? x = none ↔ x.toBits.toNat % 2 ^ 63 < infinityBits := by
  unfold special?
  simp only [Nat.pow_eq]
  split
  · simp only [*]
  · split
    · simp only [*, reduceCtorEq, lt_irrefl]
    · simp only [*, reduceCtorEq]

/-- A change of sign moves the bits of a finite number by the weight of the sign. -/
theorem toNat_toBits_neg {x : Float} (h : special? x = none) :
    (-x).toBits.toNat =
      if x.toBits.toNat < 2 ^ 63 then x.toBits.toNat + 2 ^ 63 else x.toBits.toNat - 2 ^ 63 := by
  obtain ⟨sign, exponent, field, hbits⟩ := exists_packComponents x.toBits.toBitVec
  have hnat : x.toBits.toNat = _ :=
    (congrArg BitVec.toNat hbits).trans (toNat_packComponents sign exponent field)
  have hexponent : exponent ≠ -1#11 := by
    rintro rfl
    rw [special?_eq_none_iff, hnat] at h
    have : infinityBits = 2047 * 2 ^ 52 := rfl
    have : (-1#11).toNat = 2047 := rfl
    omega
  have hneg : (-x).toBits.toBitVec = packComponents Format.binary64 (-sign) exponent field := by
    show UnpackedFloat.pack Format.binary64
      (UnpackedFloat.unpack Format.binary64 x.toBits.toBitVec).neg = _
    rw [hbits, unpack_packComponents, neg_ofFields sign field hexponent,
      pack_ofFields (-sign) field hexponent]
  have hneg' : (-x).toBits.toNat = _ :=
    (congrArg BitVec.toNat hneg).trans (toNat_packComponents (-sign) exponent field)
  have hsign : (-sign).toBitVec.toNat = 1 - sign.toBitVec.toNat := by cases sign <;> rfl
  have hbit := sign.toBitVec.isLt
  have hexponent := exponent.isLt
  have hfield := field.isLt
  rw [hnat, hneg', hsign]
  split <;> omega

theorem magnitude_neg {x : Float} (h : special? x = none) :
    (-x).toBits.toNat % 2 ^ 63 = x.toBits.toNat % 2 ^ 63 := by
  have hbits := x.toBits.toNat_lt
  rw [toNat_toBits_neg h]
  split <;> omega

theorem special?_neg {x : Float} (h : special? x = none) : special? (-x) = none := by
  rw [special?_eq_none_iff, magnitude_neg h]
  exact special?_eq_none_iff.mp h

theorem parts_neg {x : Float} (h : special? x = none) :
    parts (-x) = { parts x with negative := !(parts x).negative } := by
  have hsign : decide ((-x).toBits.toNat ≥ 2 ^ 63) = !decide (x.toBits.toNat ≥ 2 ^ 63) := by
    have hbits := x.toBits.toNat_lt
    rw [toNat_toBits_neg h, ← decide_not, decide_eq_decide]
    split <;> omega
  unfold parts
  simp only [Nat.pow_eq, magnitude_neg h, hsign]
  split <;> rfl

theorem exact_neg {x : Float} (h : special? x = none) : exact (-x) = -exact x := by
  unfold exact Parts.value
  rw [parts_neg h]
  cases (parts x).negative <;> simp

end Binary64

end MotionScene
