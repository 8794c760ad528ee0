import MotionScene.Proofs.Binary64

/-!
# Whole numbers as floating-point numbers

A whole number that is the value of a floating-point number is converted to one with that value
(`exists_ofInt?`).  Below `2 ^ 53` the conversion shifts the leading bit of the number to its place
and multiplies by one; nothing is rounded, since all that is shifted out is zero.  From there on the
bits are put together from the quotient by the power of two that leaves 53 bits, and this quotient
is exact, since the value of a floating-point number has no more bits than that.
-/

namespace MotionScene

namespace Binary64

open Float.Model (Format UnpackedFloat)
open Float.Model.UnpackedFloat

/-! ## Bits -/

/-- The sign of a number that may be negative. -/
def signOf (negative : Bool) : Sign :=
  if negative then .negative else .positive

theorem finite_congr {sign : Sign} {m n : ℕ} {e f : ℤ} {hm : 0 < m} {hn : 0 < n} (hmn : m = n)
    (hef : e = f) : UnpackedFloat.finite sign m e hm = .finite sign n f hn := by
  subst hmn hef
  rfl

/-- The parts of a normal number are read off its fields. -/
theorem parts_of_packComponents {x : Float} {negative : Bool} {exponent : BitVec 11}
    {field : BitVec 52} (hbits : x.toBits.toBitVec =
      packComponents Format.binary64 (signOf negative) exponent field)
    (hzero : exponent ≠ 0#11) (hones : exponent ≠ -1#11) :
    special? x = none ∧
      parts x = ⟨negative, 2 ^ 52 + field.toNat, (exponent.toNat : ℤ) - 1075⟩ := by
  have hnat : x.toBits.toNat = _ :=
    (congrArg BitVec.toNat hbits).trans (toNat_packComponents (signOf negative) exponent field)
  have hfield := field.isLt
  have hpos : exponent.toNat ≠ 0 := fun h => hzero (BitVec.eq_of_toNat_eq h)
  have hbelow : exponent.toNat < 2047 := by
    have hne : exponent.toNat ≠ 2047 := fun h => hones (BitVec.eq_of_toNat_eq h)
    have := exponent.isLt
    omega
  have hsign : (signOf negative).toBitVec.toNat = if negative then 1 else 0 := by
    cases negative <;> rfl
  rw [hsign] at hnat
  have hmagnitude : x.toBits.toNat % 2 ^ 63 = exponent.toNat * 2 ^ 52 + field.toNat := by
    rw [hnat]
    split <;> omega
  have hnegative : decide (x.toBits.toNat ≥ 2 ^ 63) = negative := by
    rw [hnat]
    cases negative with
    | false => exact decide_eq_false (by simp only [Bool.false_eq_true, if_false]; omega)
    | true => exact decide_eq_true (by simp only [if_true]; omega)
  have hbiased : (exponent.toNat * 2 ^ 52 + field.toNat) / 2 ^ 52 = exponent.toNat := by omega
  have hrest : (exponent.toNat * 2 ^ 52 + field.toNat) % 2 ^ 52 = field.toNat := by omega
  constructor
  · rw [special?_eq_none_iff, hmagnitude]
    have : infinityBits = 2047 * 2 ^ 52 := rfl
    omega
  · unfold parts
    simp only [Nat.pow_eq, hmagnitude, hnegative, hbiased, hrest, hpos, if_false]

theorem log2_eq_of_lt {m : ℕ} (hlower : 2 ^ 52 ≤ m) (hupper : m < 2 ^ 53) : m.log2 = 52 :=
  (Nat.log2_eq_iff (by omega)).mpr ⟨hlower, hupper⟩

theorem log2_mul_two_pow {m : ℕ} (hlower : 2 ^ 52 ≤ m) (hupper : m < 2 ^ 53) (k : ℕ) :
    (m * 2 ^ k).log2 = 52 + k := by
  have hpow : 0 < 2 ^ k := Nat.two_pow_pos k
  rw [Nat.log2_eq_iff (by positivity)]
  constructor
  · rw [pow_add]
    exact Nat.mul_le_mul_right _ hlower
  · rw [show 52 + k + 1 = 53 + k by omega, pow_add]
    exact Nat.mul_lt_mul_of_pos_right hupper hpow

/-- Zeros are shifted out without a trace. -/
theorem shiftRight_mul_two_pow (m k : ℕ) :
    (ExtendedMantissa.mk (m * 2 ^ k) false false) >>> k = ⟨m, false, false⟩ := by
  show Nat.repeat ExtendedMantissa.shiftRightOne k _ = _
  induction k generalizing m with
  | zero => rw [pow_zero, mul_one]; rfl
  | succ k ih =>
      rw [Nat.repeat, pow_succ', ← mul_assoc, ih]
      simp [ExtendedMantissa.shiftRightOne]

/-- What is rounded keeps 53 bits, or fewer where its exponent would be too small. -/
theorem targetExponent_eq (exponent : ℤ) :
    Format.binary64.targetExponent exponent = max (exponent - 53) (-1074) :=
  rfl

/-- A number of 53 bits is not rounded. -/
theorem roundWithAccuracy_exact (sign : Sign) {m : ℕ} {e : ℤ} (hlower : 2 ^ 52 ≤ m)
    (hupper : m < 2 ^ 53) (he : -1074 ≤ e) (k : ℕ) :
    roundWithAccuracy Format.binary64 sign (m * 2 ^ k) (e - k) .exact =
      .finite sign m e (by omega) := by
  have htarget : ∀ k : ℕ, Format.binary64.targetExponent
      (Float.Model.totalExponent (m * 2 ^ k) (e - k)) = e := by
    intro k
    rw [targetExponent_eq, Float.Model.totalExponent, log2_mul_two_pow hlower hupper]
    push_cast
    omega
  have hshift : ∀ k : ℕ, shiftToTargetExponent Format.binary64 (m * 2 ^ k) (e - k) .exact =
      (⟨m, false, false⟩, e) := by
    intro k
    have hk : (e - (e - (k : ℤ))).toNat = k := by omega
    rw [shiftToTargetExponent, htarget, shiftToExponent]
    simp only [hk, ExtendedMantissa.ofMantissaAndAccuracy, shiftRight_mul_two_pow, sub_add_cancel]
  have hagain := hshift 0
  rw [pow_zero, mul_one, Nat.cast_zero, sub_zero] at hagain
  have hrounded : (ExtendedMantissa.mk m false false).roundedMantissa = m := rfl
  have hm : m ≠ 0 := by omega
  rw [roundWithAccuracy, hshift]
  dsimp only
  rw [hrounded, hagain]
  exact dif_neg hm

/-! ## Numbers of 53 bits -/

section Normal

variable {m : ℕ} {e : ℤ} (hlower : 2 ^ 52 ≤ m) (hupper : m < 2 ^ 53) (he : -1074 ≤ e)
  (hlarge : e ≤ 971)

include hlower hupper he hlarge

/-- A number of 53 bits is packed into fields of its own. -/
theorem exists_pack (negative : Bool) (hpos : 0 < m) :
    ∃ (exponent : BitVec 11) (field : BitVec 52),
      UnpackedFloat.pack Format.binary64 (.finite (signOf negative) m e hpos) =
        packComponents Format.binary64 (signOf negative) exponent field ∧
      exponent ≠ 0#11 ∧ exponent ≠ -1#11 ∧ 2 ^ 52 + field.toNat = m ∧
      (exponent.toNat : ℤ) - 1075 = e := by
  have hlog := log2_eq_of_lt hlower hupper
  have hbias : (Format.binary64.exponentBias : ℤ) = 1023 := by decide
  have hexponent : (BitVec.ofNat 11 (e + 1075).toNat).toNat = (e + 1075).toNat := by
    rw [BitVec.toNat_ofNat, Nat.mod_eq_of_lt (by omega)]
  refine ⟨BitVec.ofNat 11 (e + 1075).toNat, BitVec.ofNat 52 m, ?_, ?_, ?_, ?_, ?_⟩
  · have hbiased : (e + Format.binary64.exponentBias + (52 : ℕ)).toNat = (e + 1075).toNat := by
      rw [hbias]
      omega
    rw [pack_finite, hbiased, hlog, if_neg (by omega), if_pos rfl]
  · intro h
    have := congrArg BitVec.toNat h
    rw [hexponent] at this
    simp at this
    omega
  · intro h
    have := congrArg BitVec.toNat h
    rw [hexponent] at this
    have hones : (-1#11).toNat = 2047 := rfl
    omega
  · rw [BitVec.toNat_ofNat]
    omega
  · rw [hexponent]
    omega

theorem unpack_pack (negative : Bool) (hpos : 0 < m) :
    UnpackedFloat.unpack Format.binary64
      (UnpackedFloat.pack Format.binary64 (.finite (signOf negative) m e hpos)) =
        .finite (signOf negative) m e hpos := by
  obtain ⟨exponent, field, hpack, hzero, hones, rfl, rfl⟩ :=
    exists_pack hlower hupper he hlarge negative hpos
  rw [hpack, unpack_packComponents, ofFields, if_neg hones, if_neg hzero]
  exact finite_congr (toNat_one_append field) rfl

/-- The parts of a number whose bits are those of a number of 53 bits. -/
theorem parts_of_pack {x : Float} {negative : Bool} {hpos : 0 < m} (hbits : x.toBits.toBitVec =
      UnpackedFloat.pack Format.binary64 (.finite (signOf negative) m e hpos)) :
    special? x = none ∧ parts x = ⟨negative, m, e⟩ := by
  obtain ⟨exponent, field, hpack, hzero, hones, rfl, rfl⟩ :=
    exists_pack hlower hupper he hlarge negative hpos
  exact parts_of_packComponents (hbits.trans hpack) hzero hones

end Normal

/-! ## Small numbers -/

theorem unpack_one : UnpackedFloat.unpack Format.binary64
    (Float.ofBits 0x3FF0000000000000).toBits.toBitVec =
      .finite .positive (2 ^ 52) (-52) (Nat.two_pow_pos 52) := by
  have hbits : (Float.ofBits 0x3FF0000000000000).toBits.toBitVec =
    packComponents Format.binary64 .positive 1023#11 0#52 := by decide +kernel
  rw [hbits, unpack_packComponents]
  rfl

/-- A number with its leading bit at the 53rd place. -/
def aligned (n : ℕ) : ℕ :=
  n * 2 ^ (52 - n.log2)

section Small

variable {n : ℕ} (hpos : 0 < n) (hsmall : n < 2 ^ 53)

include hpos hsmall

theorem log2_le : n.log2 ≤ 52 := by
  have := (Nat.log2_lt hpos.ne').mpr hsmall
  omega

theorem aligned_mem : 2 ^ 52 ≤ aligned n ∧ aligned n < 2 ^ 53 := by
  have hlog := log2_le hpos hsmall
  have hsplit (k : ℕ) : 2 ^ (n.log2 + k) * 2 ^ (52 - n.log2) = 2 ^ (52 + k) := by
    rw [← pow_add]
    congr 1
    omega
  constructor
  · calc 2 ^ 52 = 2 ^ n.log2 * 2 ^ (52 - n.log2) := (hsplit 0).symm
      _ ≤ aligned n := Nat.mul_le_mul_right _ (Nat.log2_self_le hpos.ne')
  · calc aligned n < 2 ^ (n.log2 + 1) * 2 ^ (52 - n.log2) :=
        Nat.mul_lt_mul_of_pos_right Nat.lt_log2_self (Nat.two_pow_pos _)
      _ = 2 ^ 53 := hsplit 1

/-- A small number is taken as it is, with its leading bit moved to its place. -/
theorem unpackedOfNat_eq : UnpackedFloat.ofNat Format.binary64 n =
    .finite (signOf false) (aligned n) (n.log2 - 52)
      (by have := aligned_mem hpos hsmall; omega) := by
  have hlog := log2_le hpos hsmall
  have hmem := aligned_mem hpos hsmall
  have htarget : Format.binary64.targetExponent (Float.Model.totalExponent n 0) =
      (n.log2 : ℤ) - 52 := by
    rw [targetExponent_eq, Float.Model.totalExponent]
    omega
  have hshift : (0 - ((n.log2 : ℤ) - 52)).toNat = 52 - n.log2 := by omega
  have hcompare : compare (n : ℤ) 0 = .gt := compare_gt_iff_gt.mpr (by exact_mod_cast hpos)
  have hround := roundWithAccuracy_exact .positive (m := aligned n) (e := n.log2 - 52) hmem.1 hmem.2
    (by omega) 0
  have hexponent : (0 : ℤ) - (52 - n.log2 : ℕ) = n.log2 - 52 := by omega
  rw [pow_zero, mul_one, Nat.cast_zero, sub_zero] at hround
  rw [UnpackedFloat.ofNat, UnpackedFloat.ofInt, UnpackedFloat.normalize, hcompare]
  dsimp only
  rw [Int.toNat_natCast, UnpackedFloat.round, htarget, decreaseExponent, hshift]
  dsimp only
  rw [Nat.shiftLeft_eq, hexponent]
  exact hround

/-- A small number keeps its leading bits when it is multiplied by one. -/
theorem toBits_ofNat : (Float.ofNat n).toBits.toBitVec =
    UnpackedFloat.pack Format.binary64 (.finite (signOf false) (aligned n) (n.log2 - 52)
      (by have := aligned_mem hpos hsmall; omega)) := by
  have hlog := log2_le hpos hsmall
  have hmem := aligned_mem hpos hsmall
  have hdef : Float.ofNat n = n.toUInt64.toFloat * Float.ofBits 0x3FF0000000000000 := by
    show Float.ofScientific n false 0 = _
    rw [Float.ofScientific, dif_pos ⟨hsmall, by decide⟩]
    rfl
  have hmul : (n.toUInt64.toFloat * Float.ofBits 0x3FF0000000000000).toBits.toBitVec =
      UnpackedFloat.pack Format.binary64 (UnpackedFloat.mul Format.binary64
        (UnpackedFloat.unpack Format.binary64 (UnpackedFloat.pack Format.binary64
          (UnpackedFloat.ofNat Format.binary64 n.toUInt64.toNat)))
        (UnpackedFloat.unpack Format.binary64 (Float.ofBits 0x3FF0000000000000).toBits.toBitVec)) :=
    rfl
  -- the significand of one is a power of two, so the product has as many zeros more at its end
  have hround := roundWithAccuracy_exact .positive (m := aligned n) (e := n.log2 - 52) hmem.1 hmem.2
    (by omega) 52
  have hnat : n.toUInt64.toNat = n := by
    show n % 2 ^ 64 = n
    omega
  rw [hdef, hmul, unpack_one, hnat, unpackedOfNat_eq hpos hsmall,
    unpack_pack hmem.1 hmem.2 (by omega) (by omega) false]
  exact congrArg (UnpackedFloat.pack Format.binary64) hround

/-- A small number is converted to its own value. -/
theorem ofNat_small : special? (Float.ofNat n) = none ∧ exact (Float.ofNat n) = n := by
  have hlog := log2_le hpos hsmall
  have hmem := aligned_mem hpos hsmall
  obtain ⟨hfinite, hparts⟩ := parts_of_pack hmem.1 hmem.2 (by omega) (by omega)
    (toBits_ofNat hpos hsmall)
  refine ⟨hfinite, ?_⟩
  have hshift : (2 : ℝ) ^ (52 - n.log2) * 2 ^ ((n.log2 : ℤ) - 52) = 1 := by
    rw [← zpow_natCast, ← zpow_add₀ two_ne_zero, Nat.cast_sub hlog]
    norm_num
  rw [exact, hparts, Parts.value]
  simp only [Bool.false_eq_true, if_false, one_mul, aligned, Nat.cast_mul, Nat.cast_pow,
    Nat.cast_ofNat]
  rw [mul_assoc, hshift, mul_one]

end Small

/-- A small number of either sign is converted to its own value. -/
theorem ofInt_small {n : ℤ} (h : n.natAbs < 2 ^ 53) :
    special? (Float.ofInt n) = none ∧ exact (Float.ofInt n) = n := by
  have hnat : ∀ {k : ℕ}, k < 2 ^ 53 →
      special? (Float.ofNat k) = none ∧ exact (Float.ofNat k) = k := by
    intro k hk
    rcases Nat.eq_zero_or_pos k with rfl | hpos
    · have hzero : special? (Float.ofNat 0) = none ∧ parts (Float.ofNat 0) = ⟨false, 0, -1074⟩ := by
        decide +kernel
      exact ⟨hzero.1, by simp [exact, Parts.value, hzero.2]⟩
    · exact ofNat_small hpos hk
  cases n with
  | ofNat k => exact hnat h
  | negSucc k =>
      obtain ⟨hfinite, hexact⟩ := hnat (k := k + 1) h
      refine ⟨special?_neg hfinite, (exact_neg hfinite).trans ?_⟩
      rw [hexact, Int.cast_negSucc]

/-! ## Large numbers -/

theorem bounds_of_special? {x : Float} (h : special? x = none) :
    (parts x).m < 2 ^ 53 ∧ (parts x).q ≤ 971 := by
  rw [special?_eq_none_iff] at h
  have : infinityBits = 2047 * 2 ^ 52 := rfl
  unfold parts
  simp only [Nat.pow_eq]
  split <;> constructor <;> dsimp only <;> omega

/-- A whole number that is finite and has more than 53 bits ends in zeros. -/
theorem exists_eq_mul_two_pow {x : Float} {n : ℤ} (hfinite : special? x = none)
    (hexact : exact x = n) (hlarge : 2 ^ 53 ≤ n.natAbs) :
    ∃ m k : ℕ, n.natAbs = m * 2 ^ k ∧ 2 ^ 52 ≤ m ∧ m < 2 ^ 53 ∧ k ≤ 971 := by
  obtain ⟨hm, hq⟩ := bounds_of_special? hfinite
  have hvalue : ((parts x).m : ℝ) * 2 ^ (parts x).q = n.natAbs := by
    have habs : |exact x| = (parts x).m * 2 ^ (parts x).q := by
      rw [exact, Parts.value, Nat.cast_ofNat, abs_mul, abs_mul, Nat.abs_cast, abs_zpow,
        abs_of_pos (two_pos : (0 : ℝ) < 2)]
      split <;> simp
    rw [← habs, hexact, Nat.cast_natAbs, Int.cast_abs]
  -- the exponent is that of a whole power of two, since the significand alone is too small
  obtain ⟨k, hk⟩ : ∃ k : ℕ, (parts x).q = k := by
    refine Int.eq_ofNat_of_zero_le (le_of_not_gt fun hneg => ?_)
    have hle : (2 : ℝ) ^ (parts x).q ≤ 1 := zpow_le_one_of_nonpos₀ one_le_two hneg.le
    have hbelow : (n.natAbs : ℝ) ≤ (parts x).m := by
      rw [← hvalue]
      exact mul_le_of_le_one_right (Nat.cast_nonneg _) hle
    have : n.natAbs ≤ (parts x).m := by exact_mod_cast hbelow
    omega
  have hsplit : n.natAbs = (parts x).m * 2 ^ k := by
    rw [hk, zpow_natCast] at hvalue
    exact_mod_cast hvalue.symm
  have hlog : n.natAbs.log2 < 53 + k := by
    rw [Nat.log2_lt (by omega), hsplit, pow_add]
    exact Nat.mul_lt_mul_of_pos_right hm (Nat.two_pow_pos k)
  have hlog' : 53 ≤ n.natAbs.log2 := (Nat.le_log2 (by omega)).mpr hlarge
  obtain ⟨c, hc⟩ : 2 ^ (n.natAbs.log2 - 52) ∣ n.natAbs := by
    rw [hsplit]
    exact Dvd.dvd.mul_left (pow_dvd_pow 2 (by rw [← hsplit]; omega)) _
  have hpow : 0 < 2 ^ (n.natAbs.log2 - 52) := Nat.two_pow_pos _
  refine ⟨c, n.natAbs.log2 - 52, by rw [mul_comm]; exact hc, ?_, ?_, by omega⟩
  · refine Nat.le_of_mul_le_mul_left ?_ hpow
    rw [← hc, ← pow_add, show n.natAbs.log2 - 52 + 52 = n.natAbs.log2 by omega]
    exact Nat.log2_self_le (by omega)
  · refine Nat.lt_of_mul_lt_mul_left (a := 2 ^ (n.natAbs.log2 - 52)) ?_
    rw [← hc, ← pow_add, show n.natAbs.log2 - 52 + 53 = n.natAbs.log2 + 1 by omega]
    exact Nat.lt_log2_self

section Large

variable {m k : ℕ} (hlower : 2 ^ 52 ≤ m) (hupper : m < 2 ^ 53)

include hlower hupper

theorem nearestBits_mul_two_pow :
    nearestBits (m * 2 ^ k) 1 = (k + 1075) * 2 ^ 52 + (m - 2 ^ 52) := by
  have hpow : 0 < 2 ^ k := Nat.two_pow_pos k
  have hnonzero : m * 2 ^ k ≠ 0 := (Nat.mul_pos (by omega) hpow).ne'
  have hestimate : ((52 + k : ℕ) : ℤ) - (Nat.log2 1 : ℕ) - 52 = k := by
    rw [show Nat.log2 1 = 0 from rfl]
    omega
  -- the estimate of the exponent is right, since the leading bit is where the quotient expects it
  have hleading : ¬m * 2 ^ k * 2 ^ (-(k : ℤ)).toNat < 1 * 2 ^ (52 + (k : ℤ).toNat) := by
    rw [show (-(k : ℤ)).toNat = 0 by omega, Int.toNat_natCast, pow_zero, mul_one, one_mul, pow_add,
      not_lt]
    exact Nat.mul_le_mul_right _ hlower
  have hrounded : roundScaled (m * 2 ^ k) 1 k = m := by
    rw [roundScaled, roundQuotient]
    simp only [Nat.pow_eq, show (-(k : ℤ)).toNat = 0 by omega, Int.toNat_natCast, pow_zero, mul_one,
      one_mul, Nat.mul_div_cancel _ hpow, Nat.mul_mod_left, Nat.mul_zero, hpow, if_true]
  unfold nearestBits
  simp only [Nat.pow_eq, log2_mul_two_pow hlower hupper k, hestimate]
  rw [if_neg hnonzero, if_neg hleading, max_eq_left (by omega), hrounded]
  omega

theorem ofMagnitude_normal (negative : Bool) (hk : k ≤ 971) :
    special? (ofMagnitude negative ((k + 1075) * 2 ^ 52 + (m - 2 ^ 52))) = none ∧
      parts (ofMagnitude negative ((k + 1075) * 2 ^ 52 + (m - 2 ^ 52))) = ⟨negative, m, k⟩ := by
  have hpos : 0 < m := by omega
  have hexponent : -1074 ≤ (k : ℤ) ∧ (k : ℤ) ≤ 971 := by omega
  obtain ⟨exponent, field, hpack, -, -, hsignificand, hscale⟩ :=
    exists_pack hlower hupper hexponent.1 hexponent.2 negative hpos
  have hgiven : (UInt64.ofNat (min ((k + 1075) * 2 ^ 52 + (m - 2 ^ 52)) infinityBits +
      if negative then Nat.pow 2 63 else 0)).toBitVec =
        UnpackedFloat.pack Format.binary64 (.finite (signOf negative) m k hpos) := by
    have hfinite : (k + 1075) * 2 ^ 52 + (m - 2 ^ 52) ≤ infinityBits := by
      have : infinityBits = 2047 * 2 ^ 52 := rfl
      omega
    have hsign : (if negative then 2 ^ 63 else 0) = (signOf negative).toBitVec.toNat * 2 ^ 63 := by
      cases negative <;> rfl
    have hbit := (signOf negative).toBitVec.isLt
    rw [hpack]
    apply BitVec.eq_of_toNat_eq
    rw [toNat_packComponents, UInt64.toNat_toBitVec, UInt64.toNat_ofNat', min_eq_left hfinite,
      Nat.pow_eq, hsign, Nat.mod_eq_of_lt (by omega)]
    omega
  have hbits : (ofMagnitude negative ((k + 1075) * 2 ^ 52 + (m - 2 ^ 52))).toBits.toBitVec =
      UnpackedFloat.pack Format.binary64 (.finite (signOf negative) m k hpos) := by
    show UnpackedFloat.pack Format.binary64 (UnpackedFloat.unpack Format.binary64
      (UInt64.ofNat _).toBitVec) = _
    rw [hgiven, unpack_pack hlower hupper hexponent.1 hexponent.2]
  exact parts_of_pack hlower hupper hexponent.1 hexponent.2 hbits

end Large

/-- A whole number that is the value of a floating-point number is converted to that value. -/
theorem exists_ofInt? {n : ℤ} (h : ∃ y, special? y = none ∧ exact y = n) :
    ∃ x, ofInt? n = some x ∧ special? x = none ∧ exact x = n := by
  obtain ⟨y, hfinite, hexact⟩ := h
  unfold ofInt?
  rw [Nat.pow_eq]
  split
  · rename_i hsmall
    exact ⟨_, rfl, ofInt_small hsmall⟩
  · rename_i hlarge
    obtain ⟨m, k, hsplit, hlower, hupper, hk⟩ :=
      exists_eq_mul_two_pow hfinite hexact (not_lt.mp hlarge)
    have hbits := nearestBits_mul_two_pow (k := k) hlower hupper
    have hbelow : (k + 1075) * 2 ^ 52 + (m - 2 ^ 52) < infinityBits := by
      have : infinityBits = 2047 * 2 ^ 52 := rfl
      omega
    obtain ⟨hnone, hparts⟩ := ofMagnitude_normal hlower hupper (decide (n < 0)) hk
    refine ⟨_, ?_, hnone, ?_⟩
    · rw [quotient?, hsplit, show Int.natAbs 1 = 1 from rfl, hbits, if_pos hbelow]
      simp
    · have hcast : (m : ℝ) * 2 ^ k = |(n : ℝ)| := by
        rw [← Int.cast_abs, ← Nat.cast_natAbs, hsplit]
        push_cast
        rfl
      rw [exact, hparts, Parts.value, Nat.cast_ofNat, zpow_natCast, mul_assoc, hcast]
      by_cases hneg : n < 0
      · simp [hneg, abs_of_neg (Int.cast_lt_zero.mpr hneg : (n : ℝ) < 0)]
      · simp [hneg, abs_of_nonneg (Int.cast_nonneg (not_lt.mp hneg) : (0 : ℝ) ≤ n)]

end Binary64

end MotionScene
