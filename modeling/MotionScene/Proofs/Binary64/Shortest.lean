import MotionScene.Binary64.Shortest
import MotionScene.Proofs.Binary64.Nearest

/-!
# The shortest decimal rounds to its number

The decimal that a number is written as lies in the interval of the number (`roundsTo_shortest`):
one on a grid of powers of ten is taken only if it does, and where there is none the number is
written exactly.  So it is read back as the number that it was written for.
-/

namespace MotionScene

namespace Binary64

noncomputable def Decimal.value (d : Decimal) : ℝ :=
  decimalValue d.digits d.exponent

/-! ## The test -/

theorem scaled_eq {b c : ℝ} (hb : b ≠ 0) (hc : c ≠ 0) (a : ℝ) (i : ℤ) (j : ℤ) :
    a * b ^ i.toNat * c ^ (-j).toNat = a * b ^ i * (b ^ (-i).toNat * c ^ (-j).toNat) := by
  rw [← pow_toNat_div hb i]
  field_simp

/-- Scaled numbers are compared by their values. -/
theorem compareScaled_eq (a : ℕ) (i : ℤ) (b : ℕ) (j : ℤ) :
    (compareScaled a i b j = .lt ↔ (a : ℝ) * 10 ^ i < b * 2 ^ j) ∧
      (compareScaled a i b j = .gt ↔ (b : ℝ) * 2 ^ j < a * 10 ^ i) := by
  have hscale : (0 : ℝ) < 10 ^ (-i).toNat * 2 ^ (-j).toNat := by positivity
  have hleft : ((a * 10 ^ i.toNat * 2 ^ (-j).toNat : ℕ) : ℝ) =
      a * 10 ^ i * (10 ^ (-i).toNat * 2 ^ (-j).toNat) := by
    rw [← scaled_eq (by norm_num) two_ne_zero]
    push_cast
    rfl
  have hright : ((b * 2 ^ j.toNat * 10 ^ (-i).toNat : ℕ) : ℝ) =
      b * 2 ^ j * (10 ^ (-i).toNat * 2 ^ (-j).toNat) := by
    rw [mul_comm ((10 : ℝ) ^ _), ← scaled_eq two_ne_zero (by norm_num)]
    push_cast
    rfl
  unfold compareScaled
  simp only [Nat.pow_eq]
  rw [Nat.compare_eq_lt, Nat.compare_eq_gt, ← @Nat.cast_lt ℝ, ← @Nat.cast_lt ℝ, hleft, hright,
    mul_lt_mul_iff_left₀ hscale, mul_lt_mul_iff_left₀ hscale]
  exact ⟨Iff.rfl, Iff.rfl⟩

theorem roundsTo_of_readsBack {p : Parts} (hm : p.m ≠ 0) {d : Decimal}
    (h : p.readsBack d = true) : RoundsTo p d.value := by
  have hquarter : (2 : ℝ) ^ (p.q - 2) = 2 ^ p.q / 4 := by
    rw [zpow_sub₀ two_ne_zero]
    norm_num
  have hlow : ((4 * p.m - if p.m = 2 ^ 52 ∧ -1074 < p.q then 1 else 2 : ℕ) : ℝ) * 2 ^ (p.q - 2) =
      p.lowest := by
    have hle : (if p.m = 2 ^ 52 ∧ -1074 < p.q then 1 else 2) ≤ 4 * p.m := by split <;> omega
    rw [Nat.cast_sub hle, hquarter, p.lowest_eq, Parts.reachBelow]
    split <;> push_cast <;> ring
  have hhigh : ((4 * p.m + 2 : ℕ) : ℝ) * 2 ^ (p.q - 2) = p.highest := by
    rw [hquarter, p.highest_eq]
    push_cast
    ring
  unfold Parts.readsBack at h
  dsimp only at h
  simp only [Nat.pow_eq, gt_iff_lt] at h
  rw [RoundsTo, Decimal.value, decimalValue_eq, ← hlow, ← hhigh]
  split at h
  · rename_i heven
    rw [if_pos heven]
    rw [Bool.and_eq_true, decide_eq_true_iff, decide_eq_true_iff, Ne, Ne,
      (compareScaled_eq _ _ _ _).1, (compareScaled_eq _ _ _ _).2, not_lt, not_lt] at h
    exact h
  · rename_i hodd
    rw [if_neg hodd]
    rw [Bool.and_eq_true, decide_eq_true_iff, decide_eq_true_iff,
      (compareScaled_eq _ _ _ _).1, (compareScaled_eq _ _ _ _).2] at h
    exact h

/-! ## The choice -/

theorem roundsTo_of_onGrid {p : Parts} (hm : p.m ≠ 0) {k : ℤ} {d : Decimal}
    (h : p.onGrid? k = some d) : RoundsTo p d.value := by
  apply roundsTo_of_readsBack hm
  unfold Parts.onGrid? at h
  dsimp only at h
  split at h
  · cases h
  · cases h
    assumption
  · cases h
    assumption
  · split at h
    · cases h
      assumption
    · cases h
      assumption
    · cases h
      split <;> assumption

theorem value_exact (p : Parts) : p.exact.value = p.m * 2 ^ p.q := by
  rw [Decimal.value, decimalValue_eq, Parts.exact]
  simp only [Nat.pow_eq]
  push_cast
  rcases le_total 0 p.q with h | h
  · obtain ⟨n, hn⟩ := Int.eq_ofNat_of_zero_le h
    rw [hn]
    simp
  · obtain ⟨n, hn⟩ := Int.eq_ofNat_of_zero_le (by omega : 0 ≤ -p.q)
    obtain hq : p.q = -n := by omega
    rw [hq, min_eq_left (by omega), neg_neg, Int.toNat_natCast, Int.toNat_of_nonpos (by omega),
      zpow_neg, zpow_neg, zpow_natCast, zpow_natCast,
      show (10 : ℝ) = 5 * 2 by norm_num, mul_pow]
    field_simp

theorem value_stripped (d : Decimal) (limit : ℕ) : (d.stripped limit).value = d.value := by
  induction limit generalizing d with
  | zero => rfl
  | succ limit ih =>
      rw [Decimal.stripped]
      split
      · rename_i hzero
        have hdigits : (d.digits : ℝ) = (d.digits / 10 : ℕ) * 10 := by
          have : d.digits / 10 * 10 = d.digits := by omega
          exact_mod_cast this.symm
        rw [ih, Decimal.value, Decimal.value, decimalValue_eq, decimalValue_eq, hdigits,
          zpow_add_one₀ (by norm_num)]
        ring
      · rfl

/-- The decimal that a number is written as rounds to it. -/
theorem roundsTo_shortest {p : Parts} (hm : p.m ≠ 0) : RoundsTo p p.shortest.value := by
  unfold Parts.shortest
  dsimp only
  rw [value_stripped]
  cases hfound : (List.range 17).findSome? fun count => p.onGrid? (p.scale - (count : ℕ)) with
  | none =>
      rw [Option.getD_none, value_exact]
      exact roundsTo_self p
  | some d =>
      obtain ⟨count, -, hgrid⟩ := List.exists_of_findSome?_eq_some hfound
      exact roundsTo_of_onGrid hm hgrid

end Binary64

end MotionScene
