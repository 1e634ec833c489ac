import Mathlib.Algebra.Order.Field.Rat
import Mathlib.Algebra.Order.Field.Power
import Mathlib.Order.Compare
import Mathlib.Tactic.Ring
import Mathlib.Tactic.Linarith
import TypedData.Decimal.Basic

/-!
# The numbers that decimals denote

A decimal denotes a rational number, and many forms denote the same one. Equality and order of
decimals never look at the form: they are equality and order of the rationals.

## Main definitions

* `Decimal.toRat` — the rational number a decimal denotes

## Main results

* `Decimal.toRat_normalize` — the form without trailing zeros denotes the same number
* `Decimal.same_iff` — decimals are equal exactly if they denote the same number
* `Decimal.compare_eq` — decimals are ordered as the numbers they denote
-/

namespace TypedData.Decimal

/-- The rational number a decimal denotes. -/
def toRat (d : Decimal) : ℚ := d.digits * (10 : ℚ) ^ (-d.scale)

/-! ### The form without trailing zeros -/

theorem dropZeros_spec (n : Nat) (scale : Int) :
    ∃ k : Nat, n = (dropZeros n scale).1 * 10 ^ k ∧ (dropZeros n scale).2 = scale - k := by
  fun_induction dropZeros n scale with
  | case1 n scale h ih =>
    obtain ⟨k, hn, hs⟩ := ih
    refine ⟨k + 1, ?_, by rw [hs]; push_cast; ring⟩
    calc n = 10 * (n / 10) := (Nat.mul_div_cancel' (Nat.dvd_of_mod_eq_zero h.2)).symm
      _ = 10 * ((dropZeros (n / 10) (scale - 1)).1 * 10 ^ k) := by rw [← hn]
      _ = (dropZeros (n / 10) (scale - 1)).1 * 10 ^ (k + 1) := by ring
  | case2 n scale h => exact ⟨0, by simp, by simp⟩

theorem dropZeros_mod {n : Nat} (scale : Int) (hn : n ≠ 0) : (dropZeros n scale).1 % 10 ≠ 0 := by
  fun_induction dropZeros n scale with
  | case1 n scale h ih => exact ih (by omega)
  | case2 n scale h => exact fun hmod => h ⟨hn, hmod⟩

/-- A form is the form without trailing zeros and as many zeros as the scale went down by. -/
theorem exists_normalize (d : Decimal) (h : d.digits ≠ 0) :
    ∃ k : Nat, d.digits = d.normalize.digits * 10 ^ k ∧ d.normalize.scale = d.scale - k := by
  obtain ⟨k, hdigits, hscale⟩ := dropZeros_spec d.digits.natAbs d.scale
  refine ⟨k, ?_, by rw [normalize, if_neg h]; exact hscale⟩
  rw [normalize, if_neg h]
  calc d.digits = d.digits.sign * d.digits.natAbs := (Int.sign_mul_natAbs _).symm
    _ = d.digits.sign * ((dropZeros d.digits.natAbs d.scale).1 * 10 ^ k : Nat) := by rw [← hdigits]
    _ = d.digits.sign * (dropZeros d.digits.natAbs d.scale).1 * 10 ^ k := by push_cast; ring

theorem normalize_of_digits_eq_zero {d : Decimal} (h : d.digits = 0) : d.normalize = ⟨0, 0⟩ := by
  rw [normalize, if_pos h]

/-- The form without trailing zeros denotes the same number. -/
theorem toRat_normalize (d : Decimal) : d.normalize.toRat = d.toRat := by
  by_cases h : d.digits = 0
  · simp [normalize_of_digits_eq_zero h, toRat, h]
  · obtain ⟨k, hdigits, hscale⟩ := exists_normalize d h
    have hpow : (10 : ℚ) ^ (-(d.scale - k)) = 10 ^ k * 10 ^ (-d.scale) := by
      rw [neg_sub, sub_eq_add_neg, zpow_add₀ (by norm_num), zpow_natCast]
    rw [toRat, toRat, hscale, hpow, hdigits]
    push_cast
    ring

theorem normalize_digits_eq_zero_iff {d : Decimal} : d.normalize.digits = 0 ↔ d.digits = 0 := by
  constructor
  · intro h
    by_contra hne
    obtain ⟨k, hdigits, -⟩ := exists_normalize d hne
    exact hne (by rw [hdigits, h, zero_mul])
  · intro h
    rw [normalize_of_digits_eq_zero h]

theorem normalize_digits_mod {d : Decimal} (h : d.digits ≠ 0) : d.normalize.digits % 10 ≠ 0 := by
  have hmod := dropZeros_mod d.scale (Int.natAbs_ne_zero.mpr h)
  rw [normalize, if_neg h]
  rcases Int.lt_or_gt_of_ne h with hneg | hpos
  · simp only [Int.sign_eq_neg_one_of_neg hneg]
    omega
  · simp only [Int.sign_eq_one_of_pos hpos]
    omega

/-! ### Equality -/

theorem toRat_eq_zero_iff {d : Decimal} : d.toRat = 0 ↔ d.digits = 0 := by
  have hpow : (10 : ℚ) ^ (-d.scale) ≠ 0 := zpow_ne_zero _ (by norm_num)
  rw [toRat, mul_eq_zero_iff_right hpow, Int.cast_eq_zero]

/-- Digits that do not end in zero and the power of ten beside them are determined by the
number. -/
private theorem digits_eq_of_scale_le {m n s t : Int} (hn : n % 10 ≠ 0) (hst : s ≤ t)
    (h : (m : ℚ) * (10 : ℚ) ^ (-s) = n * (10 : ℚ) ^ (-t)) : m = n ∧ s = t := by
  have hpow : (10 : ℚ) ^ (-s) = 10 ^ (t - s).toNat * 10 ^ (-t) := by
    rw [← zpow_natCast, Int.toNat_of_nonneg (by omega), ← zpow_add₀ (by norm_num)]
    congr 1
    ring
  have hne : (10 : ℚ) ^ (-t) ≠ 0 := zpow_ne_zero _ (by norm_num)
  rw [hpow, ← mul_assoc] at h
  have hdigits : m * 10 ^ (t - s).toNat = n := by
    exact_mod_cast mul_right_cancel₀ hne h
  match hk : (t - s).toNat with
  | 0 =>
    rw [hk, pow_zero, mul_one] at hdigits
    exact ⟨hdigits, by omega⟩
  | k + 1 =>
    -- Otherwise the digits on the right would end in zero.
    rw [hk, pow_succ, ← mul_assoc] at hdigits
    exact absurd (hdigits ▸ Int.mul_emod_left _ _) hn

/-- Numbers have one form without trailing zeros. -/
theorem normalize_eq_of_toRat_eq {a b : Decimal} (h : a.toRat = b.toRat) :
    a.normalize = b.normalize := by
  by_cases ha : a.digits = 0
  · have hb : b.digits = 0 := by rwa [← toRat_eq_zero_iff, ← h, toRat_eq_zero_iff]
    rw [normalize_of_digits_eq_zero ha, normalize_of_digits_eq_zero hb]
  · have hb : b.digits ≠ 0 := by rwa [← toRat_eq_zero_iff.ne, ← h, toRat_eq_zero_iff.ne]
    rw [← toRat_normalize a, ← toRat_normalize b] at h
    have heq : a.normalize.digits = b.normalize.digits ∧ a.normalize.scale = b.normalize.scale := by
      rcases le_total a.normalize.scale b.normalize.scale with hle | hle
      · exact digits_eq_of_scale_le (normalize_digits_mod hb) hle h
      · obtain ⟨hd, hs⟩ := digits_eq_of_scale_le (normalize_digits_mod ha) hle h.symm
        exact ⟨hd.symm, hs.symm⟩
    cases ha' : a.normalize
    cases hb' : b.normalize
    simpa [ha', hb'] using heq

/-- Decimals are equal exactly if they denote the same number. -/
theorem same_iff {a b : Decimal} : a.same b ↔ a.toRat = b.toRat := by
  rw [same, decide_eq_true_eq]
  refine ⟨fun h => ?_, normalize_eq_of_toRat_eq⟩
  rw [← toRat_normalize a, h, toRat_normalize]

/-! ### Order -/

theorem digitCount_pos (n : Nat) : 0 < digitCount n := Nat.length_toDigits_pos

theorem lt_pow_digitCount (n : Nat) : n < 10 ^ digitCount n :=
  (Nat.length_toDigits_le_iff (by norm_num) (digitCount_pos n)).mp le_rfl

theorem pow_le_of_ne_zero {n : Nat} (h : n ≠ 0) : 10 ^ (digitCount n - 1) ≤ n := by
  rcases Nat.eq_zero_or_pos (digitCount n - 1) with hk | hk
  · rw [hk]
    exact Nat.one_le_iff_ne_zero.mpr h
  · have hlt : ¬ digitCount n ≤ digitCount n - 1 := by omega
    exact Nat.le_of_not_lt fun h' =>
      hlt ((Nat.length_toDigits_le_iff (by norm_num) hk).mpr h')

theorem abs_toRat (d : Decimal) : |d.toRat| = d.digits.natAbs * (10 : ℚ) ^ (-d.scale) := by
  rw [toRat, abs_mul, abs_of_pos (zpow_pos (by norm_num : (0 : ℚ) < 10) _), Nat.cast_natAbs,
    Int.cast_abs]

theorem abs_toRat_lt (d : Decimal) : |d.toRat| < (10 : ℚ) ^ d.leading := by
  have hlt : (d.digits.natAbs : ℚ) < 10 ^ digitCount d.digits.natAbs := by
    exact_mod_cast lt_pow_digitCount _
  rw [abs_toRat, leading, sub_eq_add_neg, zpow_add₀ (by norm_num), zpow_natCast]
  exact mul_lt_mul_of_pos_right hlt (zpow_pos (by norm_num) _)

theorem le_abs_toRat {d : Decimal} (h : d.digits ≠ 0) : (10 : ℚ) ^ (d.leading - 1) ≤ |d.toRat| := by
  have hpos := digitCount_pos d.digits.natAbs
  have hle : (10 : ℚ) ^ (digitCount d.digits.natAbs - 1) ≤ d.digits.natAbs := by
    exact_mod_cast pow_le_of_ne_zero (Int.natAbs_ne_zero.mpr h)
  have hexp : d.leading - 1 = ((digitCount d.digits.natAbs - 1 : Nat) : Int) + -d.scale := by
    rw [leading]
    omega
  rw [abs_toRat, hexp, zpow_add₀ (by norm_num), zpow_natCast]
  exact mul_le_mul_of_nonneg_right hle (zpow_nonneg (by norm_num) _)

/-- The place of the leading digit decides between magnitudes. -/
theorem abs_lt_of_leading_lt {a b : Decimal} (hb : b.digits ≠ 0) (h : a.leading < b.leading) :
    |a.toRat| < |b.toRat| :=
  calc |a.toRat| < (10 : ℚ) ^ a.leading := abs_toRat_lt a
    _ ≤ (10 : ℚ) ^ (b.leading - 1) := zpow_le_zpow_right₀ (by norm_num) (by omega)
    _ ≤ |b.toRat| := le_abs_toRat hb

/-- The place of the leading digit does not depend on the form. -/
theorem leading_normalize {d : Decimal} (h : d.digits ≠ 0) : d.normalize.leading = d.leading := by
  have hne : d.normalize.digits ≠ 0 := normalize_digits_eq_zero_iff.not.mpr h
  have hbelow {a b : Decimal} (ha : a.digits ≠ 0) (heq : a.toRat = b.toRat) :
      a.leading ≤ b.leading := by
    by_contra hlt
    exact (abs_lt_of_leading_lt ha (not_le.mp hlt)).ne (congrArg _ heq.symm)
  exact le_antisymm (hbelow hne (toRat_normalize d)) (hbelow h (toRat_normalize d).symm)

/-- Magnitudes at a common scale. -/
private theorem natAbs_mul_eq (d : Decimal) (t : Int) :
    ((d.digits.natAbs * Nat.pow 10 (t - d.scale).toNat : Nat) : ℚ) =
      |d.toRat| * (10 : ℚ) ^ (max d.scale t) := by
  have hexp : ((t - d.scale).toNat : Int) = -d.scale + max d.scale t := by omega
  have hpow : Nat.pow 10 (t - d.scale).toNat = 10 ^ (t - d.scale).toNat := rfl
  rw [abs_toRat, mul_assoc, ← zpow_add₀ (by norm_num), ← hexp, zpow_natCast, hpow]
  push_cast
  rfl

theorem compareMagnitude_eq {a b : Decimal} (ha : a.digits ≠ 0) (hb : b.digits ≠ 0) :
    compareMagnitude a b = Ord.compare |a.toRat| |b.toRat| := by
  have hpos : (0 : ℚ) < 10 ^ (max a.scale b.scale) := zpow_pos (by norm_num) _
  rw [compareMagnitude]
  cases hlead : Ord.compare a.leading b.leading with
  | lt => exact (compare_lt_iff_lt.mpr (abs_lt_of_leading_lt hb (compare_lt_iff_lt.mp hlead))).symm
  | gt => exact (compare_gt_iff_gt.mpr (abs_lt_of_leading_lt ha (compare_gt_iff_gt.mp hlead))).symm
  | eq =>
    have ha' := natAbs_mul_eq a b.scale
    have hb' := natAbs_mul_eq b a.scale
    rw [max_comm] at hb'
    simp only
    rcases lt_trichotomy |a.toRat| |b.toRat| with h | h | h
    · rw [compare_lt_iff_lt.mpr h, compare_lt_iff_lt, ← Nat.cast_lt (α := ℚ), ha', hb']
      exact mul_lt_mul_of_pos_right h hpos
    · rw [compare_eq_iff_eq.mpr h, compare_eq_iff_eq, ← Nat.cast_inj (R := ℚ), ha', hb', h]
    · rw [compare_gt_iff_gt.mpr h, compare_gt_iff_gt, ← Nat.cast_lt (α := ℚ), ha', hb']
      exact mul_lt_mul_of_pos_right h hpos

theorem toRat_pos_iff {d : Decimal} : 0 < d.toRat ↔ 0 < d.digits := by
  rw [toRat, mul_pos_iff_of_pos_right (zpow_pos (by norm_num) _), Int.cast_pos]

theorem toRat_neg_iff {d : Decimal} : d.toRat < 0 ↔ d.digits < 0 := by
  rw [← not_iff_not, not_lt, not_lt, le_iff_lt_or_eq, le_iff_lt_or_eq, toRat_pos_iff, eq_comm,
    toRat_eq_zero_iff, eq_comm (a := (0 : Int))]

private theorem compare_neg_rat (x y : ℚ) : Ord.compare (-x) (-y) = Ord.compare y x := by
  rcases lt_trichotomy y x with h | h | h
  · rw [compare_lt_iff_lt.mpr h, compare_lt_iff_lt]
    exact neg_lt_neg h
  · rw [compare_eq_iff_eq.mpr h, compare_eq_iff_eq, h]
  · rw [compare_gt_iff_gt.mpr h, compare_gt_iff_gt]
    exact neg_lt_neg h

/-- Decimals are ordered as the numbers they denote. -/
theorem compare_eq (a b : Decimal) : a.compare b = Ord.compare a.toRat b.toRat := by
  rw [compare]
  rcases lt_trichotomy a.digits 0 with ha | ha | ha <;>
    rcases lt_trichotomy b.digits 0 with hb | hb | hb
  · -- Of two negative numbers the one of greater magnitude is less.
    have ha' := toRat_neg_iff.mpr ha
    have hb' := toRat_neg_iff.mpr hb
    simp only [Int.sign_eq_neg_one_of_neg ha, Int.sign_eq_neg_one_of_neg hb,
      compare_eq_iff_eq.mpr, if_neg ha.ne, if_pos ha]
    rw [compareMagnitude_eq hb.ne ha.ne, abs_of_neg ha', abs_of_neg hb', compare_neg_rat]
  · have hlt : a.toRat < b.toRat := by
      rw [toRat_eq_zero_iff.mpr hb]
      exact toRat_neg_iff.mpr ha
    rw [Int.sign_eq_neg_one_of_neg ha, hb, compare_lt_iff_lt.mpr hlt]
    rfl
  · have hlt : a.toRat < b.toRat := (toRat_neg_iff.mpr ha).trans (toRat_pos_iff.mpr hb)
    rw [Int.sign_eq_neg_one_of_neg ha, Int.sign_eq_one_of_pos hb, compare_lt_iff_lt.mpr hlt]
    rfl
  · have hlt : b.toRat < a.toRat := by
      rw [toRat_eq_zero_iff.mpr ha]
      exact toRat_neg_iff.mpr hb
    rw [Int.sign_eq_neg_one_of_neg hb, ha, compare_gt_iff_gt.mpr hlt]
    rfl
  · rw [ha, hb, compare_eq_iff_eq.mpr ((toRat_eq_zero_iff.mpr ha).trans
      (toRat_eq_zero_iff.mpr hb).symm)]
    rfl
  · have hlt : a.toRat < b.toRat := by
      rw [toRat_eq_zero_iff.mpr ha]
      exact toRat_pos_iff.mpr hb
    rw [Int.sign_eq_one_of_pos hb, ha, compare_lt_iff_lt.mpr hlt]
    rfl
  · have hlt : b.toRat < a.toRat := (toRat_neg_iff.mpr hb).trans (toRat_pos_iff.mpr ha)
    rw [Int.sign_eq_neg_one_of_neg hb, Int.sign_eq_one_of_pos ha, compare_gt_iff_gt.mpr hlt]
    rfl
  · have hlt : b.toRat < a.toRat := by
      rw [toRat_eq_zero_iff.mpr hb]
      exact toRat_pos_iff.mpr ha
    rw [Int.sign_eq_one_of_pos ha, hb, compare_gt_iff_gt.mpr hlt]
    rfl
  · have ha' := toRat_pos_iff.mpr ha
    have hb' := toRat_pos_iff.mpr hb
    simp only [Int.sign_eq_one_of_pos ha, Int.sign_eq_one_of_pos hb, compare_eq_iff_eq.mpr,
      if_neg ha.ne', if_neg ha.asymm]
    rw [compareMagnitude_eq ha.ne' hb.ne', abs_of_pos ha', abs_of_pos hb']

/-- Decimals are equal exactly if neither comes before the other. -/
theorem compare_eq_eq_iff {a b : Decimal} : a.compare b = .eq ↔ a.same b := by
  rw [compare_eq, compare_eq_iff_eq, same_iff]

instance : Std.TransCmp compare where
  eq_swap {a b} := by
    rw [compare_eq, compare_eq]
    exact Std.OrientedOrd.eq_swap
  isLE_trans {a b c} := by
    rw [compare_eq, compare_eq, compare_eq]
    exact Std.TransOrd.isLE_trans

end TypedData.Decimal
