import Mathlib.Tactic.Positivity
import TypedData.Binary64.Approximate
import TypedData.Proofs.Binary64.Exact
import TypedData.Proofs.Decimal.Plain

/-!
# Approximations that are exact

The value of a pattern with places behind the point is approximated by that pattern, whatever the
form of the number, as long as the form has no more places than the least pattern. Digits that are
dropped do not matter, since far more are kept than a pattern can hold.

## Main results

* `Binary64.cut_near` — what is left of long digits is near to the number
* `Binary64.approximate_eq`, `Binary64.ofDecimal?_eq` — the value of a pattern is approximated by
  the pattern
-/

namespace TypedData.Binary64

variable {f : Binary64} {x : Decimal}

/-! ### Long digits -/

/-- How many trailing digits are dropped. -/
def dropped (n : Nat) : Nat := droppedDigits * ((digitEstimate n - keptDigits) / droppedDigits)

theorem cut_eq (x : Decimal) : cut x =
    ⟨x.digits.tdiv (10 ^ dropped x.digits.natAbs : Nat), x.scale - dropped x.digits.natAbs⟩ := rfl

/-- A decimal digit takes at most `196 / 59` bits. -/
theorem pow_ten_le {n bits : Nat} (h : 196 * n ≤ 59 * bits) : 10 ^ n ≤ 2 ^ bits := by
  refine (Nat.pow_le_pow_iff_left (by decide : 59 ≠ 0)).mp ?_
  calc (10 ^ n) ^ 59 = (10 ^ 59) ^ n := by rw [← pow_mul, ← pow_mul, Nat.mul_comm]
    _ ≤ (2 ^ 196) ^ n := Nat.pow_le_pow_left (by norm_num) n
    _ = 2 ^ (196 * n) := by rw [← pow_mul]
    _ ≤ 2 ^ (59 * bits) := Nat.pow_le_pow_right (by decide) h
    _ = (2 ^ bits) ^ 59 := by rw [← pow_mul, Nat.mul_comm]

/-- What is dropped is less than a part in `2 ^ 55`, and stands behind the point. -/
theorem dropped_small {n places : Nat} (hn : n ≠ 0) (hsmall : n < 2 ^ 53 * 10 ^ places)
    (hplaces : places ≤ 1074) (hdropped : dropped n ≠ 0) :
    2 ^ 55 * 10 ^ dropped n ≤ n ∧ dropped n < places := by
  have hlog : 2 ^ Nat.log2 n ≤ n := Nat.log2_self_le hn
  have hbits : Nat.log2 n < 53 + 3724 := by
    refine (Nat.pow_lt_pow_iff_right (by decide : 1 < 2)).mp (hlog.trans_lt ?_)
    calc n < 2 ^ 53 * 10 ^ places := hsmall
      _ ≤ 2 ^ 53 * 2 ^ 3724 := Nat.mul_le_mul_left _ (pow_ten_le (by omega))
      _ = 2 ^ (53 + 3724) := by rw [pow_add]
  have hestimate : dropped n + 25 ≤ digitEstimate n := by
    rw [dropped, keptDigits, droppedDigits] at *
    omega
  have hcount : (dropped n + 25) * 100000000000000000 ≤ (Nat.log2 n + 2) * 30102999566398120 :=
    (Nat.mul_le_mul_right _ hestimate).trans (Nat.div_mul_le_self _ _)
  have hkept : 2 ^ 55 * 10 ^ dropped n ≤ n :=
    calc 2 ^ 55 * 10 ^ dropped n ≤ 2 ^ 55 * 2 ^ (Nat.log2 n - 55) :=
          Nat.mul_le_mul_left _ (pow_ten_le (by omega))
      _ = 2 ^ Nat.log2 n := by
          rw [← pow_add]
          congr 1
          omega
      _ ≤ n := hlog
  refine ⟨hkept, (Nat.pow_lt_pow_iff_right (by decide : 1 < 10)).mp ?_⟩
  have := hkept.trans_lt hsmall
  omega

/-- Digits that are dropped leave the sign, if some are left. -/
theorem tdiv_spec {z : Int} {p : Nat} (hp : 0 < p) (h : p ≤ z.natAbs) :
    (z.tdiv p).natAbs = z.natAbs / p ∧ (z.tdiv p < 0 ↔ z < 0) ∧ z.tdiv p ≠ 0 := by
  have hpos : 0 < z.natAbs / p := Nat.div_pos h hp
  have hnatAbs : (z.tdiv p).natAbs = z.natAbs / p := by
    rw [Int.natAbs_tdiv, Int.natAbs_natCast]
    rfl
  refine ⟨hnatAbs, ?_, Int.natAbs_ne_zero.mp (by omega)⟩
  rcases Int.natAbs_eq z with hz | hz
  · have hquotient : 0 ≤ z.tdiv p := Int.tdiv_nonneg (by omega) (by omega)
    omega
  · have hquotient : 0 ≤ (-z).tdiv p := Int.tdiv_nonneg (by omega) (by omega)
    rw [Int.neg_tdiv] at hquotient
    omega

/-- In units of its last place a number is its digits. -/
theorem natAbs_digits_eq {places : Nat} (hscale : x.scale = places) :
    (x.digits.natAbs : ℚ) = |x.toRat| * 10 ^ places := by
  rw [Decimal.abs_toRat, hscale, mul_assoc, ← zpow_natCast, ← zpow_add₀ (by norm_num)]
  simp

theorem magnitude_lt (f : Binary64) : f.magnitude < 2 ^ 53 * (2 : ℚ) ^ f.power := by
  have hmantissa : (f.mantissa : ℚ) < 2 ^ 53 := by exact_mod_cast f.mantissa_lt
  rw [magnitude]
  gcongr

/-- What a division drops is less than the divisor. -/
theorem div_mul_error {n p : Nat} (hp : 0 < p) : |((n / p * p : Nat) : ℚ) - n| < p := by
  have hle : ((n / p * p : Nat) : ℚ) ≤ n := by exact_mod_cast Nat.div_mul_le_self n p
  have hlt : (n : ℚ) < (n / p * p : Nat) + p := by
    exact_mod_cast Nat.lt_div_mul_add hp (a := n)
  rw [abs_lt]
  constructor <;> linarith

/-- What is left of the digits of the value of a pattern is near to it. -/
theorem cut_near (hx : x.digits ≠ 0) (hscale : 0 < x.scale) (hplaces : x.scale ≤ 1074)
    (hvalue : |x.toRat| = f.magnitude) (hpower : f.power < 0) :
    0 < (cut x).scale ∧ (cut x).scale ≤ 1074 ∧ (cut x).digits ≠ 0 ∧
      ((cut x).digits < 0 ↔ x.digits < 0) ∧
      |(|(cut x).toRat|) - f.magnitude| < (2 : ℚ) ^ f.power / 4 := by
  have hplace : (0 : ℚ) < (2 : ℚ) ^ f.power := by positivity
  by_cases hnone : dropped x.digits.natAbs = 0
  · have hcut : cut x = x := by
      rw [cut_eq, hnone]
      simp
    rw [hcut, hvalue, sub_self, abs_zero]
    exact ⟨hscale, hplaces, hx, Iff.rfl, by positivity⟩
  obtain ⟨places, hscale'⟩ := Int.eq_ofNat_of_zero_le hscale.le
  have hdigits : (x.digits.natAbs : ℚ) = f.magnitude * 10 ^ places := by
    rw [natAbs_digits_eq hscale', hvalue]
  have hpositive : (0 : ℚ) < 10 ^ places := by positivity
  have hsmall : x.digits.natAbs < 2 ^ 53 * 10 ^ places := by
    have hmagnitude : f.magnitude < 2 ^ 53 := by
      have hone : (2 : ℚ) ^ f.power ≤ 1 := zpow_le_one_of_nonpos₀ (by norm_num) hpower.le
      linarith [f.magnitude_lt]
    have : (x.digits.natAbs : ℚ) < 2 ^ 53 * 10 ^ places := by
      rw [hdigits]
      gcongr
    exact_mod_cast this
  obtain ⟨hkept, hbehind⟩ :=
    dropped_small (Int.natAbs_ne_zero.mpr hx) hsmall (by omega) hnone
  generalize hn : dropped x.digits.natAbs = n at hkept hbehind
  have hcut : cut x = ⟨x.digits.tdiv (10 ^ n : Nat), x.scale - n⟩ := by rw [cut_eq, hn]
  have hpow : 0 < 10 ^ n := by positivity
  obtain ⟨hnatAbs, hsign, hne⟩ := tdiv_spec hpow (by omega : 10 ^ n ≤ x.digits.natAbs)
  rw [hcut]
  refine ⟨by simp only; omega, by simp only; omega, hne, hsign, ?_⟩
  -- In units of the last place of all digits, the cut moves the number by less than `10 ^ n`.
  have hleft : |Decimal.toRat ⟨x.digits.tdiv (10 ^ n : Nat), x.scale - n⟩| * 10 ^ places =
      (x.digits.natAbs / 10 ^ n * 10 ^ n : Nat) := by
    have hexp : -(x.scale - n) + places = n := by omega
    rw [Decimal.abs_toRat, hnatAbs, mul_assoc, ← zpow_natCast, ← zpow_add₀ (by norm_num)]
    simp only [hexp]
    norm_num
  have herror : |((x.digits.natAbs / 10 ^ n * 10 ^ n : Nat) : ℚ) - x.digits.natAbs| < 10 ^ n := by
    exact_mod_cast div_mul_error hpow
  -- A part in `2 ^ 55` of the number is less than a quarter of the last place.
  have hquarter : (10 : ℚ) ^ n < 2 ^ f.power / 4 * 10 ^ places := by
    have hkept : (2 : ℚ) ^ 55 * 10 ^ n ≤ f.magnitude * 10 ^ places := by
      rw [← hdigits]
      exact_mod_cast hkept
    have : f.magnitude * 10 ^ places < 2 ^ 53 * 2 ^ f.power * 10 ^ places := by
      gcongr
      exact f.magnitude_lt
    linarith
  refine lt_of_mul_lt_mul_right ?_ hpositive.le
  rw [← abs_of_pos hpositive, ← abs_mul, abs_of_pos hpositive, sub_mul, hleft, ← hdigits]
  exact herror.trans hquarter

/-! ### Approximations -/

/-- A form of the value of a pattern, with no more places than the least pattern, is approximated
by that pattern if it has a negative power. -/
theorem approximate_eq {v : Decimal} (hv : f.value? = some v) (hm : f.mantissa ≠ 0)
    (hpower : f.power < 0) (hsame : x.same v) (hnonneg : 0 ≤ x.scale) (hplaces : x.scale ≤ 1074) :
    approximate x = f := by
  obtain ⟨hf, rfl⟩ := exists_of_value? hv
  -- The number has the sign and the magnitude of the pattern.
  obtain ⟨hvalue, hnegative, -⟩ := decimalOfDyadic_spec f.negative f.mantissa f.power
  rw [Decimal.same_iff] at hsame
  rw [← hsame] at hvalue
  have hx : x.digits ≠ 0 := by
    rw [Ne, ← Decimal.toRat_eq_zero_iff, ← abs_eq_zero, hvalue]
    positivity
  have hsign : x.digits < 0 ↔ f.negative := by
    rw [← Decimal.toRat_neg_iff, hsame, Decimal.toRat_neg_iff, hnegative, and_iff_left hm]
  rw [approximate]
  by_cases hscale : x.scale = 0
  · rw [if_pos (.inr hscale)]
    refine nearest_eq hf hm hx hsign ?_
    rw [hvalue, ← magnitude, sub_self, abs_zero]
    positivity
  · obtain ⟨hpos, hle, hne, hcut, hnear⟩ := cut_near hx (by omega) hplaces hvalue hpower
    have hbound : Nat.pow 2 31 = 2147483648 := rfl
    simp only
    rw [if_neg (by simp [hx, hscale]), if_neg (by omega), if_pos hpos]
    exact nearest_eq hf hm hne (hcut.trans hsign) hnear

/-- So it is approximated exactly. -/
theorem ofDecimal?_eq {v : Decimal} (hv : f.value? = some v) (hm : f.mantissa ≠ 0)
    (hpower : f.power < 0) (hsame : x.same v) (hnonneg : 0 ≤ x.scale) (hplaces : x.scale ≤ 1074) :
    ofDecimal? x = some f := by
  have hsame' : v.same x := by
    rw [Decimal.same_iff] at hsame ⊢
    exact hsame.symm
  simp only [ofDecimal?, approximate_eq hv hm hpower hsame hnonneg hplaces, hv, hsame', if_true]

end TypedData.Binary64
