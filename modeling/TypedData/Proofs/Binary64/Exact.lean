import Mathlib.Tactic.LinearCombination
import Mathlib.Tactic.Positivity
import TypedData.Proofs.Binary64.Nearest

/-!
# Exact values of patterns

Three fields make up the bits of a pattern, and the exact decimal value of a finite pattern is read
off them. No digit is rounded, and there are never more places than the least pattern needs. A
value belongs to one pattern only, apart from zero, which has two: a significand has its leading
bit set unless its power is the least one, so that it cannot be doubled at the cost of its power.

## Main definitions

* `Binary64.HasFields` — the sign, the exponent field and the fraction that make up a pattern
* `Binary64.IsZero` — the zeros of both signs

## Main results

* `Binary64.toRat_decimalOfDyadic` — the rational number that the digits of a mantissa and a power
  of two denote
* `Binary64.significand_eq_of_magnitude_eq` — mantissa and power are determined by the magnitude
* `Binary64.exact_of_hasFields` — the exact value of a finite pattern, by its fields
-/

namespace TypedData.Binary64

variable {f g : Binary64} {x y : Decimal}

/-! ### Fields -/

/-- The sign, the exponent field and the fraction that make up the bits of a pattern. -/
structure HasFields (f : Binary64) (negative : Bool) (e m : Nat) : Prop where
  bits : f.bits.toNat = negative.toNat * 2 ^ 63 + e * 2 ^ 52 + m
  exponent_lt : e < 2 ^ 11
  fraction_lt : m < 2 ^ 52

/-- Every pattern is made up of the fields that are read off it. -/
theorem hasFields (f : Binary64) : f.HasFields f.negative f.exponentField f.fraction := by
  have hbits : f.bits.toNat < 2 ^ 64 := f.bits.toNat_lt
  have hsign : Nat.pow 2 63 = 2 ^ 63 := rfl
  have hhidden : Nat.pow 2 52 = 2 ^ 52 := rfl
  refine ⟨?_, Nat.mod_lt _ (by decide), Nat.mod_lt _ (by decide)⟩
  have hnegative : f.negative.toNat = f.bits.toNat / 2 ^ 63 := by
    have htop : f.bits.toNat / 2 ^ 63 = 0 ∨ f.bits.toNat / 2 ^ 63 = 1 := by omega
    rw [negative, hsign]
    rcases htop with h | h <;> rw [h] <;> rfl
  rw [hnegative, exponentField, fraction, hhidden]
  omega

/-- Fields that make up a pattern are the ones that are read off it. -/
theorem HasFields.eq {negative : Bool} {e m : Nat} (h : f.HasFields negative e m) :
    f.negative = negative ∧ f.exponentField = e ∧ f.fraction = m := by
  obtain ⟨hbits, he, hm⟩ := h
  obtain ⟨hbits', he', hm'⟩ := f.hasFields
  have := negative.toNat_lt
  have := f.negative.toNat_lt
  have hsign : f.negative.toNat = negative.toNat := by omega
  refine ⟨?_, by omega, by omega⟩
  rw [← Bool.ofNat_toNat f.negative, hsign, Bool.ofNat_toNat]

/-- The zeros of both signs: no bit is set apart from that of the sign. -/
def IsZero (f : Binary64) : Prop := f.bits = 0 ∨ f.bits = 0x8000000000000000

instance : DecidablePred IsZero := fun f =>
  inferInstanceAs (Decidable (f.bits = 0 ∨ f.bits = 0x8000000000000000))

theorem isZero_iff : f.IsZero ↔ f.mantissa = 0 := by
  have hhidden : Nat.pow 2 52 = 2 ^ 52 := rfl
  obtain ⟨hbits, he, hm⟩ := f.hasFields
  have hlow : f.mantissa = 0 ↔ f.exponentField = 0 ∧ f.fraction = 0 := by
    rw [mantissa, hhidden]
    split <;> omega
  rw [hlow, IsZero, ← UInt64.toNat_inj, ← UInt64.toNat_inj]
  have hzero : (0 : UInt64).toNat = 0 := rfl
  have hsign : (0x8000000000000000 : UInt64).toNat = 2 ^ 63 := rfl
  have := f.negative.toNat_lt
  rw [hzero, hsign]
  omega

/-! ### Decimal values -/

/-- The digits of a mantissa and a power of two denote their product. -/
theorem toRat_decimalOfDyadic (negative : Bool) (m : Nat) (k : Int) :
    (decimalOfDyadic negative m k).toRat = (-1) ^ negative.toNat * (m * (2 : ℚ) ^ k) := by
  have hpow (b e : Nat) : Nat.pow b e = b ^ e := rfl
  have hsigned (n : Nat) : ((if negative then -(n : Int) else n : Int) : ℚ) =
      (-1) ^ negative.toNat * n := by
    cases negative <;> simp
  rw [decimalOfDyadic]
  simp only [hpow]
  split
  · rename_i hk
    have hexp : (2 : ℚ) ^ k = 2 ^ k.toNat := by
      rw [← zpow_natCast, Int.toNat_of_nonneg hk]
    rw [Decimal.toRat, hsigned, hexp, neg_zero, zpow_zero, mul_one]
    push_cast
    rfl
  · -- A power of five for each place of ten leaves the power of two.
    rename_i hk
    have hexp : ((-k).toNat : Int) = -k := Int.toNat_of_nonneg (by omega)
    have hten : (10 : ℚ) ^ k = 5 ^ k * 2 ^ k := by rw [← mul_zpow]; norm_num
    have hfive : (5 : ℚ) ^ (-k).toNat = 5 ^ (-k) := by rw [← zpow_natCast, hexp]
    have hcancel : (5 : ℚ) ^ (-k) * 5 ^ k = 1 := by
      rw [← zpow_add₀ (by norm_num), neg_add_cancel, zpow_zero]
    rw [Decimal.toRat, hsigned, neg_neg, hten]
    push_cast
    rw [hfive]
    linear_combination (-1) ^ negative.toNat * m * 2 ^ k * hcancel

/-- A negative power makes as many places. -/
theorem scale_decimalOfDyadic (negative : Bool) (m : Nat) (k : Int) :
    (decimalOfDyadic negative m k).scale = max 0 (-k) := by
  rw [decimalOfDyadic]
  split <;> simp only <;> omega

/-- The magnitude, the sign and the places of such digits. -/
theorem decimalOfDyadic_spec (negative : Bool) (m : Nat) (k : Int) :
    |(decimalOfDyadic negative m k).toRat| = m * (2 : ℚ) ^ k ∧
      ((decimalOfDyadic negative m k).digits < 0 ↔ negative ∧ m ≠ 0) ∧
      (decimalOfDyadic negative m k).scale = max 0 (-k) := by
  have hnonneg : (0 : ℚ) ≤ m * 2 ^ k := by positivity
  refine ⟨?_, ?_, scale_decimalOfDyadic negative m k⟩
  · rw [toRat_decimalOfDyadic, abs_mul, abs_pow, abs_neg, abs_one, one_pow, one_mul,
      abs_of_nonneg hnonneg]
  · rw [← Decimal.toRat_neg_iff, toRat_decimalOfDyadic]
    cases negative with
    | false => simpa using hnonneg
    | true =>
      have hpos : (0 : ℚ) < m * 2 ^ k ↔ m ≠ 0 := by
        rw [mul_pos_iff_of_pos_right (by positivity), Nat.cast_pos, Nat.pos_iff_ne_zero]
      simpa using hpos

theorem value?_of_isFinite (h : f.isFinite) :
    f.value? = some (decimalOfDyadic f.negative f.mantissa f.power) := if_pos h

theorem exists_of_value? (h : f.value? = some x) :
    f.isFinite ∧ decimalOfDyadic f.negative f.mantissa f.power = x := by
  rw [value?] at h
  split at h
  · exact ⟨‹_›, Option.some.inj h⟩
  · cases h

/-- The value of a pattern is its magnitude under its sign. -/
theorem toRat_of_value? (h : f.value? = some x) :
    x.toRat = (-1) ^ f.negative.toNat * f.magnitude := by
  obtain ⟨-, rfl⟩ := exists_of_value? h
  exact toRat_decimalOfDyadic f.negative f.mantissa f.power

theorem abs_toRat_of_value? (h : f.value? = some x) : |x.toRat| = f.magnitude := by
  obtain ⟨-, rfl⟩ := exists_of_value? h
  exact (decimalOfDyadic_spec f.negative f.mantissa f.power).1

theorem isZero_iff_of_value? (h : f.value? = some x) : f.IsZero ↔ x.toRat = 0 := by
  have hplace : (2 : ℚ) ^ f.power ≠ 0 := by positivity
  rw [← abs_eq_zero, abs_toRat_of_value? h, magnitude, mul_eq_zero_iff_right hplace,
    Nat.cast_eq_zero, isZero_iff]

theorem scale_of_value? (h : f.value? = some x) : x.scale = max 0 (-f.power) := by
  obtain ⟨-, rfl⟩ := exists_of_value? h
  exact scale_decimalOfDyadic f.negative f.mantissa f.power

/-- The value of a pattern has at most 1074 decimal places. -/
theorem places_of_value? (h : f.value? = some x) : 0 ≤ x.scale ∧ x.scale ≤ 1074 := by
  have hlower := f.le_power
  rw [scale_of_value? h]
  omega

theorem within_value? {limit : Nat} (h : f.value? = some x) (hlimit : 1074 ≤ limit) :
    x.withinExponent limit := by
  obtain ⟨hnonneg, hplaces⟩ := places_of_value? h
  rw [Decimal.withinExponent, Bool.or_eq_true, decide_eq_true_eq, decide_eq_true_eq]
  omega

/-! ### Equal values -/

/-- Of two patterns of one magnitude, neither has the greater power: its mantissa would have to be
doubled in the other one, where there is no room for the leading bit. -/
theorem power_le_of_magnitude_eq (h : f.magnitude = g.magnitude) : g.power ≤ f.power := by
  by_contra hlt
  obtain ⟨k, hk⟩ := Int.eq_ofNat_of_zero_le (show 0 ≤ g.power - f.power - 1 by omega)
  have hpower : g.power = f.power + (k + 1 : Nat) := by push_cast; omega
  have hplace : (2 : ℚ) ^ f.power ≠ 0 := by positivity
  have hleading : 2 ^ 52 ≤ g.mantissa :=
    g.power_eq_or_le_mantissa.resolve_left (by have := f.le_power; omega)
  have hmantissa : f.mantissa = g.mantissa * 2 ^ (k + 1) := by
    rw [magnitude, magnitude, hpower, zpow_add₀ (by norm_num), zpow_natCast, mul_comm (2 ^ f.power),
      ← mul_assoc] at h
    exact_mod_cast mul_right_cancel₀ hplace h
  have hdoubled : 2 ^ 52 * 2 ≤ f.mantissa := by
    rw [hmantissa]
    exact Nat.mul_le_mul hleading (Nat.le_self_pow (Nat.succ_ne_zero k) 2)
  have := f.mantissa_lt
  omega

/-- Mantissa and power are determined by the magnitude. -/
theorem significand_eq_of_magnitude_eq (h : f.magnitude = g.magnitude) :
    f.mantissa = g.mantissa ∧ f.power = g.power := by
  have hpower : f.power = g.power :=
    le_antisymm (power_le_of_magnitude_eq h.symm) (power_le_of_magnitude_eq h)
  have hplace : (2 : ℚ) ^ g.power ≠ 0 := by positivity
  rw [magnitude, magnitude, hpower] at h
  exact ⟨by exact_mod_cast mul_right_cancel₀ hplace h, hpower⟩

/-- A pattern is determined by its sign and its magnitude. -/
theorem eq_of_magnitude_eq (hsign : f.negative = g.negative) (h : f.magnitude = g.magnitude) :
    f = g := by
  obtain ⟨hmantissa, hpower⟩ := significand_eq_of_magnitude_eq h
  rw [← f.ofSignificand_eq, hsign, hmantissa, hpower, g.ofSignificand_eq]

/-- Patterns have equal values exactly if they are the same pattern or zeros. -/
theorem same_iff_of_value? (hx : f.value? = some x) (hy : g.value? = some y) :
    x.same y ↔ f = g ∨ f.IsZero ∧ g.IsZero := by
  rw [Decimal.same_iff, isZero_iff_of_value? hx, isZero_iff_of_value? hy]
  constructor
  · intro h
    by_cases hvalue : x.toRat = 0
    · exact .inr ⟨hvalue, h ▸ hvalue⟩
    · have hmagnitude : f.magnitude = g.magnitude := by
        rw [← abs_toRat_of_value? hx, ← abs_toRat_of_value? hy, h]
      have hnonzero : f.magnitude ≠ 0 := by
        rwa [← abs_toRat_of_value? hx, Ne, abs_eq_zero]
      rw [toRat_of_value? hx, toRat_of_value? hy, ← hmagnitude] at h
      have hsign : (-1 : ℚ) ^ f.negative.toNat = (-1) ^ g.negative.toNat →
          f.negative = g.negative := by
        cases f.negative <;> cases g.negative <;> norm_num
      exact .inl (eq_of_magnitude_eq (hsign (mul_right_cancel₀ hnonzero h)) hmagnitude)
  · rintro (rfl | ⟨hf, hg⟩)
    · rw [Option.some.inj (hx.symm.trans hy)]
    · rw [hf, hg]

/-! ### The value by fields -/

/-- A finite pattern, one whose exponent field is not full, has an exact value: the fraction under
the least power, or the fraction behind a leading bit under the power of its exponent field. It has
at most as many places as the least pattern, and it is the value of no other pattern, unless it is
zero. -/
theorem exact_of_hasFields {negative : Bool} {e m : Nat} (h : f.HasFields negative e m)
    (hfinite : e < 2047) :
    ∃ x, f.value? = some x ∧
      x.toRat = (-1) ^ negative.toNat *
        (if e = 0 then m * (2 : ℚ) ^ (-1074 : Int)
          else (m + 2 ^ 52) * (2 : ℚ) ^ ((e : Int) - 1075)) ∧
      (0 ≤ x.scale ∧ x.scale ≤ 1074) ∧
      ∀ g y, g.value? = some y → (x.same y ↔ f = g ∨ f.IsZero ∧ g.IsZero) := by
  obtain ⟨hnegative, he, hm⟩ := h.eq
  have hisFinite : f.isFinite := decide_eq_true (he ▸ hfinite)
  have hvalue := value?_of_isFinite hisFinite
  have hhidden : Nat.pow 2 52 = 2 ^ 52 := rfl
  refine ⟨_, hvalue, ?_, places_of_value? hvalue, fun g y hy => same_iff_of_value? hvalue hy⟩
  rw [toRat_of_value? hvalue, hnegative, magnitude, mantissa, power, he, hm, hhidden]
  split <;> simp only [Nat.cast_add, Nat.cast_pow, Nat.cast_ofNat]

/-- The least negative pattern has all places, and its value is that of one pattern. -/
theorem exact_of_hasFields_least : HasFields ⟨0x8000000000000001⟩ true 0 1 ∧ 0 < 2047 ∧
    ∃ x, value? ⟨0x8000000000000001⟩ = some x ∧ x.toRat = -(2 : ℚ) ^ (-1074 : Int) ∧
      x.scale = 1074 ∧
      ∀ g y, value? g = some y → x.same y → g = ⟨0x8000000000000001⟩ := by
  have hfields : HasFields ⟨0x8000000000000001⟩ true 0 1 := ⟨by decide, by decide, by decide⟩
  obtain ⟨x, hx, hvalue, ⟨-, hscale⟩, hunique⟩ := exact_of_hasFields hfields (by decide)
  have hnonzero : ¬ IsZero ⟨0x8000000000000001⟩ := by decide
  refine ⟨hfields, by decide, x, hx, by simpa using hvalue, ?_, fun g y hy hsame => ?_⟩
  · rw [scale_of_value? hx]
    decide
  · exact (((hunique g y hy).mp hsame).resolve_right fun h => hnonzero h.1).symm

end TypedData.Binary64
