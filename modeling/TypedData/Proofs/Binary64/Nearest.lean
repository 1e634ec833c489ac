import Mathlib.Tactic.FieldSimp
import Mathlib.Tactic.Linarith
import Mathlib.Tactic.NormNum
import Mathlib.Tactic.Positivity
import Mathlib.Tactic.Ring
import TypedData.Binary64.Basic
import TypedData.Proofs.Decimal.Rational

/-!
# Nearest patterns

A number that differs from the value of a finite pattern by less than a quarter of its last place
is rounded to that pattern. A quarter suffices just below a power of two as well, where patterns
stand twice as close.

## Main definitions

* `Binary64.magnitude` — the absolute value of a finite pattern

## Main results

* `Binary64.nearestQuotient_eq` — quotients near a pattern are rounded to it
* `Binary64.nearest_eq` — so are decimal numbers
-/

namespace TypedData.Binary64

variable {f : Binary64} {n d m : Nat} {k : Int}

/-! ### Finite patterns -/

/-- The absolute value of a finite pattern. -/
def magnitude (f : Binary64) : ℚ := f.mantissa * (2 : ℚ) ^ f.power

theorem mantissa_lt (f : Binary64) : f.mantissa < 2 ^ 53 := by
  have hfraction : f.fraction < 2 ^ 52 := Nat.mod_lt _ (by decide)
  have hhidden : Nat.pow 2 52 = 2 ^ 52 := rfl
  rw [mantissa, hhidden]
  split <;> omega

/-- A significand has its leading bit unless its power is the least one. -/
theorem power_eq_or_le_mantissa (f : Binary64) : f.power = -1074 ∨ 2 ^ 52 ≤ f.mantissa := by
  have hhidden : Nat.pow 2 52 = 2 ^ 52 := rfl
  rw [power, mantissa, hhidden]
  split
  · exact .inl rfl
  · exact .inr (by omega)

theorem le_power (f : Binary64) : -1074 ≤ f.power := by
  rw [power]
  split <;> omega

theorem power_le (h : f.isFinite) : f.power ≤ 971 := by
  rw [isFinite, decide_eq_true_eq] at h
  rw [power]
  split <;> omega

/-- A pattern is made of its own significand. -/
theorem ofSignificand_eq (f : Binary64) :
    ofSignificand f.negative f.mantissa f.power = f := by
  obtain ⟨bits⟩ := f
  have hbits : bits.toNat < 0x10000000000000000 := bits.toNat_lt
  have hsign : Nat.pow 2 63 = 0x8000000000000000 := rfl
  have hhidden : Nat.pow 2 52 = 0x10000000000000 := rfl
  have hfields (s : Bool) (e m : Nat)
      (h : (if s then 0x8000000000000000 else 0) + e * 0x10000000000000 + m = bits.toNat) :
      ofFields s e m = ⟨bits⟩ := by
    rw [ofFields, hsign, hhidden, h, UInt64.ofNat_toNat]
  -- The three fields make up the bits.
  have hsum : bits.toNat / 0x8000000000000000 * 0x8000000000000000 +
      bits.toNat / 0x10000000000000 % 2048 * 0x10000000000000 + bits.toNat % 0x10000000000000 =
      bits.toNat := by omega
  have hnegative : bits.toNat / 0x8000000000000000 < 2 := by omega
  have hfraction : bits.toNat % 0x10000000000000 < 0x10000000000000 := Nat.mod_lt _ (by decide)
  simp only [ofSignificand, mantissa, power, negative, fraction, exponentField, hsign, hhidden]
  generalize bits.toNat / 0x8000000000000000 = s at hsum hnegative
  generalize bits.toNat / 0x10000000000000 % 2048 = e at hsum
  generalize bits.toNat % 0x10000000000000 = m at hsum hfraction
  by_cases he : e = 0
  · simp only [he, if_true, hfraction]
    refine hfields _ _ _ ?_
    simp only [decide_eq_true_eq]
    split <;> omega
  · simp only [he, if_false, if_neg (show ¬ m + 0x10000000000000 < 0x10000000000000 by omega)]
    refine hfields _ _ _ ?_
    simp only [decide_eq_true_eq]
    split <;> omega

/-! ### Quotients -/

/-- The quotient of two numbers is rounded to the whole number that it is near to. -/
theorem roundQuotient_eq (hd : 0 < d) (h : |(n : ℚ) / d - m| < 1 / 2) : roundQuotient n d = m := by
  have hd' : (0 : ℚ) < d := by exact_mod_cast hd
  have hn : (n : ℚ) / d * d = n := div_mul_cancel₀ _ hd'.ne'
  rw [abs_lt] at h
  have hupper : 2 * n < (2 * m + 1) * d := by
    have : (2 * n : ℚ) < (2 * m + 1) * d := by nlinarith
    exact_mod_cast this
  have hlower : 2 * m * d < 2 * n + d := by
    have : (2 * m * d : ℚ) < 2 * n + d := by nlinarith
    exact_mod_cast this
  have hdiv : d * (n / d) + n % d = n := Nat.div_add_mod n d
  have hmod : n % d < d := Nat.mod_lt n hd
  rw [roundQuotient]
  generalize n / d = q at hdiv
  generalize n % d = r at hdiv hmod
  -- Whole multiples of the divisor are compared.
  have hle (a b : Nat) (h : a * d < b * d) : a < b := Nat.lt_of_mul_lt_mul_right h
  split
  · have h₁ := hle (2 * q) (2 * m + 1) (by linarith)
    have h₂ := hle (2 * m) (2 * q + 2) (by linarith)
    omega
  split
  · have h₁ := hle (2 * q + 1) (2 * m + 1) (by linarith)
    have h₂ := hle (2 * m) (2 * q + 3) (by linarith)
    omega
  · have h₁ := hle (2 * q + 1) (2 * m + 1) (by linarith)
    have h₂ := hle (2 * m) (2 * q + 2) (by linarith)
    omega

/-- The dividend and the divisor that stand for `n / d` in units of a power of two. -/
def scaled (n d : Nat) (k : Int) : Nat × Nat := (n * Nat.pow 2 (-k).toNat, d * Nat.pow 2 k.toNat)

theorem scaled_snd_pos (hd : 0 < d) (n : Nat) (k : Int) : 0 < (scaled n d k).2 :=
  Nat.mul_pos hd (Nat.two_pow_pos _)

theorem scaled_quotient (n d : Nat) (k : Int) :
    ((scaled n d k).1 : ℚ) / (scaled n d k).2 = n / d * (2 : ℚ) ^ (-k) := by
  have hpow (e : Nat) : ((Nat.pow 2 e : Nat) : ℚ) = (2 : ℚ) ^ (e : Int) := by
    rw [zpow_natCast]
    exact Nat.cast_pow 2 e
  have hexp : ((-k).toNat : Int) - k.toNat = -k := by omega
  rw [scaled, Nat.cast_mul, Nat.cast_mul, hpow, hpow, mul_div_mul_comm,
    ← zpow_sub₀ (by norm_num), hexp]

/-- The power of two in whose units a quotient is rounded. -/
def unit (n d : Nat) : Int :=
  let estimate := max (-1074) ((Nat.log2 n : Int) - Nat.log2 d - 53)
  let (a, b) := scaled n d estimate
  if Nat.pow 2 53 ≤ a / b then estimate + 1 else estimate

theorem nearestQuotient_eq_of_unit (negative : Bool) (n d : Nat) :
    nearestQuotient negative n d =
      let q := roundQuotient (scaled n d (unit n d)).1 (scaled n d (unit n d)).2
      let (q, k) := if q = Nat.pow 2 53 then (Nat.pow 2 52, unit n d + 1) else (q, unit n d)
      if 971 < k then infinity negative else ofSignificand negative q k := rfl

/-- A whole quotient reaches a power of two exactly if the quotient does. -/
theorem pow_le_scaled_iff (hd : 0 < d) (n : Nat) (k : Int) (e : Nat) :
    Nat.pow 2 e ≤ (scaled n d k).1 / (scaled n d k).2 ↔ (2 : ℚ) ^ (k + e) ≤ (n : ℚ) / d := by
  have hpos : (0 : ℚ) < (scaled n d k).2 := by exact_mod_cast scaled_snd_pos hd n k
  have hunit : (0 : ℚ) < (2 : ℚ) ^ k := by positivity
  have hcast : ((Nat.pow 2 e * (scaled n d k).2 : Nat) : ℚ) = 2 ^ e * (scaled n d k).2 := by
    rw [Nat.cast_mul]
    exact congrArg (· * _) (Nat.cast_pow 2 e)
  rw [Nat.le_div_iff_mul_le (scaled_snd_pos hd n k), ← Nat.cast_le (α := ℚ), hcast,
    ← le_div_iff₀ hpos, scaled_quotient, zpow_neg, ← div_eq_mul_inv, le_div_iff₀ hunit,
    zpow_add₀ (by norm_num), zpow_natCast, mul_comm]

/-- A quotient is told by its binary logarithms, up to a factor of two either way. -/
theorem quotient_log2 (hn : 0 < n) (hd : 0 < d) :
    (2 : ℚ) ^ ((Nat.log2 n : Int) - Nat.log2 d - 1) ≤ (n : ℚ) / d ∧
      (n : ℚ) / d < (2 : ℚ) ^ ((Nat.log2 n : Int) - Nat.log2 d + 1) := by
  have hd' : (0 : ℚ) < d := by exact_mod_cast hd
  have hbounds {x : Nat} (hx : 0 < x) :
      (2 : ℚ) ^ (Nat.log2 x : Int) ≤ x ∧ (x : ℚ) < (2 : ℚ) ^ ((Nat.log2 x : Int) + 1) := by
    have hlower : 2 ^ Nat.log2 x ≤ x := Nat.log2_self_le hx.ne'
    have hupper : x < 2 ^ (Nat.log2 x + 1) := Nat.lt_log2_self
    exact ⟨by exact_mod_cast hlower, by exact_mod_cast hupper⟩
  have hexp (a b : Int) : (2 : ℚ) ^ a * (2 : ℚ) ^ b = (2 : ℚ) ^ (a + b) :=
    (zpow_add₀ (by norm_num) a b).symm
  obtain ⟨hn₁, hn₂⟩ := hbounds hn
  obtain ⟨hd₁, hd₂⟩ := hbounds hd
  constructor
  · rw [le_div_iff₀ hd']
    calc (2 : ℚ) ^ ((Nat.log2 n : Int) - Nat.log2 d - 1) * d
        ≤ (2 : ℚ) ^ ((Nat.log2 n : Int) - Nat.log2 d - 1) * (2 : ℚ) ^ ((Nat.log2 d : Int) + 1) := by
          gcongr
      _ = (2 : ℚ) ^ (Nat.log2 n : Int) := by
          rw [hexp]
          congr 1
          omega
      _ ≤ n := hn₁
  · rw [div_lt_iff₀ hd']
    calc (n : ℚ) < (2 : ℚ) ^ ((Nat.log2 n : Int) + 1) := hn₂
      _ = (2 : ℚ) ^ ((Nat.log2 n : Int) - Nat.log2 d + 1) * (2 : ℚ) ^ (Nat.log2 d : Int) := by
          rw [hexp]
          congr 1
          omega
      _ ≤ (2 : ℚ) ^ ((Nat.log2 n : Int) - Nat.log2 d + 1) * d := by gcongr

/-- The unit is the least one in which the quotient has no more than 53 bits. -/
theorem unit_spec (hn : 0 < n) (hd : 0 < d) : -1074 ≤ unit n d ∧
    (n : ℚ) / d < (2 : ℚ) ^ (unit n d + 53) ∧
    (unit n d = -1074 ∨ (2 : ℚ) ^ (unit n d + 52) ≤ (n : ℚ) / d) := by
  obtain ⟨hlower, hupper⟩ := quotient_log2 hn hd
  have hmono {a b : Int} (h : a ≤ b) : (2 : ℚ) ^ a ≤ (2 : ℚ) ^ b :=
    zpow_le_zpow_right₀ (by norm_num) h
  rw [unit]
  generalize hestimate : max (-1074) ((Nat.log2 n : Int) - Nat.log2 d - 53) = estimate
  have hreach := pow_le_scaled_iff hd n estimate 53
  simp only
  split
  · rename_i h
    refine ⟨by omega, hupper.trans_le (hmono (by omega)), .inr ?_⟩
    have := hreach.mp h
    rwa [show estimate + 1 + 52 = estimate + (53 : Nat) by omega]
  · rename_i h
    refine ⟨by omega, lt_of_not_ge fun hle => h (hreach.mpr hle), ?_⟩
    rcases eq_or_ne estimate (-1074) with heq | hne
    · exact .inl heq
    · exact .inr ((hmono (by omega)).trans hlower)

/-- No other unit is the least one. -/
theorem unit_eq (hn : 0 < n) (hd : 0 < d) (hleast : -1074 ≤ k)
    (hupper : (n : ℚ) / d < (2 : ℚ) ^ (k + 53))
    (hlower : k = -1074 ∨ (2 : ℚ) ^ (k + 52) ≤ (n : ℚ) / d) : unit n d = k := by
  obtain ⟨hleast', hupper', hlower'⟩ := unit_spec hn hd
  have hexp {a b : Int} (h : (2 : ℚ) ^ a < (2 : ℚ) ^ b) : a < b :=
    (zpow_lt_zpow_iff_right₀ (by norm_num)).mp h
  have hle : unit n d ≤ k := by
    rcases hlower' with h | h
    · omega
    · have := hexp (h.trans_lt hupper)
      omega
  have hge : k ≤ unit n d := by
    rcases hlower with h | h
    · omega
    · have := hexp (h.trans_lt hupper')
      omega
  omega

/-- In units of a power of two, a quotient is rounded to the whole number that it is near to. -/
theorem roundQuotient_scaled (hd : 0 < d) (h : |(n : ℚ) / d * 2 ^ (-k) - m| < 1 / 2) :
    roundQuotient (scaled n d k).1 (scaled n d k).2 = m :=
  roundQuotient_eq (scaled_snd_pos hd n k) (by rwa [scaled_quotient])

/-! ### Near a pattern -/

/-- A quotient that is near to a pattern is rounded in units of the last place of the pattern,
if it reaches the least pattern of the same power. -/
theorem nearestQuotient_eq_of_le (hf : f.isFinite) (hn : 0 < n) (hd : 0 < d)
    (hnear : |(n : ℚ) / d - f.magnitude| < (2 : ℚ) ^ f.power / 4)
    (hnormal : f.power = -1074 ∨ (2 : ℚ) ^ (f.power + 52) ≤ (n : ℚ) / d) :
    nearestQuotient f.negative n d = f := by
  have hplace : (0 : ℚ) < (2 : ℚ) ^ f.power := by positivity
  have hbelow : (n : ℚ) / d < (2 : ℚ) ^ (f.power + 53) := by
    have hmantissa : (f.mantissa + 1 : ℚ) ≤ 2 ^ 53 := by exact_mod_cast f.mantissa_lt
    rw [magnitude, abs_lt] at hnear
    rw [zpow_add₀ (by norm_num)]
    nlinarith
  have hdistance : |(n : ℚ) / d * 2 ^ (-f.power) - f.mantissa| < 1 / 2 := by
    have hscaled : (n : ℚ) / d * 2 ^ (-f.power) - f.mantissa =
        ((n : ℚ) / d - f.magnitude) / 2 ^ f.power := by
      rw [magnitude, zpow_neg]
      field_simp
    rw [hscaled, abs_div, abs_of_pos hplace, div_lt_iff₀ hplace]
    linarith
  have hcarry : f.mantissa ≠ Nat.pow 2 53 := f.mantissa_lt.ne
  rw [nearestQuotient_eq_of_unit, unit_eq hn hd f.le_power hbelow hnormal,
    roundQuotient_scaled hd hdistance]
  simp only [if_neg hcarry, if_neg (not_lt.mpr (power_le hf)), ofSignificand_eq]

/-- A quotient that is near to the least pattern of a power, but does not reach it, is rounded up
to it in units of half its last place. -/
theorem nearestQuotient_eq_of_lt (hf : f.isFinite) (hn : 0 < n) (hd : 0 < d)
    (hnear : |(n : ℚ) / d - f.magnitude| < (2 : ℚ) ^ f.power / 4) (hpower : f.power ≠ -1074)
    (hless : (n : ℚ) / d < (2 : ℚ) ^ (f.power + 52)) :
    nearestQuotient f.negative n d = f := by
  have hplace : (0 : ℚ) < (2 : ℚ) ^ f.power := by positivity
  have hpow (e : Nat) : (2 : ℚ) ^ (f.power + e) = 2 ^ e * 2 ^ f.power := by
    rw [zpow_add₀ (by norm_num), mul_comm, zpow_natCast]
  rw [magnitude, abs_lt] at hnear
  -- Only a power of two is near to what does not reach it.
  have hleading : f.mantissa = 2 ^ 52 := by
    have hge : 2 ^ 52 ≤ f.mantissa := f.power_eq_or_le_mantissa.resolve_left hpower
    have hlt : (f.mantissa : ℚ) < 2 ^ 52 + 1 := by
      have := hpow 52
      norm_num at this
      nlinarith
    have hlt : f.mantissa < 2 ^ 52 + 1 := by exact_mod_cast hlt
    omega
  have hmantissa : (f.mantissa : ℚ) = 2 ^ 52 := by exact_mod_cast hleading
  rw [hmantissa] at hnear
  have hunit : unit n d = f.power - 1 := by
    have hleast := f.le_power
    refine unit_eq hn hd (by omega) ?_ (.inr ?_)
    · rwa [show f.power - 1 + 53 = f.power + 52 by omega]
    · rw [show f.power - 1 + 52 = f.power + (51 : Nat) by omega, hpow]
      linarith
  -- In units of half the last place the quotient is rounded up to 54 bits, which are carried.
  have hdistance : |(n : ℚ) / d * 2 ^ (-(f.power - 1)) - (2 ^ 53 : Nat)| < 1 / 2 := by
    have hscaled : (n : ℚ) / d * 2 ^ (-(f.power - 1)) - (2 ^ 53 : Nat) =
        ((n : ℚ) / d - 2 ^ 52 * 2 ^ f.power) * 2 / 2 ^ f.power := by
      rw [neg_sub, zpow_sub₀ (by norm_num)]
      field_simp
      norm_num
      ring
    rw [hscaled, abs_div, abs_of_pos hplace, div_lt_iff₀ hplace, abs_lt]
    constructor <;> linarith
  have hcarry : 2 ^ 53 = Nat.pow 2 53 := rfl
  have hraised : f.power - 1 + 1 = f.power := by omega
  rw [nearestQuotient_eq_of_unit, hunit, roundQuotient_scaled hd hdistance]
  simp only [if_pos hcarry, hraised, if_neg (not_lt.mpr (power_le hf))]
  conv_rhs => rw [← ofSignificand_eq f, hleading]
  rfl

/-- A quotient that is near to a pattern is rounded to it. -/
theorem nearestQuotient_eq (hf : f.isFinite) (hn : 0 < n) (hd : 0 < d)
    (hnear : |(n : ℚ) / d - f.magnitude| < (2 : ℚ) ^ f.power / 4) :
    nearestQuotient f.negative n d = f := by
  by_cases hnormal : f.power = -1074 ∨ (2 : ℚ) ^ (f.power + 52) ≤ (n : ℚ) / d
  · exact nearestQuotient_eq_of_le hf hn hd hnear hnormal
  · rw [not_or, not_le] at hnormal
    exact nearestQuotient_eq_of_lt hf hn hd hnear hnormal.1 hnormal.2

/-! ### Decimal numbers -/

/-- What is near to a pattern other than zero is neither too large nor too small to be rounded. -/
theorem leading_of_near {x : Decimal} (hf : f.isFinite) (hm : f.mantissa ≠ 0)
    (hx : x.digits ≠ 0) (hnear : |(|x.toRat|) - f.magnitude| < (2 : ℚ) ^ f.power / 4) :
    x.leading ≤ 310 ∧ -330 ≤ x.leading := by
  have hexp {a b : Int} (h : (10 : ℚ) ^ a < (10 : ℚ) ^ b) : a < b :=
    (zpow_lt_zpow_iff_right₀ (by norm_num)).mp h
  have hplace : (0 : ℚ) < (2 : ℚ) ^ f.power := by positivity
  have hone : (1 : ℚ) ≤ f.mantissa := by exact_mod_cast Nat.one_le_iff_ne_zero.mpr hm
  have hmantissa : (f.mantissa : ℚ) < 2 ^ 53 := by exact_mod_cast f.mantissa_lt
  rw [magnitude, abs_lt] at hnear
  constructor
  · have hpower : (2 : ℚ) ^ f.power ≤ 2 ^ (971 : Int) :=
      zpow_le_zpow_right₀ (by norm_num) (power_le hf)
    have hlarge : |x.toRat| < (10 : ℚ) ^ (310 : Int) := by
      -- Fifth roots keep the powers that are compared small.
      calc |x.toRat| < (2 ^ 53 + 1) * (2 : ℚ) ^ f.power := by nlinarith
        _ ≤ 2 ^ (54 : Int) * 2 ^ (971 : Int) := by
          gcongr
          norm_num
        _ = ((2 : ℚ) ^ 205) ^ 5 := by
          rw [← zpow_add₀ (by norm_num), ← pow_mul]
          rfl
        _ < ((10 : ℚ) ^ 62) ^ 5 := pow_lt_pow_left₀ (by norm_num) (by positivity) (by decide)
        _ = (10 : ℚ) ^ (310 : Int) := by
          rw [← pow_mul]
          rfl
    have := hexp ((Decimal.le_abs_toRat hx).trans_lt hlarge)
    omega
  · have hpower : (2 : ℚ) ^ (-1074 : Int) ≤ 2 ^ f.power :=
      zpow_le_zpow_right₀ (by norm_num) f.le_power
    have hsmall : (10 : ℚ) ^ (-330 : Int) < |x.toRat| := by
      have hpow : (10 : ℚ) ^ (-330 : Int) = (((10 : ℚ) ^ 66) ^ 5)⁻¹ := by
        rw [← pow_mul, zpow_neg]
        rfl
      calc (10 : ℚ) ^ (-330 : Int) = (((10 : ℚ) ^ 66) ^ 5)⁻¹ := hpow
        _ < (((2 : ℚ) ^ 215) ^ 5)⁻¹ := by
          refine inv_strictAnti₀ (by positivity) ?_
          exact pow_lt_pow_left₀ (by norm_num) (by positivity) (by decide)
        _ = ((2 : ℚ) ^ (1074 + 1))⁻¹ := by rw [← pow_mul]
        _ = 2 ^ (-1074 : Int) * (1 / 2) := by
          rw [pow_succ, mul_inv, zpow_neg, one_div]
          rfl
        _ ≤ 2 ^ f.power * (1 / 2) := by gcongr
        _ < |x.toRat| := by nlinarith
    have := hexp (hsmall.trans (Decimal.abs_toRat_lt x))
    omega

/-- The quotient that a decimal number stands for. -/
theorem decimal_quotient (x : Decimal) :
    ((x.digits.natAbs * Nat.pow 10 (-x.scale).toNat : Nat) : ℚ) / (Nat.pow 10 x.scale.toNat : Nat) =
      |x.toRat| := by
  have hpow (e : Nat) : ((Nat.pow 10 e : Nat) : ℚ) = (10 : ℚ) ^ (e : Int) := by
    rw [zpow_natCast]
    exact Nat.cast_pow 10 e
  have hexp : ((-x.scale).toNat : Int) - x.scale.toNat = -x.scale := by omega
  rw [Decimal.abs_toRat, Nat.cast_mul, hpow, hpow, mul_div_assoc, ← zpow_sub₀ (by norm_num), hexp]

/-- A decimal number that is near to a pattern of its sign is rounded to it. -/
theorem nearest_eq {x : Decimal} (hf : f.isFinite) (hm : f.mantissa ≠ 0) (hx : x.digits ≠ 0)
    (hsign : x.digits < 0 ↔ f.negative)
    (hnear : |(|x.toRat|) - f.magnitude| < (2 : ℚ) ^ f.power / 4) : nearest x = f := by
  have hne : x.normalize.digits ≠ 0 := mt Decimal.normalize_digits_eq_zero_iff.mp hx
  have hnegative : decide (x.normalize.digits < 0) = f.negative := by
    rw [Bool.eq_iff_iff, decide_eq_true_iff, ← hsign, ← Decimal.toRat_neg_iff,
      Decimal.toRat_normalize, Decimal.toRat_neg_iff]
  rw [← Decimal.toRat_normalize] at hnear
  obtain ⟨hlarge, hsmall⟩ := leading_of_near hf hm hne hnear
  rw [← decimal_quotient] at hnear
  rw [nearest]
  simp only [hnegative, if_neg hne, if_neg (not_lt.mpr hlarge), if_neg (not_lt.mpr hsmall)]
  refine nearestQuotient_eq hf (Nat.mul_pos ?_ (Nat.pow_pos (by decide)))
    (Nat.pow_pos (by decide)) hnear
  exact Int.natAbs_pos.mpr hne

end TypedData.Binary64
