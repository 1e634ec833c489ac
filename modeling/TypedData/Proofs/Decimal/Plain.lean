import TypedData.Proofs.Decimal.Literal
import TypedData.Proofs.Decimal.Rational

/-!
# Numbers from their positional notation

Positional notation keeps the number and forgets the form. What is read back has no trailing
zeros behind the point, and all of its digits before the point.

## Main definitions

* `Decimal.written` — the form in which the notation of a number is read
* `Decimal.plainLiteral` — positional notation as a literal

## Main results

* `Decimal.ofText_plain` — the notation of a number is read in that form
* `Decimal.same_written` — it denotes the same number
* `Decimal.written_eq_of_same` — and depends on nothing else
-/

namespace TypedData.Decimal

/-- The form in which positional notation is read: without trailing zeros behind the point, and
with all digits before it. -/
def written (d : Decimal) : Decimal :=
  let n := d.normalize
  if n.scale ≤ 0 then ⟨n.digits * Nat.pow 10 (-n.scale).toNat, 0⟩ else n

theorem written_eq_of_same {a b : Decimal} (h : a.same b) : a.written = b.written := by
  rw [written, written, of_decide_eq_true h]

/-- Positional notation denotes the same number. -/
theorem toRat_written (d : Decimal) : d.written.toRat = d.toRat := by
  rw [written, ← toRat_normalize d]
  split
  · rename_i h
    have hpow : (10 : ℚ) ^ (-d.normalize.scale) = (10 : ℚ) ^ (-d.normalize.scale).toNat := by
      rw [← zpow_natCast, Int.toNat_of_nonneg (by omega)]
    have hnat : Nat.pow 10 (-d.normalize.scale).toNat = 10 ^ (-d.normalize.scale).toNat := rfl
    simp only [toRat, hpow, hnat]
    push_cast
    simp
  · rfl

theorem same_written (d : Decimal) : d.written.same d := same_iff.mpr (toRat_written d)

theorem written_written (d : Decimal) : d.written.written = d.written :=
  written_eq_of_same (same_written d)

theorem plain_eq_of_same {a b : Decimal} (h : a.same b) : a.plain = b.plain := by
  rw [plain, plain, of_decide_eq_true h]

/-! ### Exponents -/

theorem normalize_scale_le {d : Decimal} (h : d.digits ≠ 0) : d.normalize.scale ≤ d.scale := by
  obtain ⟨k, -, hscale⟩ := exists_normalize d h
  omega

/-- Nothing is read back with more digits behind the point. -/
theorem written_scale_le (d : Decimal) : 0 ≤ d.written.scale ∧ d.written.scale ≤ max d.scale 0 := by
  by_cases hzero : d.digits = 0
  · simp [written, normalize_of_digits_eq_zero hzero]
  have hle := normalize_scale_le hzero
  rw [written]
  split
  · simp
  · exact ⟨by omega, by omega⟩

/-- What is read back is within the same bound on exponents. -/
theorem within_written {d : Decimal} {limit : Nat} (h : d.withinExponent limit) :
    d.written.withinExponent limit ∧ 0 ≤ d.written.scale ∧ d.written.scale ≤ limit := by
  obtain ⟨hlower, hupper⟩ := written_scale_le d
  by_cases hzero : d.digits = 0
  · simp [written, normalize_of_digits_eq_zero hzero, withinExponent]
  simp only [withinExponent, hzero, decide_false, Bool.false_or, decide_eq_true_eq] at h
  refine ⟨?_, hlower, by omega⟩
  simp only [withinExponent, Bool.or_eq_true, decide_eq_true_eq]
  omega

/-! ### The notation as a literal -/

/-- Digits before and after the point. -/
def plainDigits (n : Nat) (scale : Int) : List Char × Option (List Char) :=
  let ds := Nat.toDigits 10 n
  if scale ≤ 0 then (ds ++ List.replicate (-scale).toNat '0', none)
  else
    let places := scale.toNat
    if places < ds.length then (ds.take (ds.length - places), some (ds.drop (ds.length - places)))
    else (['0'], some (List.replicate (places - ds.length) '0' ++ ds))

/-- Positional notation as a literal. -/
def plainLiteral (d : Decimal) : Literal :=
  let n := d.normalize
  let (whole, fraction) := plainDigits n.digits.natAbs n.scale
  ⟨if n.digits < 0 then some .minus else none, whole, fraction, none⟩

theorem positional_eq (n : Nat) (scale : Int) : positional n scale =
    (plainDigits n scale).1 ++ Literal.fractionText (plainDigits n scale).2 := by
  simp only [positional, plainDigits]
  split
  · simp [Literal.fractionText]
  split <;> simp [Literal.fractionText]

/-- Behind the point there are as many digits as places. -/
theorem length_positional {n places : Nat} (hpositive : 0 < places)
    (h : (Nat.toDigits 10 n).length ≤ places) :
    (positional n places).length = places + 2 := by
  rw [positional, if_neg (by omega), if_neg (by omega)]
  simp only [List.length_cons, List.length_append, List.length_replicate, Int.toNat_natCast]
  omega

theorem toList_plain (d : Decimal) : d.plain.toList = (plainLiteral d).text := by
  rw [plain, String.toList_ofList, Literal.text_eq]
  simp only [plainLiteral, positional_eq, Literal.exponentText, List.append_nil]
  split <;> simp [Sign.textOf]

theorem isDigit_plainDigits (n : Nat) (scale : Int) :
    (plainDigits n scale).1 ≠ [] ∧ (∀ c ∈ (plainDigits n scale).1, c.isDigit) ∧
      ∀ ds, (plainDigits n scale).2 = some ds → ∀ c ∈ ds, c.isDigit := by
  have hdigits : ∀ c ∈ Nat.toDigits 10 n, c.isDigit := fun _ => isDigit_of_mem_toDigits
  have hne : Nat.toDigits 10 n ≠ [] := Nat.toDigits_ne_nil
  simp only [plainDigits]
  split
  · refine ⟨by simp [hne], fun c hc => ?_, nofun⟩
    rcases List.mem_append.mp hc with hc | hc
    · exact hdigits c hc
    · exact isDigit_of_mem_replicate hc
  split
  · rename_i h
    refine ⟨?_, fun c hc => hdigits c (List.mem_of_mem_take hc), ?_⟩
    · simp only [ne_eq, List.take_eq_nil_iff, hne, or_false]
      omega
    · rintro _ ⟨⟩ c hc
      exact hdigits c (List.mem_of_mem_drop hc)
  · refine ⟨by simp, by simp, ?_⟩
    rintro _ ⟨⟩ c hc
    rcases List.mem_append.mp hc with hc | hc
    · exact isDigit_of_mem_replicate hc
    · exact hdigits c hc

theorem readable_plainLiteral (d : Decimal) : (plainLiteral d).Readable := by
  obtain ⟨hne, hwhole, hfraction⟩ := isDigit_plainDigits d.normalize.digits.natAbs d.normalize.scale
  exact ⟨hwhole, hfraction, .inl hne, nofun⟩

/-- All digits together, and how many stand after the point. -/
theorem natOfDigits_plainDigits (n : Nat) (scale : Int) :
    natOfDigits ((plainDigits n scale).1 ++ (plainDigits n scale).2.getD []) =
        n * Nat.pow 10 (-scale).toNat ∧
      (((plainDigits n scale).2.getD []).length : Int) = max scale 0 := by
  simp only [plainDigits]
  split
  · rename_i h
    simp only [Option.getD_none, List.append_nil, List.length_nil]
    exact ⟨by rw [natOfDigits_append_zeros, natOfDigits_toDigits], by omega⟩
  rename_i h
  have hpow : (-scale).toNat = 0 := by omega
  rw [hpow]
  split
  · rename_i hlength
    simp only [Option.getD_some, List.take_append_drop, natOfDigits_toDigits, List.length_drop]
    exact ⟨(Nat.mul_one n).symm, by omega⟩
  · rename_i hlength
    have hzeros : ['0'] = List.replicate 1 '0' := rfl
    simp only [Option.getD_some, List.length_append, List.length_replicate]
    refine ⟨?_, by omega⟩
    rw [hzeros, natOfDigits_zeros_append, natOfDigits_zeros_append, natOfDigits_toDigits]
    exact (Nat.mul_one n).symm

theorem value_plainLiteral (d : Decimal) : (plainLiteral d).value = d.written := by
  obtain ⟨hdigits, hlength⟩ :=
    natOfDigits_plainDigits d.normalize.digits.natAbs d.normalize.scale
  simp only [plainLiteral, Literal.value, hdigits, hlength, Int.sub_zero, written]
  have hsign : Sign.apply (if d.normalize.digits < 0 then some .minus else none)
      (d.normalize.digits.natAbs * Nat.pow 10 (-d.normalize.scale).toNat) =
      d.normalize.digits * Nat.pow 10 (-d.normalize.scale).toNat := by
    rw [Sign.apply]
    push_cast
    split
    · rename_i hneg
      rw [if_pos rfl, abs_of_neg hneg, neg_mul, neg_neg]
    · rename_i hneg
      rw [if_neg (by simp), abs_of_nonneg (by omega)]
  rw [hsign]
  split
  · rename_i h
    rw [max_eq_right h]
  · rename_i h
    have hpow : (-d.normalize.scale).toNat = 0 := by omega
    rw [max_eq_left (by omega), hpow]
    exact congrArg (Decimal.mk · d.normalize.scale) (Int.mul_one _)

/-! ### Reading the notation -/

/-- The positional notation of a number is read in its written form, if the scale of that fits a
word. -/
theorem ofText_plain_of_fits {d : Decimal} {limit : Nat} (h : d.withinExponent limit)
    (hfits : scaleFits d.written.scale) : ofText d.plain limit = .ok d.written := by
  refine ofText_of_parse? ?_ (within_written h).1
  rw [parse?, toList_plain, Literal.read?_text (readable_plainLiteral d), Option.map_some,
    value_plainLiteral, Option.filter_eq_some_iff]
  exact ⟨rfl, hfits⟩

/-- The scale always fits below a bound that does. -/
theorem ofText_plain {d : Decimal} {limit : Nat} (h : d.withinExponent limit)
    (hlimit : limit < Word.signedBound) : ofText d.plain limit = .ok d.written := by
  obtain ⟨-, hlower, hupper⟩ := within_written h
  refine ofText_plain_of_fits h ?_
  simp only [scaleFits, Word.fitsSigned, Bool.and_eq_true, decide_eq_true_eq]
  omega

/-- The notation of a number is read in written form, if at all. -/
theorem eq_written_of_ofText_plain {d n : Decimal} {limit : Nat}
    (h : ofText d.plain limit = .ok n) : n = d.written := by
  have hparse := parse?_of_ofText h
  rw [parse?, toList_plain, Literal.read?_text (readable_plainLiteral d), Option.map_some,
    value_plainLiteral] at hparse
  exact (Option.some.inj (Option.filter_eq_some_iff.mp hparse).1).symm

end TypedData.Decimal
