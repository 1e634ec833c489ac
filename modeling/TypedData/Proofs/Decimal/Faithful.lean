import TypedData.Proofs.Decimal.Grammar
import TypedData.Proofs.Decimal.Plain

/-!
# Positional notation is faithful

Positional notation tells numbers apart and nothing else, and it is read back under the bound under
which the number was read. It spells out zeros in place of an exponent, but never more of them than
the bound allows.

## Main results

* `Decimal.plain_eq_iff` — two forms have one notation exactly if they denote one number
* `Decimal.length_plain_le` — how long the notation is, by the digits and the bound on exponents
* `Decimal.plain_faithful` — what the notation of a number that was read is like
-/

namespace TypedData.Decimal

/-- Two forms have one notation exactly if they denote one number. -/
theorem plain_eq_iff {a b : Decimal} : a.plain = b.plain ↔ a.toRat = b.toRat := by
  refine ⟨fun h => ?_, fun h => plain_eq_of_same (same_iff.mpr h)⟩
  have hread := Literal.read?_text (readable_plainLiteral a)
  rw [← toList_plain, h, toList_plain, Literal.read?_text (readable_plainLiteral b)] at hread
  rw [← toRat_written a, ← toRat_written b, ← value_plainLiteral, ← value_plainLiteral,
    Option.some.inj hread]

/-- The notation is made of digits, a sign and a point. -/
theorem mem_plain {d : Decimal} {c : Char} (h : c ∈ d.plain.toList) :
    c.isDigit ∨ c = '-' ∨ c = '.' := by
  obtain ⟨-, hwhole, hfraction⟩ :=
    isDigit_plainDigits d.normalize.digits.natAbs d.normalize.scale
  rw [plain, String.toList_ofList] at h
  have hbody : c ∈ positional d.normalize.digits.natAbs d.normalize.scale →
      c.isDigit ∨ c = '-' ∨ c = '.' := by
    rw [positional_eq, List.mem_append]
    rintro (h | h)
    · exact .inl (hwhole c h)
    · cases hds : (plainDigits d.normalize.digits.natAbs d.normalize.scale).2 with
      | none => simp [hds, Literal.fractionText] at h
      | some ds =>
        rw [hds, Literal.fractionText, List.mem_cons] at h
        exact h.elim (fun h => .inr (.inr h)) fun h => .inl (hfraction ds hds c h)
  split at h
  · exact (List.mem_cons.mp h).elim (fun h => .inr (.inl h)) hbody
  · exact hbody h

/-! ### Length -/

/-- Behind the digits stand the zeros that an exponent stood for, or a point is put into them, or
zeros fill the places before them. -/
theorem length_positional_le (n : Nat) (scale : Int) : ((positional n scale).length : Int) ≤
    max (digitCount n - scale) (max (digitCount n + 1) (scale + 2)) := by
  have hcount : (Nat.toDigits 10 n).length = digitCount n := rfl
  simp only [positional]
  split
  · simp only [List.length_append, List.length_replicate, hcount]
    omega
  split
  · simp only [List.length_append, List.length_cons, List.length_take, List.length_drop, hcount]
    omega
  · simp only [List.length_append, List.length_cons, List.length_replicate, hcount]
    omega

/-- Without trailing zeros a number has no more digits, and its leading digit has the same place. -/
theorem digitCount_normalize {d : Decimal} (h : d.digits ≠ 0) :
    (digitCount d.normalize.digits.natAbs : Int) - d.normalize.scale =
        digitCount d.digits.natAbs - d.scale ∧
      digitCount d.normalize.digits.natAbs ≤ digitCount d.digits.natAbs := by
  have hplace := leading_normalize h
  have hscale := normalize_scale_le h
  rw [leading, leading] at hplace
  exact ⟨hplace, by omega⟩

/-- The notation has as many characters as there are digits, as many more as the bound on exponents
lets in, and three for a sign, a point and a zero before it. -/
theorem length_plain_le {d : Decimal} {limit : Nat} (h : d.withinExponent limit) :
    d.plain.length ≤ digitCount d.digits.natAbs + limit + 3 := by
  have hsign : d.plain.length ≤
      (positional d.normalize.digits.natAbs d.normalize.scale).length + 1 := by
    rw [← String.length_toList, plain, String.toList_ofList]
    split <;> simp
  have hbody := length_positional_le d.normalize.digits.natAbs d.normalize.scale
  have hpos := digitCount_pos d.digits.natAbs
  by_cases hzero : d.digits = 0
  · have hone : digitCount 0 = 1 := by decide
    rw [normalize_of_digits_eq_zero hzero] at hbody hsign
    simp only [Int.natAbs_zero, hone] at hbody hsign
    omega
  · obtain ⟨hplace, hcount⟩ := digitCount_normalize hzero
    have hscale := normalize_scale_le hzero
    simp only [withinExponent, hzero, decide_false, Bool.false_or, decide_eq_true_eq] at h
    omega

/-! ### Numbers that were read -/

/-- A number that was read has a notation without an exponent, which is read under the same bound as
the same number, belongs to that number alone, and is longer than what was read by no more than the
bound and three characters. -/
theorem plain_faithful {s : String} {limit : Nat} {n : Decimal} (h : ofText s limit = .ok n) :
    ('e' ∉ n.plain.toList ∧ 'E' ∉ n.plain.toList) ∧
      (∃ n', ofText n.plain limit = .ok n' ∧ n'.same n) ∧
      (∀ n' : Decimal, n'.plain = n.plain ↔ n'.toRat = n.toRat) ∧
      n.plain.length ≤ s.length + limit + 3 := by
  have hwithin := within_of_ofText h
  obtain ⟨hread, hfits⟩ := Option.filter_eq_some_iff.mp (parse?_of_ofText h)
  obtain ⟨l, hl, rfl⟩ := Option.map_eq_some_iff.mp hread
  have hspells := Literal.spells_iff.mpr hl
  have hmark {c : Char} (hc : ¬ (c.isDigit ∨ c = '-' ∨ c = '.')) : c ∉ l.value.plain.toList :=
    fun hmem => hc (mem_plain hmem)
  refine ⟨⟨hmark (by decide), hmark (by decide)⟩, ⟨_, ofText_plain_of_fits hwithin ?_,
    same_written _⟩, fun _ => plain_eq_iff, ?_⟩
  · have hscale := written_scale_le l.value
    simp only [scaleFits, Word.fitsSigned, Bool.and_eq_true, decide_eq_true_eq] at hfits ⊢
    omega
  · have hdigits := hspells.readable.digitCount_le
    rw [hspells.text, String.length_toList] at hdigits
    exact (length_plain_le hwithin).trans (by omega)

/-- Zeros are put before the digits, and none is kept behind them. -/
theorem plain_faithful_small : ofText "-1.50e-3" 5 = .ok ⟨-150, 5⟩ ∧
    Decimal.plain ⟨-150, 5⟩ = "-0.0015" ∧
    (∃ n, ofText "-0.0015" 5 = .ok n ∧ n.same ⟨-150, 5⟩) ∧ "-0.0015".length ≤ 16 := by
  have hread : ofText "-1.50e-3" 5 = .ok ⟨-150, 5⟩ := by decide +kernel
  have hplain : Decimal.plain ⟨-150, 5⟩ = "-0.0015" := by decide +kernel
  obtain ⟨-, hback, -, hlength⟩ := plain_faithful hread
  rw [hplain] at hback hlength
  exact ⟨hread, hplain, hback, hlength⟩

end TypedData.Decimal
