import TypedData.Decimal.Literal

/-!
# Numbers from text

## Main definitions

* `Decimal.Literal.Readable` — parts that a literal may have

## Main results

* `Decimal.within_of_ofText` — numbers that are accepted are within the bound
* `Decimal.Literal.read?_text` — a literal is read into its parts
-/

namespace Except

theorem toOption_eq_some_iff {ε α : Type} {x : Except ε α} {a : α} :
    x.toOption = some a ↔ x = .ok a := by
  cases x <;> simp [Except.toOption]

end Except

namespace TypedData.Decimal

/-- Numbers that are accepted are within the bound on exponents. -/
theorem within_of_ofText {s : String} {limit : Nat} {n : Decimal} (h : ofText s limit = .ok n) :
    n.withinExponent limit := by
  unfold ofText at h
  split at h
  · cases h
  · split at h
    · cases h
      assumption
    · cases h

theorem ofText_of_parse? {s : String} {limit : Nat} {n : Decimal} (h : parse? s = some n)
    (hn : n.withinExponent limit) : ofText s limit = .ok n := by
  simp only [ofText, h, hn, if_true]

theorem parse?_of_ofText {s : String} {limit : Nat} {n : Decimal} (h : ofText s limit = .ok n) :
    parse? s = some n := by
  unfold ofText at h
  split at h
  · cases h
  · split at h
    · cases h
      assumption
    · cases h

/-- A wider bound lets the same numbers in. -/
theorem ofText_of_le {s : String} {limit limit' : Nat} {n : Decimal} (hle : limit ≤ limit')
    (h : ofText s limit = .ok n) : ofText s limit' = .ok n := by
  have hwithin : n.withinExponent limit' := by
    have := within_of_ofText h
    simp only [withinExponent, Bool.or_eq_true, decide_eq_true_eq] at this ⊢
    omega
  rw [ofText] at h ⊢
  split at h
  · cases h
  · split at h
    · cases h
      exact if_pos hwithin
    · cases h

/-! ### Digits -/

theorem natOfDigits_eq (ds : List Char) : natOfDigits ds = Nat.ofDigitChars 10 ds 0 := by
  simp only [natOfDigits, Nat.ofDigitChars_eq_foldl, Nat.mul_comm]

@[simp] theorem natOfDigits_toDigits (n : Nat) : natOfDigits (Nat.toDigits 10 n) = n := by
  rw [natOfDigits_eq, Nat.ofDigitChars_ten_toDigits]

/-- Zeros behind the digits multiply by powers of ten. -/
theorem natOfDigits_append_zeros (ds : List Char) (k : Nat) :
    natOfDigits (ds ++ List.replicate k '0') = natOfDigits ds * Nat.pow 10 k := by
  rw [natOfDigits_eq, Nat.ofDigitChars_append, Nat.ofDigitChars_replicate_zero, ← natOfDigits_eq,
    Nat.mul_comm]
  rfl

/-- Zeros before the digits do not matter. -/
theorem natOfDigits_zeros_append (ds : List Char) (k : Nat) :
    natOfDigits (List.replicate k '0' ++ ds) = natOfDigits ds := by
  rw [natOfDigits_eq, Nat.ofDigitChars_append, Nat.ofDigitChars_replicate_zero, Nat.mul_zero,
    ← natOfDigits_eq]

theorem isDigit_of_mem_toDigits {n : Nat} {c : Char} (h : c ∈ Nat.toDigits 10 n) : c.isDigit :=
  Nat.isDigit_of_mem_toDigits (by decide) (by decide) h

theorem isDigit_of_mem_replicate {k : Nat} {c : Char} (h : c ∈ List.replicate k '0') :
    c.isDigit := by
  rw [List.eq_of_mem_replicate h]
  rfl

/-! ### Reading a literal -/

/-- Digits end where something else begins. -/
theorem takeWhile_isDigit_append {ds rest : List Char} (hds : ∀ c ∈ ds, c.isDigit)
    (hrest : ∀ c, rest.head? = some c → c.isDigit = false) :
    (ds ++ rest).takeWhile Char.isDigit = ds ∧ (ds ++ rest).dropWhile Char.isDigit = rest := by
  rw [List.takeWhile_append_of_pos hds, List.dropWhile_append_of_pos hds]
  cases rest with
  | nil => simp
  | cons c rest => simp [hrest c rfl]

/-- An exponent has digits. -/
def ExponentPart.Readable (e : ExponentPart) : Prop := e.digits ≠ [] ∧ ∀ c ∈ e.digits, c.isDigit

namespace Literal

/-- Parts that a literal may have: digits before or after the point, and in the exponent. -/
structure Readable (l : Literal) : Prop where
  whole : ∀ c ∈ l.whole, c.isDigit
  fraction : ∀ ds, l.fraction = some ds → ∀ c ∈ ds, c.isDigit
  digits : l.whole ≠ [] ∨ l.fraction.getD [] ≠ []
  exponent : ∀ e, l.exponent = some e → e.Readable

theorem take_textOf {sign : Option Sign} {cs : List Char}
    (h : ∀ c, cs.head? = some c → c ≠ '+' ∧ c ≠ '-') :
    Sign.take (Sign.textOf sign ++ cs) = (sign, cs) := by
  cases sign with
  | some s => cases s <;> rfl
  | none =>
    cases cs with
    | nil => rfl
    | cons c cs =>
      obtain ⟨hplus, hminus⟩ := h c rfl
      simp only [Sign.textOf, List.nil_append]
      unfold Sign.take
      split
      · exact absurd (List.head_eq_of_cons_eq ‹_›) hplus
      · exact absurd (List.head_eq_of_cons_eq ‹_›) hminus
      · rfl

theorem not_sign_of_isDigit {c : Char} (h : c.isDigit) : c ≠ '+' ∧ c ≠ '-' := by
  constructor <;> rintro rfl <;> exact absurd h (by decide)

theorem readExponent?_text {e : ExponentPart} (h : e.Readable) :
    readExponent? e.text = some (some e) := by
  obtain ⟨upper, sign, ds⟩ := e
  obtain ⟨hne, hds⟩ := h
  have htake : Sign.take (Sign.textOf sign ++ ds) = (sign, ds) :=
    take_textOf fun c hc => not_sign_of_isDigit (hds c (List.mem_of_head? hc))
  have hall : ds.all Char.isDigit := List.all_eq_true.mpr hds
  cases upper <;> simp [ExponentPart.text, readExponent?, htake, hne, hall]

/-- The point and the digits after it, as written. -/
def fractionText (fraction : Option (List Char)) : List Char :=
  match fraction with
  | none => []
  | some ds => '.' :: ds

/-- The exponent, as written. -/
def exponentText (exponent : Option ExponentPart) : List Char :=
  match exponent with
  | none => []
  | some e => e.text

theorem text_eq (l : Literal) : l.text = Sign.textOf l.sign ++ l.whole ++
    fractionText l.fraction ++ exponentText l.exponent := rfl

theorem head?_exponentText {exponent : Option ExponentPart} {c : Char}
    (h : (exponentText exponent).head? = some c) : c = 'E' ∨ c = 'e' := by
  cases exponent with
  | none => simp [exponentText] at h
  | some e =>
    simp only [exponentText, ExponentPart.text, List.head?_cons, Option.some.injEq] at h
    subst h
    split <;> simp

theorem readExponent?_exponentText {exponent : Option ExponentPart}
    (h : ∀ e, exponent = some e → e.Readable) :
    readExponent? (exponentText exponent) = some exponent := by
  cases exponent with
  | none => rfl
  | some e => exact readExponent?_text (h e rfl)

/-- The point and the digits after it are split off. -/
theorem takeFraction_fractionText {fraction : Option (List Char)} {tail : List Char}
    (hfraction : ∀ ds, fraction = some ds → ∀ c ∈ ds, c.isDigit)
    (htail : ∀ c, tail.head? = some c → c = 'E' ∨ c = 'e') :
    takeFraction (fractionText fraction ++ tail) = (fraction, tail) := by
  cases fraction with
  | none =>
    rw [fractionText, List.nil_append]
    unfold takeFraction
    split
    · rcases htail '.' rfl with h | h <;> exact absurd h (by decide)
    · rfl
  | some ds =>
    obtain ⟨htake, hdrop⟩ := takeWhile_isDigit_append (hfraction ds rfl) fun c hc => by
      rcases htail c hc with rfl | rfl <;> rfl
    simp only [fractionText, List.cons_append, takeFraction, htake, hdrop]

/-- A literal is read into its parts. -/
theorem read?_text {l : Literal} (h : l.Readable) : read? l.text = some l := by
  obtain ⟨sign, whole, fraction, exponent⟩ := l
  obtain ⟨hwhole, hfraction, hdigits, hexponent⟩ := h
  simp only at hwhole hfraction hdigits hexponent
  have hfrac := takeFraction_fractionText hfraction fun _ hc =>
    @head?_exponentText exponent _ hc
  -- Neither the point nor an exponent starts with a digit or a sign.
  have hrest : ∀ c, (fractionText fraction ++ exponentText exponent).head? = some c →
      c = '.' ∨ c = 'E' ∨ c = 'e' := by
    intro c hc
    cases fraction with
    | none => exact .inr (head?_exponentText (by simpa [fractionText] using hc))
    | some ds => exact .inl (by simpa [fractionText] using hc.symm)
  obtain ⟨htake, hdrop⟩ := takeWhile_isDigit_append hwhole fun c hc => by
    rcases hrest c hc with rfl | rfl | rfl <;> rfl
  have hsign : Sign.take (Sign.textOf sign ++ (whole ++ (fractionText fraction ++
      exponentText exponent))) = (sign, whole ++ (fractionText fraction ++
        exponentText exponent)) := by
    refine take_textOf fun c hc => ?_
    cases whole with
    | nil => rcases hrest c (by simpa using hc) with rfl | rfl | rfl <;> decide
    | cons d ds =>
      obtain rfl : d = c := by simpa using hc
      exact not_sign_of_isDigit (hwhole d (by simp))
  rw [text_eq, read?]
  simp only [List.append_assoc, hsign, htake, hdrop, hfrac,
    readExponent?_exponentText hexponent, Option.map_some]
  exact if_neg fun hnone => hdigits.elim (absurd hnone.1) (absurd hnone.2)

end Literal

end TypedData.Decimal
