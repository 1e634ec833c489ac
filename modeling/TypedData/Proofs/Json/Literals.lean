import Mathlib.Data.List.TakeWhile
import TypedData.Proofs.Decimal.Grammar
import TypedData.Proofs.Json.Documented
import TypedData.Proofs.Wire.Accepted

/-!
# Numbers of JSON as values

A number of JSON is a decimal literal, and is kept as one that denotes the same number. Native data
has it digit by digit as long as its exponent fits 32 bits. Beyond that the nearest floating-point
number stands in for it, which is refused where it is infinite, but is zero where the literal is
small.

## Main results

* `Json.Token.exists_literal` — what is kept of a number denotes what was written
* `Json.validate_number` — the value that a number of JSON is validated as
-/

namespace TypedData

namespace Decimal

/-! ### Long literals -/

namespace Literal

theorem Readable.withSign {l : Literal} (h : l.Readable) (s : Option Sign) :
    Readable { l with sign := s } :=
  ⟨h.whole, h.fraction, h.digits, h.exponent⟩

/-- The leading digit of a literal stands no further up than there are characters. -/
theorem Readable.leading_le {l : Literal} (h : l.Readable) :
    l.value.leading ≤ l.text.length - l.value.scale := by
  have := h.digitCount_le
  rw [leading]
  omega

end Literal

end Decimal

namespace Binary64

/-! ### Numbers out of reach -/

theorem shortest?_zero (negative : Bool) : (ofFields negative 0 0).shortest? = some ⟨0, 0⟩ := by
  cases negative <;> rfl

theorem isFinite_infinity (negative : Bool) : (infinity negative).isFinite = false := by
  cases negative <;> rfl

theorem shortest?_of_not_finite {f : Binary64} (h : f.isFinite = false) : f.shortest? = none := by
  rw [shortest?, h]
  rfl

theorem shortest?_nearest_of_digits_eq_zero {d : Decimal} (hd : d.digits = 0) :
    (nearest d).shortest? = some ⟨0, 0⟩ := by
  rw [nearest, Decimal.normalize_of_digits_eq_zero hd]
  rfl

theorem shortest?_nearest_of_leading_lt {d : Decimal} (hd : d.digits ≠ 0) (h : d.leading < -330) :
    (nearest d).shortest? = some ⟨0, 0⟩ := by
  rw [nearest]
  have hne : d.normalize.digits ≠ 0 := Decimal.normalize_digits_eq_zero_iff.not.mpr hd
  rw [← Decimal.leading_normalize hd] at h
  simp only [if_neg hne, if_neg (show ¬ 310 < d.normalize.leading by omega), if_pos h,
    shortest?_zero]

theorem isFinite_nearest_of_lt_leading {d : Decimal} (hd : d.digits ≠ 0) (h : 310 < d.leading) :
    (nearest d).isFinite = false := by
  rw [nearest]
  have hne : d.normalize.digits ≠ 0 := Decimal.normalize_digits_eq_zero_iff.not.mpr hd
  rw [← Decimal.leading_normalize hd] at h
  simp only [if_neg hne, if_pos h, isFinite_infinity]

end Binary64

namespace Json

open Decimal

namespace Token

/-! ### Texts of numbers -/

variable {cs t rest : List Char}

/-- A literal with the same parts as another, but for how its exponent is written. -/
structure Respelled (l l' : Literal) : Prop where
  sign : l'.sign = l.sign
  whole : l'.whole = l.whole
  fraction : l'.fraction = l.fraction
  exponent : l'.exponent.map ExponentPart.value = l.exponent.map ExponentPart.value

theorem Respelled.value_eq {l l' : Literal} (h : Respelled l l') : l'.value = l.value := by
  obtain ⟨sign, whole, fraction, e⟩ := l
  obtain ⟨sign', whole', fraction', e'⟩ := l'
  obtain ⟨rfl, rfl, rfl, hvalue⟩ := h
  cases e <;> cases e' <;> simp_all [Literal.value]

theorem Respelled.withSign {l l' : Literal} (h : Respelled l l') (s : Option Sign) :
    Respelled { l with sign := s } { l' with sign := s } :=
  ⟨rfl, h.whole, h.fraction, h.exponent⟩

theorem takeWhole?_eq_some (h : takeWhole? cs = some (t, rest)) :
    cs = t ++ rest ∧ t ≠ [] ∧ ∀ c ∈ t, c.isDigit := by
  rw [takeWhole?] at h
  split at h
  · cases h
  · rename_i hdigits
    obtain ⟨rfl, rfl⟩ := Prod.mk.inj (Option.some.inj h)
    exact ⟨List.takeWhile_append_dropWhile.symm, fun hnil => hdigits (.inl hnil),
      fun c hc => List.mem_takeWhile_imp hc⟩

theorem takeFraction?_eq_some (h : takeFraction? cs = some (t, rest)) :
    cs = t ++ rest ∧ ∃ fraction, t = Literal.fractionText fraction ∧
      ∀ ds, fraction = some ds → ∀ c ∈ ds, c.isDigit := by
  unfold takeFraction? at h
  split at h
  · simp only at h
    split at h
    · cases h
    · obtain ⟨rfl, rfl⟩ := Prod.mk.inj (Option.some.inj h)
      refine ⟨by rw [List.cons_append, List.takeWhile_append_dropWhile], some _, rfl, ?_⟩
      rintro ds ⟨⟩ c hc
      exact List.mem_takeWhile_imp hc
  · obtain ⟨rfl, rfl⟩ := Prod.mk.inj (Option.some.inj h)
    exact ⟨rfl, none, rfl, nofun⟩

/-- An exponent after its mark and its sign, if it has one, is kept under the sign that stands for
it. -/
theorem exists_exponent {c mark : Char} (written : Option Sign) (sign : Sign)
    (hc : c = 'e' ∨ c = 'E') (hmark : Sign.textOf (some sign) = [mark])
    (hsign : ∀ n, Sign.apply (some sign) n = Sign.apply written n)
    (h : takeExponentDigits? mark cs = some (t, rest)) :
    ∃ e e', c :: (Sign.textOf written ++ cs) = Literal.exponentText e ++ rest ∧
      t = Literal.exponentText e' ∧ (∀ p, e = some p → p.Readable) ∧
      (∀ p, e' = some p → p.Readable) ∧
      e'.map ExponentPart.value = e.map ExponentPart.value := by
  rw [takeExponentDigits?] at h
  split at h
  · cases h
  rename_i hdigits
  obtain ⟨rfl, rfl⟩ := Prod.mk.inj (Option.some.inj h)
  have hreadable (upper : Bool) (s : Option Sign) : ∀ p,
      some (ExponentPart.mk upper s (cs.takeWhile Char.isDigit)) = some p → p.Readable := by
    rintro p ⟨⟩
    exact ⟨hdigits, fun c hc => List.mem_takeWhile_imp hc⟩
  refine ⟨some ⟨c = 'E', written, _⟩, some ⟨false, some sign, _⟩, ?_, ?_, hreadable _ _,
    hreadable _ _, congrArg some (hsign _)⟩
  · rcases hc with rfl | rfl <;> simp [Literal.exponentText, ExponentPart.text]
  · simp [Literal.exponentText, ExponentPart.text, hmark]

theorem takeExponent?_eq_some (h : takeExponent? cs = some (t, rest)) :
    ∃ e e', cs = Literal.exponentText e ++ rest ∧ t = Literal.exponentText e' ∧
      (∀ p, e = some p → p.Readable) ∧ (∀ p, e' = some p → p.Readable) ∧
      e'.map ExponentPart.value = e.map ExponentPart.value := by
  unfold takeExponent? at h
  split at h
  · split at h
    · rename_i hc
      split at h
      · exact exists_exponent (some .minus) .minus hc rfl (fun _ => rfl) h
      · exact exists_exponent (some .plus) .plus hc rfl (fun _ => rfl) h
      · exact exists_exponent none .plus hc rfl (fun _ => rfl) h
    · obtain ⟨rfl, rfl⟩ := Prod.mk.inj (Option.some.inj h)
      exact ⟨none, none, rfl, rfl, nofun, nofun, rfl⟩
  · obtain ⟨rfl, rfl⟩ := Prod.mk.inj (Option.some.inj h)
    exact ⟨none, none, rfl, rfl, nofun, nofun, rfl⟩

/-- A number without its sign is a literal, and is kept as one of the same value. -/
theorem takeUnsigned?_eq_some (h : takeUnsigned? cs = some (t, rest)) :
    ∃ l l' : Literal, cs = l.text ++ rest ∧ t = l'.text ∧ l.Readable ∧ l'.Readable ∧ l.sign = none ∧
      Respelled l l' := by
  simp only [takeUnsigned?, Option.bind_eq_bind, Option.bind_eq_some_iff, Option.some.injEq,
    Prod.mk.injEq, Prod.exists] at h
  obtain ⟨whole, cs₁, hwhole, ftext, cs₂, hfraction, etext, cs₃, hexponent, rfl, rfl⟩ := h
  obtain ⟨rfl, hne, hdigits⟩ := takeWhole?_eq_some hwhole
  obtain ⟨rfl, fraction, rfl, hplaces⟩ := takeFraction?_eq_some hfraction
  obtain ⟨e, e', rfl, rfl, he, he', hvalue⟩ := takeExponent?_eq_some hexponent
  refine ⟨⟨none, whole, fraction, e⟩, ⟨none, whole, fraction, e'⟩, ?_, ?_,
    ⟨hdigits, hplaces, .inl hne, he⟩, ⟨hdigits, hplaces, .inl hne, he'⟩, rfl,
    ⟨rfl, rfl, rfl, hvalue⟩⟩
  · simp only [Literal.text_eq, Sign.textOf, List.nil_append, List.append_assoc]
  · simp only [Literal.text_eq, Sign.textOf, List.nil_append, List.append_assoc]

/-- A literal behind a minus is kept with it, unless it is the whole number zero, which denotes the
same without. -/
theorem exists_negated {l l' : Literal} (hl : l.Readable) (hl' : l'.Readable)
    (hsign : l.sign = none) (hspell : Respelled l l') :
    ∃ l₁ l₂ : Literal, '-' :: l.text = l₁.text ∧ l₁.Readable ∧
      Literal.read? (if l'.text = ['0'] then l'.text else '-' :: l'.text) = some l₂ ∧
      l₂.value = l₁.value := by
  have hminus {l : Literal} (hsign : l.sign = none) :
      '-' :: l.text = Literal.text { l with sign := some .minus } := by
    rw [Literal.text_eq, Literal.text_eq, hsign]
    rfl
  by_cases hzero : l'.text = ['0']
  · have hread := Literal.read?_text hl'
    obtain rfl : l' = ⟨none, ['0'], none, none⟩ := by
      rw [hzero] at hread
      exact (Option.some.inj hread).symm
    refine ⟨_, _, hminus hsign, hl.withSign _, by rw [if_pos hzero, hread], ?_⟩
    obtain ⟨sign, whole, fraction, e⟩ := l
    obtain ⟨-, rfl, rfl, hvalue⟩ := hspell
    cases e with
    | none => rfl
    | some e => cases hvalue
  · refine ⟨_, _, hminus hsign, hl.withSign _, ?_, (hspell.withSign _).value_eq⟩
    rw [if_neg hzero, hminus (hspell.sign.trans hsign), Literal.read?_text (hl'.withSign _)]

/-- What is kept of a number is a literal that denotes what was written. -/
theorem exists_literal {text : String} (h : wholeNumber? cs = some text) :
    ∃ l l' : Literal, cs = l.text ∧ l.Readable ∧ Literal.read? text.toList = some l' ∧
      l'.value = l.value := by
  unfold wholeNumber? at h
  split at h
  · rename_i t htake
    obtain rfl := Option.some.inj h
    rw [String.toList_ofList]
    unfold takeNumber? at htake
    split at htake
    · simp only [Option.map_eq_some_iff, Prod.mk.injEq, Prod.exists] at htake
      obtain ⟨t, rest, hunsigned, rfl, rfl⟩ := htake
      obtain ⟨l, l', rfl, rfl, hl, hl', hsign, hspell⟩ := takeUnsigned?_eq_some hunsigned
      rw [List.append_nil]
      exact exists_negated hl hl' hsign hspell
    · obtain ⟨l, l', rfl, rfl, hl, hl', -, hspell⟩ := takeUnsigned?_eq_some htake
      exact ⟨l, l', List.append_nil _, hl, Literal.read?_text hl', hspell.value_eq⟩
  · cases h

end Token

/-! ### Validation -/

variable {limits : Limits} {cs : List Char} {text : String} {l : Literal} {n : Decimal}

/-- A number is validated by itself. -/
theorem validate_number_eq : Native.validate limits .number (Native.ofJson (.number text)) =
    (Native.toNumber limits (Native.ofJsonNumber text)).map Value.number := by
  have hraw : (∃ d, Native.ofJsonNumber text = .number d) ∨
      ∃ f, Native.ofJsonNumber text = .float f := by
    rw [Native.ofJsonNumber]
    split
    · exact .inl ⟨_, rfl⟩
    · exact .inr ⟨_, rfl⟩
  exact Native.validateAt_of_number (Nat.zero_le _) (.inl rfl) hraw

/-- The digits of a literal are kept if its scale is read and its exponent fits 32 bits. -/
theorem ofJsonNumber_eq (hread : Literal.read? text.toList = some l) :
    Native.ofJsonNumber text =
      if scaleFits l.value.scale ∧ l.value.withinExponent Native.maxJsonExponent then
        .number l.value
      else .float (Native.nearestOfLiteral text) := by
  rw [Native.ofJsonNumber, ofText, parse?, hread, Option.map_some, Option.filter_some]
  by_cases hfits : scaleFits l.value.scale
  · by_cases hwithin : l.value.withinExponent Native.maxJsonExponent <;> simp [hfits, hwithin]
  · simp [hfits]

theorem shortest?_nearestOfLiteral (hread : Literal.read? text.toList = some l) :
    (Native.nearestOfLiteral text).shortest? = (Binary64.nearest l.value).shortest? := by
  simp only [Native.nearestOfLiteral, hread]
  split
  · rfl
  · rename_i hfinite
    exact (Binary64.shortest?_of_not_finite (eq_false_of_ne_true hfinite)).symm

theorem toNumber_float_eq_ok_iff {f : Binary64} :
    Native.toNumber limits (.float f) = .ok n ↔
      f.shortest? = some n ∧ n.withinExponent limits.maxNumberExponent := by
  rw [Native.toNumber]
  cases f.shortest? with
  | none => simp
  | some m =>
    by_cases hm : m.withinExponent limits.maxNumberExponent
    · simp only [Option.filter_some, hm, if_true, Except.ok.injEq, Option.some.injEq]
      exact ⟨fun h => ⟨h, h ▸ hm⟩, fun h => h.1⟩
    · simp only [Option.filter_some, hm, Bool.false_eq_true, if_false, reduceCtorEq,
        Option.some.injEq, false_iff]
      exact fun h => hm (h.1 ▸ h.2)

/-- Every exponent that fits 32 bits is read. -/
theorem digits_eq_zero_of_not_scaleFits {d : Decimal}
    (hwithin : d.withinExponent Native.maxJsonExponent) (hfits : ¬ scaleFits d.scale) :
    d.digits = 0 := by
  simp only [withinExponent, Bool.or_eq_true, decide_eq_true_eq] at hwithin
  refine hwithin.resolve_right fun hscale => hfits ?_
  have hbound : (Word.signedBound : Int) = 9223372036854775808 := rfl
  have hmax : Native.maxJsonExponent = 4294967295 := rfl
  simp only [scaleFits, Word.fitsSigned, hbound, Bool.and_eq_true, decide_eq_true_eq]
  omega

/-- A literal whose exponent fits 32 bits is taken for what it denotes, if it is within the limit.
The exponent of a zero does not count. -/
theorem toNumber_of_within (limits : Limits) (hread : Literal.read? text.toList = some l)
    (hwithin : l.value.withinExponent Native.maxJsonExponent) :
    (∀ n, Native.toNumber limits (Native.ofJsonNumber text) = .ok n → n.same l.value) ∧
    ((∃ n, Native.toNumber limits (Native.ofJsonNumber text) = .ok n) ↔
      l.value.withinExponent limits.maxNumberExponent) := by
  rw [ofJsonNumber_eq hread]
  by_cases hfits : scaleFits l.value.scale
  · rw [if_pos ⟨hfits, hwithin⟩, Native.toNumber]
    split
    · rename_i hlimit
      exact ⟨fun n hn => same_iff.mpr (congrArg toRat (Except.ok.inj hn).symm),
        fun _ => hlimit, fun _ => ⟨_, rfl⟩⟩
    · rename_i hlimit
      refine ⟨fun n hn => ?_, fun hsome => ?_, fun hwithin => absurd hwithin hlimit⟩
      · cases hn
      · obtain ⟨n, hn⟩ := hsome
        cases hn
  · have hzero := digits_eq_zero_of_not_scaleFits hwithin hfits
    rw [if_neg fun h => hfits h.1]
    simp only [toNumber_float_eq_ok_iff, shortest?_nearestOfLiteral hread,
      Binary64.shortest?_nearest_of_digits_eq_zero hzero, Option.some.injEq]
    refine ⟨?_, fun _ => by simp [withinExponent, hzero], fun _ => ⟨_, rfl, rfl⟩⟩
    rintro n ⟨rfl, -⟩
    exact same_iff.mpr (by rw [toRat_eq_zero_iff.mpr hzero, toRat_eq_zero_iff.mpr rfl])

/-- Any other literal is taken for the shortest decimal of the nearest floating-point number. -/
theorem toNumber_of_not_within (hread : Literal.read? text.toList = some l)
    (hwithin : ¬ l.value.withinExponent Native.maxJsonExponent) :
    Native.toNumber limits (Native.ofJsonNumber text) = .ok n ↔
      (Binary64.nearest l.value).shortest? = some n ∧
        n.withinExponent limits.maxNumberExponent := by
  rw [ofJsonNumber_eq hread, if_neg fun h => hwithin h.2, toNumber_float_eq_ok_iff,
    shortest?_nearestOfLiteral hread]

/-- Unless a literal beyond the bound is longer than the bound itself, the floating-point number is
zero if the literal is small, and there is none if it is large. -/
theorem shortest?_nearest_of_not_within {d : Decimal} {length : Nat}
    (hwithin : ¬ d.withinExponent Native.maxJsonExponent)
    (hleading : d.leading ≤ length - d.scale) (hlength : length + 330 ≤ Native.maxJsonExponent) :
    (Binary64.nearest d).shortest? = if 0 < d.scale then some ⟨0, 0⟩ else none := by
  simp only [withinExponent, Bool.or_eq_true, decide_eq_true_eq, not_or] at hwithin
  obtain ⟨hdigits, hscale⟩ := hwithin
  have hmax : Native.maxJsonExponent = 4294967295 := rfl
  split
  · exact Binary64.shortest?_nearest_of_leading_lt hdigits (by omega)
  · have hpos := digitCount_pos d.digits.natAbs
    refine Binary64.shortest?_of_not_finite (Binary64.isFinite_nearest_of_lt_leading hdigits ?_)
    rw [leading]
    omega

/-- A number of JSON whose exponent fits 32 bits is validated as the number that it denotes, if its
exponent is within the limit, and is refused otherwise; the exponent of a zero does not count. Any
other is validated as the shortest decimal of the nearest floating-point number, if there is one
within the limit. That is zero for every small literal, and none for every large one, unless the
literal has billions of characters. -/
theorem validate_number (limits : Limits) (h : Token.wholeNumber? cs = some text) :
    ∃ l : Literal, Literal.read? cs = some l ∧
      (l.value.withinExponent Native.maxJsonExponent →
        (∀ v, Native.validate limits .number (Native.ofJson (.number text)) = .ok v →
          ∃ n, v = .number n ∧ n.same l.value ∧ n.withinExponent limits.maxNumberExponent) ∧
        ((∃ v, Native.validate limits .number (Native.ofJson (.number text)) = .ok v) ↔
          l.value.withinExponent limits.maxNumberExponent)) ∧
      (¬ l.value.withinExponent Native.maxJsonExponent →
        (∀ v, Native.validate limits .number (Native.ofJson (.number text)) = .ok v ↔
          ∃ n, v = .number n ∧ (Binary64.nearest l.value).shortest? = some n ∧
            n.withinExponent limits.maxNumberExponent) ∧
        (cs.length + 330 ≤ Native.maxJsonExponent →
          ∀ v, Native.validate limits .number (Native.ofJson (.number text)) = .ok v ↔
            v = .number ⟨0, 0⟩ ∧ 0 < l.value.scale)) := by
  obtain ⟨l, l', rfl, hl, hread, hvalue⟩ := Token.exists_literal h
  have hvalidate (v : Value) :
      Native.validate limits .number (Native.ofJson (.number text)) = .ok v ↔
        ∃ n, Native.toNumber limits (Native.ofJsonNumber text) = .ok n ∧ Value.number n = v := by
    rw [validate_number_eq, Except.map_eq_ok_iff]
  refine ⟨l, Literal.read?_text hl, fun hwithin => ?_, fun hwithin => ⟨fun v => ?_,
    fun hlength v => ?_⟩⟩
  · obtain ⟨hsame, haccepted⟩ := toNumber_of_within limits hread (hvalue ▸ hwithin)
    rw [hvalue] at hsame haccepted
    refine ⟨fun v hv => ?_, fun ⟨v, hv⟩ => ?_, fun hlimit => ?_⟩
    · obtain ⟨n, hn, rfl⟩ := (hvalidate v).mp hv
      exact ⟨n, rfl, hsame n hn, Native.within_of_toNumber hn⟩
    · obtain ⟨n, hn, -⟩ := (hvalidate v).mp hv
      exact haccepted.mp ⟨n, hn⟩
    · obtain ⟨n, hn⟩ := haccepted.mpr hlimit
      exact ⟨_, (hvalidate _).mpr ⟨n, hn, rfl⟩⟩
  · simp only [hvalidate, toNumber_of_not_within hread (hvalue ▸ hwithin), hvalue]
    exact ⟨fun ⟨n, hn, hv⟩ => ⟨n, hv.symm, hn⟩, fun ⟨n, hv, hn⟩ => ⟨n, hn, hv.symm⟩⟩
  · simp only [hvalidate, toNumber_of_not_within hread (hvalue ▸ hwithin), hvalue,
      shortest?_nearest_of_not_within hwithin hl.leading_le hlength]
    split
    · rename_i hpositive
      constructor
      · rintro ⟨n, ⟨hn, -⟩, rfl⟩
        exact ⟨congrArg _ (Option.some.inj hn).symm, hpositive⟩
      · rintro ⟨rfl, -⟩
        exact ⟨_, ⟨rfl, rfl⟩, rfl⟩
    · rename_i hnegative
      constructor
      · rintro ⟨n, ⟨hn, -⟩, -⟩
        cases hn
      · exact fun hv => absurd hv.2 hnegative

/-- A literal with its exponent is validated as what it denotes, however the exponent is written. -/
theorem validate_number_half : Token.wholeNumber? "25E-1".toList = some "25e-1" ∧
    ∃ n, Native.validate .default .number (Native.ofJson (.number "25e-1")) = .ok (.number n) ∧
      n.same ⟨25, 1⟩ := by
  have hwhole : Token.wholeNumber? "25E-1".toList = some "25e-1" := by rfl
  have hread : Literal.read? "25E-1".toList =
      some ⟨none, ['2', '5'], none, some ⟨true, some .minus, ['1']⟩⟩ := by rfl
  obtain ⟨l, hl, hwithin, -⟩ := validate_number .default hwhole
  obtain rfl := Option.some.inj (hl.symm.trans hread)
  obtain ⟨hexact, haccepted⟩ := hwithin rfl
  obtain ⟨v, hv⟩ := haccepted.mpr rfl
  obtain ⟨n, rfl, hn, -⟩ := hexact v hv
  exact ⟨hwhole, n, hv, hn⟩

/-- The literal `1e-4294967296`. Its exponent is the first that does not fit 32 bits. -/
def exampleTiny : Literal :=
  ⟨none, ['1'], none,
    some ⟨false, some .minus, ['4', '2', '9', '4', '9', '6', '7', '2', '9', '6']⟩⟩

theorem value_exampleTiny : exampleTiny.value = ⟨1, 4294967296⟩ := rfl

/-- A small literal whose exponent does not fit 32 bits is validated as zero. -/
theorem validate_number_exampleTiny :
    Token.wholeNumber? "1e-4294967296".toList = some "1e-4294967296" ∧
    Literal.read? "1e-4294967296".toList = some exampleTiny ∧
    Native.validate .default .number (Native.ofJson (.number "1e-4294967296")) =
      .ok (.number ⟨0, 0⟩) ∧
    Decimal.same ⟨0, 0⟩ exampleTiny.value = false := by
  have hread : Literal.read? "1e-4294967296".toList = some exampleTiny := by rfl
  have hwithin : ¬ exampleTiny.value.withinExponent Native.maxJsonExponent := by
    rw [value_exampleTiny]
    decide
  have hzero : (Binary64.nearest exampleTiny.value).shortest? = some ⟨0, 0⟩ := by
    rw [value_exampleTiny]
    exact Binary64.shortest?_nearest_of_leading_lt (by decide) (by decide)
  refine ⟨by rfl, hread, ?_, ?_⟩
  · rw [validate_number_eq, (toNumber_of_not_within hread hwithin).mpr ⟨hzero, rfl⟩]
    rfl
  · rw [value_exampleTiny, Bool.eq_false_iff, Ne, same_iff, toRat_eq_zero_iff.mpr rfl, eq_comm,
      toRat_eq_zero_iff]
    decide

end Json

end TypedData
