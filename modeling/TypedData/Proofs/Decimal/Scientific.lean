import TypedData.Proofs.Decimal.Grammar
import TypedData.Proofs.Decimal.Plain
import TypedData.Proofs.Validation

/-!
# Scientific notation

Scientific notation keeps the form of a number: its digits, and the opposite of its scale as the
exponent. Both scale and exponent are signed words, and one word has no opposite. So there is a
notation for every scale but the least one, and it denotes its number; for the least one the
negation overflows and the program stops. This is what readers see of numbers far out of range, and
what errors about them quote.

## Main definitions

* `Decimal.Denotes` — a text is a literal of a number
* `Decimal.scientificLiteral` — scientific notation as a literal

## Main results

* `Word.fitsSigned_neg_iff` — all words but the least have an opposite
* `Decimal.scientific?_eq` — when there is scientific notation, and what it is
* `Decimal.denotes_plain`, `Decimal.denotes_scientific?` — notations denote their number
* `Decimal.scientific_defined_iff` — the notation, its readers and the errors that quote it
-/

namespace TypedData

/-! ### Opposite words -/

namespace Word

variable {n : Int}

/-- All words but the least have an opposite. -/
theorem fitsSigned_neg_iff (h : fitsSigned n) : fitsSigned (-n) ↔ n ≠ -signedBound := by
  simp only [fitsSigned, Bool.and_eq_true, decide_eq_true_eq] at h ⊢
  omega

end Word

/-! ### Quoted texts -/

namespace Text

/-- Visible characters of the first 128 are not escaped, apart from the two that quotes need. -/
theorem quotedChar_of_visible {c : Char} (hlower : 32 ≤ c.toNat) (hupper : c.toNat ≤ 126)
    (hquote : c ≠ '"') (hslash : c ≠ '\\') : quotedChar c = c.toString := by
  -- No range of unprintable characters meets these.
  have hranges : Unicode.unprintableRanges.all fun r => r.2 < 32 || 126 < r.1 := by
    decide +kernel
  have hprintable : isUnprintable c = false := by
    rw [isUnprintable, List.any_eq_false]
    intro r hr
    have := List.all_eq_true.mp hranges r hr
    simp only [Bool.or_eq_true, decide_eq_true_eq] at this
    simp only [Bool.and_eq_true, decide_eq_true_eq]
    omega
  unfold quotedChar
  split
  · exact absurd rfl hquote
  · exact absurd rfl hslash
  · exact absurd hlower (by decide)
  · exact absurd hlower (by decide)
  · exact absurd hlower (by decide)
  · exact absurd hlower (by decide)
  · rw [hprintable]
    rfl

theorem quoted_of_visible {s : String} (h : ∀ c ∈ s.toList, quotedChar c = c.toString) :
    quoted s = "\"" ++ s ++ "\"" := by
  have hsingle (c : Char) : c.toString.toList = [c] := by simp
  have hjoin : String.join (s.toList.map Char.toString) = s := by
    rw [← String.toList_inj, String.toList_join, List.flatMap_map]
    simp only [hsingle, List.flatMap_singleton']
  rw [quoted, List.map_congr_left h, hjoin]

end Text

namespace Decimal

variable {d : Decimal} {s : String} {q : ℚ} {l : Literal} {limit : Nat}

/-! ### What a text denotes -/

/-- A text denotes a number if it is a literal whose parts denote it. -/
def Denotes (s : String) (q : ℚ) : Prop := ∃ l : Literal, l.Spells s ∧ l.denoted = q

/-- A literal denotes one number. -/
theorem Literal.Spells.denotes_iff (h : l.Spells s) : Denotes s q ↔ l.denoted = q := by
  refine ⟨fun ⟨l', h', hq⟩ => ?_, fun hq => ⟨l, h, hq⟩⟩
  rw [← hq, Option.some.inj ((Literal.spells_iff.mp h).symm.trans (Literal.spells_iff.mp h'))]

/-- Positional notation denotes its number. -/
theorem denotes_plain (d : Decimal) : Denotes d.plain d.toRat := by
  refine ⟨d.plainLiteral, ⟨readable_plainLiteral d, (toList_plain d).symm⟩, ?_⟩
  rw [← Literal.toRat_value, value_plainLiteral, toRat_written]

/-! ### Scientific notation as a literal -/

/-- The sign of an integer as it is written. -/
def signOf (n : Int) : Option Sign := if n < 0 then some .minus else none

theorem intText_eq (n : Int) : intText n = Sign.textOf (signOf n) ++ Nat.toDigits 10 n.natAbs := by
  rw [intText, signOf]
  split <;> rfl

theorem apply_signOf (n : Int) : Sign.apply (signOf n) n.natAbs = n := by
  rw [Sign.apply, signOf]
  split
  · rw [if_pos rfl]
    omega
  · rw [if_neg (by simp)]
    omega

/-- The exponent of scientific notation, which is left out if it is zero. -/
def exponentOf (n : Int) : Option ExponentPart :=
  if n = 0 then none else some ⟨false, signOf n, Nat.toDigits 10 n.natAbs⟩

theorem exponentText_exponentOf (n : Int) :
    Literal.exponentText (exponentOf n) = if n = 0 then [] else 'e' :: intText n := by
  rw [exponentOf]
  split
  · rfl
  · rw [intText_eq, Literal.exponentText, ExponentPart.text]
    rfl

/-- Scientific notation as a literal. -/
def scientificLiteral (d : Decimal) : Literal :=
  ⟨signOf d.digits, Nat.toDigits 10 d.digits.natAbs, none, exponentOf (-d.scale)⟩

theorem text_scientificLiteral (d : Decimal) : d.scientificLiteral.text =
    intText d.digits ++ if d.scale = 0 then [] else 'e' :: intText (-d.scale) := by
  have hzero : -d.scale = 0 ↔ d.scale = 0 := by omega
  rw [Literal.text_eq, scientificLiteral, exponentText_exponentOf, intText_eq d.digits]
  simp only [Literal.fractionText, List.append_nil, hzero]

/-- There is scientific notation if the opposite of the scale is a word. It is the text of that
literal. -/
theorem scientific?_eq (d : Decimal) : d.scientific? =
    if Word.fitsSigned (-d.scale) then some (String.ofList d.scientificLiteral.text) else none := by
  rw [text_scientificLiteral, scientific?]
  by_cases hzero : d.scale = 0
  · have hfits : Word.fitsSigned (-d.scale) := by
      rw [hzero]
      decide
    rw [if_pos hzero, if_pos hzero, if_pos hfits, List.append_nil]
  · rw [if_neg hzero, if_neg hzero, Word.negate?]
    split <;> rfl

theorem isSome_scientific?_iff : d.scientific?.isSome ↔ Word.fitsSigned (-d.scale) := by
  rw [scientific?_eq]
  split <;> simp [*]

theorem toList_scientific? (h : d.scientific? = some s) : s.toList = d.scientificLiteral.text := by
  rw [scientific?_eq] at h
  split at h
  · rw [← Option.some.inj h, String.toList_ofList]
  · cases h

theorem readable_scientificLiteral (d : Decimal) : d.scientificLiteral.Readable := by
  refine ⟨fun _ => isDigit_of_mem_toDigits, nofun, .inl Nat.toDigits_ne_nil, fun e he => ?_⟩
  simp only [scientificLiteral, exponentOf] at he
  split at he
  · cases he
  · obtain rfl := Option.some.inj he
    exact ⟨Nat.toDigits_ne_nil, fun _ => isDigit_of_mem_toDigits⟩

/-- Scientific notation is a literal. -/
theorem spells_scientific? (h : d.scientific? = some s) : d.scientificLiteral.Spells s :=
  ⟨readable_scientificLiteral d, (toList_scientific? h).symm⟩

theorem power_scientificLiteral (d : Decimal) : d.scientificLiteral.power = -d.scale := by
  rw [Literal.power, Literal.exponentValue, scientificLiteral, exponentOf]
  split
  · rename_i hzero
    simp [hzero]
  · simp only [Option.map_some, Option.getD_some, ExponentPart.value, natOfDigits_toDigits,
      apply_signOf, Option.getD_none, List.length_nil, Int.natCast_zero, sub_zero]

/-- The digits are those of the number, and the scale is that of the exponent. -/
theorem value_scientificLiteral (d : Decimal) : d.scientificLiteral.value = d := by
  have hdigits : d.scientificLiteral.value.digits = d.digits := by
    simp only [Literal.digits_value, scientificLiteral, Option.getD_none, List.append_nil,
      natOfDigits_toDigits, apply_signOf]
  have hscale : d.scientificLiteral.value.scale = d.scale := by
    rw [Literal.scale_value, power_scientificLiteral, neg_neg]
  exact congrArg₂ Decimal.mk hdigits hscale

/-! ### Reading the notation -/

/-- Scientific notation denotes its number. -/
theorem denotes_scientific? (h : d.scientific? = some s) : Denotes s d.toRat := by
  rw [(spells_scientific? h).denotes_iff, ← Literal.toRat_value, value_scientificLiteral]

/-- It is read back in the same form, under every limit that the number meets. -/
theorem ofText_scientific? (hscale : scaleFits d.scale) (h : d.scientific? = some s) :
    ofText s limit = if d.withinExponent limit then .ok d else .error (.outOfRange s limit) := by
  have hparse : parse? s = some d := by
    rw [parse?, Literal.spells_iff.mp (spells_scientific? h), Option.map_some,
      value_scientificLiteral, Option.filter_eq_some_iff]
    exact ⟨rfl, hscale⟩
  rw [ofText, hparse]

/-- What is within the default bound has a scale far from the least word. -/
theorem withinExponent_default_or_fits_iff :
    d.withinExponent defaultMaxExponent ∨ Word.fitsSigned (-d.scale) ↔
      d.digits = 0 ∨ Word.fitsSigned (-d.scale) := by
  have hbound : Word.signedBound = 2 ^ 63 := rfl
  have hmax : defaultMaxExponent = 4096 := rfl
  simp only [withinExponent, Word.fitsSigned, hbound, hmax, Bool.or_eq_true, Bool.and_eq_true,
    decide_eq_true_eq]
  omega

/-- There is a form for readers if there is scientific notation, or the number is zero. -/
theorem isSome_text?_iff : d.text?.isSome ↔ d.digits = 0 ∨ Word.fitsSigned (-d.scale) := by
  rw [← withinExponent_default_or_fits_iff, ← isSome_scientific?_iff, text?]
  split <;> simp [*]

/-- The form shown to readers denotes the number. -/
theorem denotes_text? (h : d.text? = some s) : Denotes s d.toRat := by
  rw [text?] at h
  split at h
  · exact Option.some.inj h ▸ denotes_plain d
  · exact denotes_scientific? h

/-! ### Errors -/

theorem mem_intText {n : Int} {c : Char} (h : c ∈ intText n) : c.isDigit ∨ c = '-' := by
  rw [intText] at h
  split at h
  · exact (List.mem_cons.mp h).elim .inr fun h => .inl (isDigit_of_mem_toDigits h)
  · exact .inl (isDigit_of_mem_toDigits h)

/-- Nothing in scientific notation is escaped between quotes. -/
theorem quoted_scientific? (h : d.scientific? = some s) : Text.quoted s = "\"" ++ s ++ "\"" := by
  have hint {n : Int} {c : Char} (h : c ∈ intText n) : Text.quotedChar c = c.toString := by
    rcases mem_intText h with h | rfl
    · obtain ⟨hlower, hupper⟩ := toNat_of_isDigit h
      refine Text.quotedChar_of_visible (by omega) (by omega) ?_ ?_ <;> rintro rfl <;> cases h
    · exact Text.quotedChar_of_visible (by decide) (by decide) (by decide) (by decide)
  have hmark : Text.quotedChar 'e' = 'e'.toString :=
    Text.quotedChar_of_visible (by decide) (by decide) (by decide) (by decide)
  refine Text.quoted_of_visible ?_
  rw [toList_scientific? h, text_scientificLiteral, List.forall_mem_append]
  refine ⟨fun c => hint, ?_⟩
  split
  · exact nofun
  · rw [List.forall_mem_cons]
    exact ⟨hmark, fun c => hint⟩

/-- A number beyond the limit is refused in scientific notation, wherever it stands; where there is
none, the program stops. -/
theorem validateAt_number {limits : Limits} {depth : Nat} {ty : Ty}
    (hdepth : depth ≤ limits.maxDepth) (hty : ty = .number ∨ ty = .dynamic) :
    Native.validateAt limits depth ty (.number d) =
      if d.withinExponent limits.maxNumberExponent then .ok (.number d)
      else .error ⟨[], d.scientific?.elim .stopped .badNumber⟩ := by
  rw [Native.validateAt_of_number hdepth hty (.inl ⟨d, rfl⟩), Native.toNumber]
  split <;> rfl

/-- The error shows the notation as it is. -/
theorem message_badNumber (h : d.scientific? = some s) :
    ValidationError.message ⟨[], .badNumber s⟩ = "\"" ++ s ++ "\" is not a valid number" := by
  have hend : "\"" ++ " is not a valid number" = "\" is not a valid number" := by decide
  rw [← hend, ← String.append_assoc, ← quoted_scientific? h]
  exact String.empty_append

/-- The scale of a number is a signed word, whatever else it is, and only the least word has no
opposite. There is scientific notation if the scale has an opposite, and only then. It is a literal
of the same digits with that opposite as its power of ten, so it denotes the number, and it is read
back in the same form under every limit that the number meets. The form shown to readers denotes the
number too; it is there if the notation is, or the number is zero, and only then. A number that is
out of range is refused with the notation between quotes, as it is; where there is no notation, the
program stops. -/
theorem scientific_defined_iff (hscale : Word.fitsSigned d.scale) :
    (d.scientific?.isSome ↔ d.scale ≠ -Word.signedBound) ∧
    (∀ s, d.scientific? = some s →
      (∃ l : Literal, l.Spells s ∧ l.value.digits = d.digits ∧ l.power = -d.scale) ∧
      Denotes s d.toRat ∧
      (∀ limit, ofText s limit =
        if d.withinExponent limit then .ok d else .error (.outOfRange s limit)) ∧
      ValidationError.message ⟨[], .badNumber s⟩ = "\"" ++ s ++ "\" is not a valid number") ∧
    (d.text?.isSome ↔ d.digits = 0 ∨ d.scale ≠ -Word.signedBound) ∧
    (∀ s, d.text? = some s → Denotes s d.toRat) ∧
    ∀ (limits : Limits) (depth : Nat) (ty : Ty), depth ≤ limits.maxDepth →
      ty = .number ∨ ty = .dynamic →
      Native.validateAt limits depth ty (.number d) =
        if d.withinExponent limits.maxNumberExponent then .ok (.number d)
        else .error ⟨[], d.scientific?.elim .stopped .badNumber⟩ := by
  rw [← Word.fitsSigned_neg_iff hscale]
  refine ⟨isSome_scientific?_iff, fun s hs => ⟨⟨_, spells_scientific? hs, ?_, ?_⟩,
    denotes_scientific? hs, fun _ => ofText_scientific? hscale hs, message_badNumber hs⟩,
    isSome_text?_iff, fun _ => denotes_text?, fun _ _ _ => validateAt_number⟩
  · rw [value_scientificLiteral]
  · rw [power_scientificLiteral]

/-- The greatest exponent that can be written, of a number that validation refuses. -/
theorem scientific_defined_iff_greatest :
    Word.fitsSigned (-9223372036854775807) ∧
    scientific? ⟨-25, -9223372036854775807⟩ = some "-25e9223372036854775807" ∧
    Denotes "-25e9223372036854775807" (toRat ⟨-25, -9223372036854775807⟩) ∧
    Native.validateAt .default 0 .number (.number ⟨-25, -9223372036854775807⟩) =
      .error ⟨[], .badNumber "-25e9223372036854775807"⟩ := by
  have hscale : Word.fitsSigned (scale ⟨-25, -9223372036854775807⟩) := by decide
  have htext : scientific? ⟨-25, -9223372036854775807⟩ = some "-25e9223372036854775807" := rfl
  obtain ⟨-, hnotation, -, -, hvalidate⟩ := scientific_defined_iff hscale
  obtain ⟨-, hdenotes, -, -⟩ := hnotation _ htext
  rw [htext] at hvalidate
  exact ⟨hscale, htext, hdenotes, hvalidate .default 0 .number (Nat.zero_le _) (.inl rfl)⟩

/-- The least scale has no opposite. The digit one with that scale has no scientific notation, no
form for readers, and no error about it. A zero with that scale is even read from a text; readers
are shown a plain zero, but it has no scientific notation either. -/
theorem scientific_of_least_scale :
    Word.fitsSigned (-9223372036854775808) ∧
    (scientific? ⟨1, -9223372036854775808⟩ = none ∧
      text? ⟨1, -9223372036854775808⟩ = none ∧
      Native.validate .default .number (.number ⟨1, -9223372036854775808⟩) =
        .error ⟨[], .stopped⟩) ∧
    ofText "0e9223372036854775808" defaultMaxExponent = .ok ⟨0, -9223372036854775808⟩ ∧
    text? ⟨0, -9223372036854775808⟩ = some "0" ∧
    scientific? ⟨0, -9223372036854775808⟩ = none := by
  have hnone : scientific? ⟨1, -9223372036854775808⟩ = none := rfl
  have hvalidate : Native.validate .default .number (.number ⟨1, -9223372036854775808⟩) =
      .error ⟨[], .stopped⟩ := by
    rw [Native.validate, validateAt_number (Nat.zero_le _) (.inl rfl), hnone]
    rfl
  exact ⟨by decide, ⟨hnone, rfl, hvalidate⟩, rfl, rfl, rfl⟩

end Decimal

end TypedData
