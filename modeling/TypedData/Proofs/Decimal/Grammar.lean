import Mathlib.Computability.RegularExpressions
import Mathlib.Data.List.TakeWhile
import Mathlib.Tactic.FieldSimp
import TypedData.Proofs.Decimal.Literal
import TypedData.Proofs.Decimal.Rational

/-!
# The grammar of decimal literals

Literals are a regular language, and each of them is read into the only parts that spell it. The
parts decide what becomes of a text: whether it is a number depends on the digits and on the power
of ten beside them. That power is kept in a signed word, so that a literal whose power is too great
for a word counts as malformed, whatever its digits are.

## Main definitions

* `Decimal.Pattern.literal` — literals as a regular expression
* `Decimal.Literal.Spells` — the parts of a text
* `Decimal.Literal.power`, `Decimal.Literal.denoted` — the power of ten beside the digits of a
  literal, and the rational number that its parts denote

## Main results

* `Decimal.Literal.read?_eq_some_iff` — a text is read as the parts that spell it
* `Decimal.Pattern.mem_literal` — and has such parts exactly if the regular expression matches it
* `Decimal.ofText_classified` — what becomes of a text, by its parts
-/

namespace TypedData.Decimal

/-! ### Digits -/

theorem toNat_of_isDigit {c : Char} (h : c.isDigit) : 48 ≤ c.toNat ∧ c.toNat < 58 := by
  simp only [Char.isDigit, Bool.and_eq_true, decide_eq_true_eq, UInt32.le_iff_toNat_le] at h
  have hzero : ('0'.val.toNat : Nat) = 48 := rfl
  have hnine : ('9'.val.toNat : Nat) = 57 := rfl
  have hc : c.toNat = c.val.toNat := rfl
  omega

/-- A number has no more digits than are written. -/
theorem natOfDigits_lt {ds : List Char} (h : ∀ c ∈ ds, c.isDigit) :
    natOfDigits ds < 10 ^ ds.length := by
  induction ds using List.reverseRecOn with
  | nil => decide
  | append_singleton ds c ih =>
    have hds := ih fun d hd => h d (List.mem_append_left _ hd)
    have hc := toNat_of_isDigit (h c (by simp))
    have hzero : '0'.toNat = 48 := rfl
    rw [natOfDigits] at hds ⊢
    rw [List.foldl_append, List.length_append, List.length_singleton, pow_succ]
    simp only [List.foldl_cons, List.foldl_nil]
    omega

theorem digitCount_natOfDigits_le {ds : List Char} (hne : ds ≠ []) (h : ∀ c ∈ ds, c.isDigit) :
    digitCount (natOfDigits ds) ≤ ds.length :=
  (Nat.length_toDigits_le_iff (by decide) (List.length_pos_iff.mpr hne)).mpr (natOfDigits_lt h)

theorem natOfDigits_append (ds es : List Char) :
    natOfDigits (ds ++ es) = natOfDigits ds * 10 ^ es.length + natOfDigits es := by
  rw [natOfDigits_eq, Nat.ofDigitChars_append, Nat.ofDigitChars_eq_ofDigitChars_zero,
    natOfDigits_eq, natOfDigits_eq, Nat.mul_comm]

theorem Sign.natAbs_apply (s : Option Sign) (n : Nat) : (Sign.apply s n).natAbs = n := by
  rw [Sign.apply]
  split <;> simp

theorem Sign.cast_apply (s : Option Sign) (n : Nat) :
    (Sign.apply s n : ℚ) = (if s = some .minus then -1 else 1) * n := by
  rw [Sign.apply]
  split <;> simp

/-! ### Reading finds the parts -/

theorem Sign.textOf_take (cs : List Char) :
    Sign.textOf (Sign.take cs).1 ++ (Sign.take cs).2 = cs := by
  unfold Sign.take
  split <;> rfl

namespace Literal

variable {l : Literal} {cs : List Char}

theorem takeFraction_spec (cs : List Char) :
    fractionText (takeFraction cs).1 ++ (takeFraction cs).2 = cs ∧
      ∀ ds, (takeFraction cs).1 = some ds → ∀ c ∈ ds, c.isDigit := by
  unfold takeFraction
  split
  · refine ⟨congrArg _ List.takeWhile_append_dropWhile, ?_⟩
    rintro _ ⟨⟩ c hc
    exact List.mem_takeWhile_imp hc
  · exact ⟨rfl, nofun⟩

/-- What is read as an exponent is one, unless it is nothing. -/
theorem readExponent?_eq_some {e : Option ExponentPart} (h : readExponent? cs = some e) :
    exponentText e = cs ∧ ∀ p, e = some p → p.Readable := by
  unfold readExponent? at h
  split at h
  · obtain rfl := Option.some.inj h
    exact ⟨rfl, nofun⟩
  rename_i c rest
  split at h
  · rename_i hmark
    simp only at h
    split at h
    · rename_i hdigits
      obtain rfl := Option.some.inj h
      refine ⟨?_, ?_⟩
      · rw [exponentText, ExponentPart.text, Sign.textOf_take]
        rcases hmark with rfl | rfl <;> rfl
      · rintro _ ⟨⟩
        exact ⟨hdigits.1, List.all_eq_true.mp hdigits.2⟩
    · cases h
  · cases h

/-- What is read spells the text. -/
theorem text_of_read? (h : read? cs = some l) : l.Readable ∧ l.text = cs := by
  simp only [read?] at h
  split at h
  · cases h
  rename_i hdigits
  obtain ⟨e, he, rfl⟩ := Option.map_eq_some_iff.mp h
  obtain ⟨hexponent, hreadable⟩ := readExponent?_eq_some he
  obtain ⟨hfraction, hplaces⟩ := takeFraction_spec ((Sign.take cs).2.dropWhile Char.isDigit)
  refine ⟨⟨fun c hc => List.mem_takeWhile_imp hc, hplaces, ?_, hreadable⟩, ?_⟩
  · exact not_and_or.mp hdigits
  · rw [text_eq]
    simp only [hexponent, List.append_assoc, hfraction]
    rw [List.takeWhile_append_dropWhile, Sign.textOf_take]

/-- A text is read as the parts that spell it. -/
theorem read?_eq_some_iff : read? cs = some l ↔ l.Readable ∧ l.text = cs := by
  refine ⟨text_of_read?, ?_⟩
  rintro ⟨hl, rfl⟩
  exact read?_text hl

end Literal

/-! ### Patterns -/

namespace Pattern

open RegularExpression

variable {w : List Char} {p : RegularExpression Char}

/-- Any one of some characters. -/
def oneOf (cs : List Char) : RegularExpression Char := (cs.map char).sum

/-- A pattern or nothing. -/
def optional (p : RegularExpression Char) : RegularExpression Char := 1 + p

/-- An explicit sign. -/
def sign : RegularExpression Char := oneOf ['+', '-']

/-- A decimal digit. -/
def digit : RegularExpression Char :=
  oneOf ['0', '1', '2', '3', '4', '5', '6', '7', '8', '9']

/-- At least one digit. -/
def digits : RegularExpression Char := digit * star digit

/-- Digits with an optional fraction, or a fraction alone. -/
def unsigned : RegularExpression Char :=
  digits * optional (char '.' * star digit) + char '.' * digits

/-- A mark and an exponent with an optional sign. -/
def exponent : RegularExpression Char := oneOf ['e', 'E'] * optional sign * digits

/-- A decimal literal. -/
def literal : RegularExpression Char := optional sign * unsigned * optional exponent

theorem mem_oneOf {cs : List Char} : w ∈ (oneOf cs).matches' ↔ ∃ c ∈ cs, w = [c] := by
  induction cs with
  | nil => exact ⟨nofun, nofun⟩
  | cons c cs ih =>
    have hhead : w ∈ (char c).matches' ↔ w = [c] := Iff.rfl
    rw [oneOf, List.map_cons, List.sum_cons, matches'_add, Language.mem_add, ← oneOf, ih, hhead,
      List.exists_mem_cons_iff]

theorem mem_optional : w ∈ (optional p).matches' ↔ w = [] ∨ w ∈ p.matches' := by
  rw [optional, matches'_add, Language.mem_add, matches'_epsilon, Language.mem_one]

theorem mem_sign : w ∈ (optional sign).matches' ↔ ∃ s, w = Sign.textOf s := by
  rw [mem_optional, sign, mem_oneOf]
  constructor
  · rintro (rfl | ⟨c, hc, rfl⟩)
    · exact ⟨none, rfl⟩
    · rcases List.mem_pair.mp hc with rfl | rfl
      · exact ⟨some .plus, rfl⟩
      · exact ⟨some .minus, rfl⟩
  · rintro ⟨s, rfl⟩
    rcases s with _ | _ | _ <;> simp [Sign.textOf]

theorem mem_digit : w ∈ digit.matches' ↔ ∃ c : Char, c.isDigit ∧ w = [c] := by
  have hdigits : ['0', '1', '2', '3', '4', '5', '6', '7', '8', '9'].all Char.isDigit := by decide
  have hcodes : ∀ n < 10,
      Char.ofNat (n + 48) ∈ ['0', '1', '2', '3', '4', '5', '6', '7', '8', '9'] := by decide
  rw [digit, mem_oneOf]
  refine exists_congr fun c => and_congr_left fun _ =>
    ⟨List.all_eq_true.mp hdigits c, fun hc => ?_⟩
  obtain ⟨hlower, hupper⟩ := toNat_of_isDigit hc
  have hcode := hcodes (c.toNat - 48) (by omega)
  rwa [Nat.sub_add_cancel hlower, Char.ofNat_toNat] at hcode

theorem mem_star_digit : w ∈ (star digit).matches' ↔ ∀ c ∈ w, c.isDigit := by
  rw [matches'_star, Language.mem_kstar]
  constructor
  · rintro ⟨parts, rfl, hparts⟩ c hc
    obtain ⟨part, hpart, hc⟩ := List.mem_flatten.mp hc
    obtain ⟨d, hd, rfl⟩ := mem_digit.mp (hparts part hpart)
    rwa [List.mem_singleton.mp hc]
  · intro h
    refine ⟨w.map fun c => [c], by rw [← List.flatMap_def, List.flatMap_singleton'],
      fun part hpart => ?_⟩
    obtain ⟨c, hc, rfl⟩ := List.mem_map.mp hpart
    exact mem_digit.mpr ⟨c, h c hc, rfl⟩

theorem mem_digits : w ∈ digits.matches' ↔ w ≠ [] ∧ ∀ c ∈ w, c.isDigit := by
  rw [digits, matches'_mul, Language.mem_mul]
  constructor
  · rintro ⟨d, hd, ds, hds, rfl⟩
    obtain ⟨c, hc, rfl⟩ := mem_digit.mp hd
    exact ⟨by simp, List.forall_mem_cons.mpr ⟨hc, mem_star_digit.mp hds⟩⟩
  · rintro ⟨hne, hw⟩
    obtain ⟨c, ds, rfl⟩ := List.exists_cons_of_ne_nil hne
    rw [List.forall_mem_cons] at hw
    exact ⟨[c], mem_digit.mpr ⟨c, hw.1, rfl⟩, ds, mem_star_digit.mpr hw.2, rfl⟩

theorem mem_point : w ∈ (char '.' * p).matches' ↔ ∃ ds ∈ p.matches', w = '.' :: ds := by
  rw [matches'_mul, Language.mem_mul]
  constructor
  · rintro ⟨_, rfl, ds, hds, rfl⟩
    exact ⟨ds, hds, rfl⟩
  · rintro ⟨ds, hds, rfl⟩
    exact ⟨['.'], rfl, ds, hds, rfl⟩

/-- Digits before or behind the point, and the point itself if there is one. -/
theorem mem_unsigned : w ∈ unsigned.matches' ↔ ∃ whole fraction,
    w = whole ++ Literal.fractionText fraction ∧ (∀ c ∈ whole, c.isDigit) ∧
      (∀ ds, fraction = some ds → ∀ c ∈ ds, c.isDigit) ∧
      (whole ≠ [] ∨ fraction.getD [] ≠ []) := by
  rw [unsigned, matches'_add, Language.mem_add, matches'_mul, Language.mem_mul, mem_point]
  constructor
  · rintro (⟨whole, hwhole, tail, htail, rfl⟩ | ⟨ds, hds, rfl⟩)
    · obtain ⟨hne, hwhole⟩ := mem_digits.mp hwhole
      rcases mem_optional.mp htail with rfl | htail
      · exact ⟨whole, none, rfl, hwhole, nofun, .inl hne⟩
      · obtain ⟨ds, hds, rfl⟩ := mem_point.mp htail
        refine ⟨whole, some ds, rfl, hwhole, ?_, .inl hne⟩
        rintro _ ⟨⟩
        exact mem_star_digit.mp hds
    · obtain ⟨hne, hds⟩ := mem_digits.mp hds
      refine ⟨[], some ds, rfl, nofun, ?_, .inr hne⟩
      rintro _ ⟨⟩
      exact hds
  · rintro ⟨whole, fraction, rfl, hwhole, hfraction, hdigits⟩
    by_cases hne : whole = []
    · -- Without digits before the point there are some behind it.
      subst hne
      cases fraction with
      | none => simp at hdigits
      | some ds =>
        exact .inr ⟨ds, mem_digits.mpr ⟨by simpa using hdigits, hfraction ds rfl⟩, rfl⟩
    · refine .inl ⟨whole, mem_digits.mpr ⟨hne, hwhole⟩, _, mem_optional.mpr ?_, rfl⟩
      cases fraction with
      | none => exact .inl rfl
      | some ds => exact .inr (mem_point.mpr ⟨ds, mem_star_digit.mpr (hfraction ds rfl), rfl⟩)

theorem mem_exponent : w ∈ (optional exponent).matches' ↔ ∃ e,
    w = Literal.exponentText e ∧ ∀ p, e = some p → p.Readable := by
  rw [mem_optional, exponent]
  simp only [matches'_mul, Language.mem_mul]
  constructor
  · rintro (rfl | ⟨_, ⟨_, hmark, _, hsign, rfl⟩, ds, hds, rfl⟩)
    · exact ⟨none, rfl, nofun⟩
    · obtain ⟨c, hc, rfl⟩ := mem_oneOf.mp hmark
      obtain ⟨s, rfl⟩ := mem_sign.mp hsign
      refine ⟨some ⟨c = 'E', s, ds⟩, ?_, ?_⟩
      · rcases List.mem_pair.mp hc with rfl | rfl <;> rfl
      · rintro _ ⟨⟩
        exact mem_digits.mp hds
  · rintro ⟨e, rfl, he⟩
    cases e with
    | none => exact .inl rfl
    | some e =>
      have hmark : [if e.upper then 'E' else 'e'] ∈ (oneOf ['e', 'E']).matches' :=
        mem_oneOf.mpr ⟨_, by split <;> simp, rfl⟩
      exact .inr ⟨_, ⟨_, hmark, _, mem_sign.mpr ⟨e.sign, rfl⟩, rfl⟩, e.digits,
        mem_digits.mpr (he e rfl), rfl⟩

/-- The literals are the texts that parts spell. -/
theorem mem_literal : w ∈ literal.matches' ↔ ∃ l : Literal, l.Readable ∧ l.text = w := by
  simp only [literal, matches'_mul, Language.mem_mul]
  constructor
  · rintro ⟨_, ⟨_, hsign, _, hunsigned, rfl⟩, _, hexponent, rfl⟩
    obtain ⟨s, rfl⟩ := mem_sign.mp hsign
    obtain ⟨whole, fraction, rfl, hwhole, hfraction, hdigits⟩ := mem_unsigned.mp hunsigned
    obtain ⟨e, rfl, he⟩ := mem_exponent.mp hexponent
    exact ⟨⟨s, whole, fraction, e⟩, ⟨hwhole, hfraction, hdigits, he⟩, by
      rw [Literal.text_eq, List.append_assoc (Sign.textOf s)]⟩
  · rintro ⟨l, hl, rfl⟩
    refine ⟨_, ⟨_, mem_sign.mpr ⟨l.sign, rfl⟩, _, mem_unsigned.mpr ⟨l.whole, l.fraction, rfl,
      hl.whole, hl.fraction, hl.digits⟩, rfl⟩, _, mem_exponent.mpr ⟨l.exponent, rfl, hl.exponent⟩,
      ?_⟩
    rw [Literal.text_eq, List.append_assoc (Sign.textOf l.sign) l.whole]

end Pattern

/-! ### What the parts denote -/

namespace Literal

variable {l : Literal}

/-- The parts of a text. -/
structure Spells (l : Literal) (s : String) : Prop where
  readable : l.Readable
  text : l.text = s.toList

/-- The exponent, which is zero if none is written. -/
def exponentValue (l : Literal) : Int := (l.exponent.map ExponentPart.value).getD 0

/-- The power of ten beside all digits together: the exponent less the digits behind the point. -/
def power (l : Literal) : Int := l.exponentValue - (l.fraction.getD []).length

/-- The number that the parts denote: the digits before the point and those behind it, as a
fraction, by the power of ten of the exponent, and with the sign. -/
def denoted (l : Literal) : ℚ :=
  (if l.sign = some .minus then -1 else 1) *
    (natOfDigits l.whole + natOfDigits (l.fraction.getD []) / 10 ^ (l.fraction.getD []).length) *
    10 ^ l.exponentValue

theorem scale_value (l : Literal) : l.value.scale = -l.power := by
  obtain ⟨sign, whole, fraction, e⟩ := l
  cases e <;> simp [value, power, exponentValue]

theorem digits_value (l : Literal) : l.value.digits =
    Sign.apply l.sign (natOfDigits (l.whole ++ l.fraction.getD [])) := rfl

/-- The number that a literal is read as is the one that its parts denote. -/
theorem toRat_value (l : Literal) : l.value.toRat = l.denoted := by
  have hten : (10 : ℚ) ≠ 0 := by norm_num
  have hpow : (10 : ℚ) ^ l.power =
      10 ^ l.exponentValue / 10 ^ (l.fraction.getD []).length := by
    rw [power, zpow_sub₀ hten, zpow_natCast]
  rw [toRat, digits_value, scale_value, neg_neg, hpow, Sign.cast_apply, natOfDigits_append, denoted]
  push_cast
  field_simp

/-- A literal denotes no number of more digits than it has characters. -/
theorem Readable.digitCount_le (h : l.Readable) :
    digitCount l.value.digits.natAbs ≤ l.text.length := by
  have hdigits : ∀ c ∈ l.whole ++ l.fraction.getD [], c.isDigit := by
    refine List.forall_mem_append.mpr ⟨h.whole, fun c hc => ?_⟩
    cases hfraction : l.fraction with
    | none => simp [hfraction] at hc
    | some ds => exact h.fraction ds hfraction c (by simpa [hfraction] using hc)
  have hne : l.whole ++ l.fraction.getD [] ≠ [] := fun hnil =>
    h.digits.elim (absurd (List.append_eq_nil_iff.mp hnil).1)
      (absurd (List.append_eq_nil_iff.mp hnil).2)
  have hlength : (l.whole ++ l.fraction.getD []).length ≤ l.text.length := by
    rw [text_eq]
    cases l.fraction <;> simp [fractionText] <;> omega
  rw [digits_value, Sign.natAbs_apply]
  exact (digitCount_natOfDigits_le hne hdigits).trans hlength

end Literal

/-! ### What becomes of a text -/

variable {s : String} {limit : Nat} {l : Literal} {n : Decimal}

theorem Literal.spells_iff : l.Spells s ↔ read? s.toList = some l := by
  rw [Literal.read?_eq_some_iff]
  exact ⟨fun h => ⟨h.readable, h.text⟩, fun h => ⟨h.1, h.2⟩⟩

/-- A text is spelled by the parts it is read as, and by no others. -/
theorem Pattern.mem_literal_iff_existsUnique :
    s.toList ∈ Pattern.literal.matches' ↔ ∃! l : Literal, l.Spells s := by
  rw [Pattern.mem_literal]
  constructor
  · rintro ⟨l, hl, htext⟩
    refine ⟨l, ⟨hl, htext⟩, fun l' hl' => ?_⟩
    have hread := Literal.read?_eq_some_iff.mpr ⟨hl, htext⟩
    exact Option.some.inj ((Literal.spells_iff.mp hl').symm.trans hread)
  · rintro ⟨l, hl, -⟩
    exact ⟨l, hl.readable, hl.text⟩

theorem ofText_of_not_mem (h : s.toList ∉ Pattern.literal.matches') :
    ofText s limit = .error (.malformed s) := by
  have hnone : Literal.read? s.toList = none := by
    rw [Option.eq_none_iff_forall_ne_some]
    intro l hl
    exact h (Pattern.mem_literal.mpr ⟨l, Literal.read?_eq_some_iff.mp hl⟩)
  simp only [ofText, parse?, hnone, Option.map_none, Option.filter_none]

/-- What becomes of a literal, by its parts. -/
theorem Literal.Spells.ofText_eq (h : l.Spells s) : ofText s limit =
    if Word.fitsSigned (-l.power) then
      if l.denoted = 0 ∨ l.power.natAbs ≤ limit then .ok l.value else .error (.outOfRange s limit)
    else .error (.malformed s) := by
  have hwithin : l.value.withinExponent limit ↔ l.denoted = 0 ∨ l.power.natAbs ≤ limit := by
    rw [withinExponent, Bool.or_eq_true, decide_eq_true_eq, decide_eq_true_eq,
      ← toRat_eq_zero_iff, l.toRat_value, l.scale_value, Int.natAbs_neg]
  rw [ofText, parse?, Literal.spells_iff.mp h, Option.map_some, Option.filter_some, l.scale_value,
    scaleFits]
  by_cases hfits : Word.fitsSigned (-l.power)
  · simp only [hfits, if_true, hwithin]
  · simp only [hfits, Bool.false_eq_true, if_false]

namespace Literal.Spells

theorem ofText_eq_malformed_iff (h : l.Spells s) :
    ofText s limit = .error (.malformed s) ↔ ¬ Word.fitsSigned (-l.power) := by
  rw [h.ofText_eq]
  split_ifs <;> simp_all

theorem ofText_eq_outOfRange_iff (h : l.Spells s) :
    ofText s limit = .error (.outOfRange s limit) ↔
      Word.fitsSigned (-l.power) ∧ l.denoted ≠ 0 ∧ limit < l.power.natAbs := by
  rw [h.ofText_eq, ← not_le, ← not_or]
  split_ifs with hfits hwithin
  · exact ⟨nofun, fun h => absurd hwithin h.2⟩
  · exact ⟨fun _ => ⟨hfits, hwithin⟩, fun _ => rfl⟩
  · exact ⟨nofun, fun h => absurd h.1 hfits⟩

theorem ofText_eq_ok_iff (h : l.Spells s) :
    ofText s limit = .ok n ↔ Word.fitsSigned (-l.power) ∧
      (l.denoted = 0 ∨ l.power.natAbs ≤ limit) ∧ n = l.value ∧ n.toRat = l.denoted := by
  rw [h.ofText_eq]
  split_ifs with hfits hwithin
  · rw [Except.ok.injEq]
    exact ⟨fun hn => ⟨hfits, hwithin, hn.symm, hn ▸ l.toRat_value⟩, fun hn => hn.2.2.1.symm⟩
  · exact ⟨nofun, fun h => absurd h.2.1 hwithin⟩
  · exact ⟨nofun, fun h => absurd h.1 hfits⟩

end Literal.Spells

/-- A text is malformed exactly if the grammar does not match it, or if the power of ten beside its
digits does not fit a signed word. Any other literal is out of range exactly if it is not zero and
that power is beyond the limit either way, and is otherwise read as the number that its parts
denote. -/
theorem ofText_classified (s : String) (limit : Nat) :
    (s.toList ∈ Pattern.literal.matches' ↔ ∃! l : Literal, l.Spells s) ∧
    (ofText s limit = .error (.malformed s) ↔
      s.toList ∉ Pattern.literal.matches' ∨
        ∃ l : Literal, l.Spells s ∧ ¬ Word.fitsSigned (-l.power)) ∧
    (ofText s limit = .error (.outOfRange s limit) ↔
      ∃ l : Literal, l.Spells s ∧ Word.fitsSigned (-l.power) ∧
        l.denoted ≠ 0 ∧ limit < l.power.natAbs) ∧
    ∀ n, ofText s limit = .ok n ↔
      ∃ l : Literal, l.Spells s ∧ Word.fitsSigned (-l.power) ∧
        (l.denoted = 0 ∨ l.power.natAbs ≤ limit) ∧ n = l.value ∧ n.toRat = l.denoted := by
  refine ⟨Pattern.mem_literal_iff_existsUnique, ?_⟩
  by_cases hmem : s.toList ∈ Pattern.literal.matches'
  · obtain ⟨l, hl, hunique⟩ := Pattern.mem_literal_iff_existsUnique.mp hmem
    have hspells {P : Literal → Prop} : (∃ l : Literal, l.Spells s ∧ P l) ↔ P l :=
      ⟨fun ⟨l', hl', hP⟩ => hunique l' hl' ▸ hP, fun hP => ⟨l, hl, hP⟩⟩
    simp only [hspells, hmem, not_true_eq_false, false_or, hl.ofText_eq_malformed_iff,
      hl.ofText_eq_outOfRange_iff, hl.ofText_eq_ok_iff, implies_true, and_self]
  · have hnone {P : Literal → Prop} : ¬ ∃ l : Literal, l.Spells s ∧ P l := fun ⟨l, hl, _⟩ =>
      hmem (Pattern.mem_literal.mpr ⟨l, hl.readable, hl.text⟩)
    simp [ofText_of_not_mem hmem, hmem, hnone]

/-- Literals of the grammar count as malformed if their powers of ten do not fit a word: one that
is out of range, and one that is zero. -/
theorem ofText_overlong :
    ("1e9223372036854775809".toList ∈ Pattern.literal.matches' ∧
      ofText "1e9223372036854775809" defaultMaxExponent =
        .error (.malformed "1e9223372036854775809")) ∧
    "0e-9223372036854775808".toList ∈ Pattern.literal.matches' ∧
      ofText "0e-9223372036854775808" defaultMaxExponent =
        .error (.malformed "0e-9223372036854775808") := by
  have hone : Literal.Spells ⟨none, ['1'], none, some ⟨false, none, "9223372036854775809".toList⟩⟩
      "1e9223372036854775809" := Literal.spells_iff.mpr (by rfl)
  have hzero : Literal.Spells
      ⟨none, ['0'], none, some ⟨false, some .minus, "9223372036854775808".toList⟩⟩
      "0e-9223372036854775808" := Literal.spells_iff.mpr (by rfl)
  refine ⟨⟨Pattern.mem_literal.mpr ⟨_, hone.readable, hone.text⟩, ?_⟩,
    Pattern.mem_literal.mpr ⟨_, hzero.readable, hzero.text⟩, ?_⟩
  · rw [hone.ofText_eq_malformed_iff]
    decide
  · rw [hzero.ofText_eq_malformed_iff]
    decide

end TypedData.Decimal
