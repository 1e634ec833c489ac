import Mathlib.Data.List.TakeWhile
import TypedData.Proofs.Json.Lexing

/-!
# The first value of a text

A token is taken from the front of a text without a look at what follows it; only a number looks at
the one character behind it. The first value of a text is therefore what is read from some beginning
of the text on its own, and goes on being read when something else follows, unless it is a number.

## Main definitions

* `Json.Token.StartsLike` — texts that a number in front of them cannot tell apart
* `Json.Token.LooksOneAhead` — readers of a part of a number, which look at one character behind it
* `Json.Reader.Takes` — the tokens that a reader takes for a value

## Main results

* `Json.Token.exists_next?_append` — a token is taken alike in front of other texts
* `Json.Token.ofText_induction` — a text token by token
* `Json.Token.exists_ofText_of_append` — a beginning of the tokens is cut from one of the text
* `Json.Token.ofText_append` — the tokens of a text go on with those of what is put behind it
* `Json.Reader.exists_takes_of_run` — a value is read from the tokens up to its end
* `Json.exists_read_of_readFirst` — the first value of a text is read from a beginning of it
* `Json.read_append` — what becomes of the text of a value when something is put behind it
-/

namespace TypedData.Json

namespace Token

/-! ### Tokens in front of other texts -/

/-- Whether a text is empty or starts with the same character as another one. -/
def StartsLike (rest' rest : List Char) : Prop := ∀ c, rest'.head? = some c → rest.head? = some c

variable {cs t rest rest' : List Char}

theorem StartsLike.refl (rest : List Char) : StartsLike rest rest := fun _ hd => hd

theorem StartsLike.append (h : StartsLike rest' rest) (t : List Char) :
    StartsLike (t ++ rest') (t ++ rest) := by
  cases t with
  | nil => exact h
  | cons c t => exact fun _ hd => hd

theorem startsLike_beginning (p rest : List Char) : StartsLike p (p ++ rest) := by
  cases p with
  | nil => exact fun c hc => by cases hc
  | cons c p => exact fun _ hd => hd

theorem startsLike_extension (h : rest ≠ []) (tail : List Char) :
    StartsLike (rest ++ tail) rest := by
  cases rest with
  | nil => exact absurd rfl h
  | cons c rest => exact fun _ hd => hd

/-- Whether a reader looks at no more than the one character behind what it takes from the front of
a text. -/
def LooksOneAhead (take : List Char → Option (List Char × List Char)) : Prop :=
  ∀ {cs t rest}, take cs = some (t, rest) → ∃ p, cs = p ++ rest ∧
    ∀ rest', StartsLike rest' rest → take (p ++ rest') = some (t, rest')

/-- Digits end where they ended. -/
theorem digits_append (h : StartsLike rest' (cs.dropWhile Char.isDigit)) :
    (cs.takeWhile Char.isDigit ++ rest').takeWhile Char.isDigit = cs.takeWhile Char.isDigit ∧
      (cs.takeWhile Char.isDigit ++ rest').dropWhile Char.isDigit = rest' := by
  refine Decimal.takeWhile_isDigit_append (fun c hc => List.mem_takeWhile_imp hc) fun c hc => ?_
  have hhead := List.head?_dropWhile_not Char.isDigit cs
  rw [h c hc] at hhead
  simpa using hhead

theorem takeWhole?_looksOneAhead : LooksOneAhead takeWhole? := by
  intro cs t rest h
  rw [takeWhole?] at h
  split at h
  · cases h
  rename_i hplain
  obtain ⟨rfl, rfl⟩ := Prod.mk.inj (Option.some.inj h)
  refine ⟨_, List.takeWhile_append_dropWhile.symm, fun rest' hrest => ?_⟩
  obtain ⟨htake, hdrop⟩ := digits_append hrest
  rw [takeWhole?]
  simp only [htake, hdrop, if_neg hplain]

theorem takeFraction?_looksOneAhead : LooksOneAhead takeFraction? := by
  intro cs t rest h
  unfold takeFraction? at h
  split at h
  · simp only at h
    split at h
    · cases h
    rename_i tail hsome
    obtain ⟨rfl, rfl⟩ := Prod.mk.inj (Option.some.inj h)
    refine ⟨'.' :: tail.takeWhile Char.isDigit, ?_, fun rest' hrest => ?_⟩
    · rw [List.cons_append, List.takeWhile_append_dropWhile]
    · obtain ⟨htake, hdrop⟩ := digits_append hrest
      simp only [List.cons_append, takeFraction?, htake, hdrop, if_neg hsome]
  · rename_i hpoint
    obtain ⟨rfl, rfl⟩ := Prod.mk.inj (Option.some.inj h)
    refine ⟨[], rfl, fun rest' hrest => ?_⟩
    rw [List.nil_append]
    unfold takeFraction?
    split
    · obtain ⟨cs', rfl⟩ := List.head?_eq_some_iff.mp (hrest '.' rfl)
      exact absurd rfl (hpoint cs')
    · rfl

theorem takeExponentDigits?_looksOneAhead (mark : Char) :
    LooksOneAhead (takeExponentDigits? mark) := by
  intro cs t rest h
  rw [takeExponentDigits?] at h
  split at h
  · cases h
  rename_i hsome
  obtain ⟨rfl, rfl⟩ := Prod.mk.inj (Option.some.inj h)
  refine ⟨_, List.takeWhile_append_dropWhile.symm, fun rest' hrest => ?_⟩
  obtain ⟨htake, hdrop⟩ := digits_append hrest
  rw [takeExponentDigits?]
  simp only [htake, hdrop, if_neg hsome]

/-- A run of digits that is not empty starts with one. -/
theorem exists_head_of_takeWhile {cs : List Char} (h : cs.takeWhile Char.isDigit ≠ []) :
    ∃ c, cs.head? = some c ∧ c.isDigit := by
  cases cs with
  | nil => exact absurd rfl h
  | cons c cs =>
    refine ⟨c, rfl, ?_⟩
    by_contra hc
    exact h (List.takeWhile_cons_of_neg hc)

theorem takeExponent?_of_digits {c : Char} {r : List Char × List Char} (hc : c = 'e' ∨ c = 'E')
    (h : takeExponentDigits? '+' cs = some r) : takeExponent? (c :: cs) = some r := by
  obtain ⟨d, hd, hdigit⟩ : ∃ d, cs.head? = some d ∧ d.isDigit := by
    rw [takeExponentDigits?] at h
    split at h
    · cases h
    · exact exists_head_of_takeWhile ‹_›
  unfold takeExponent?
  simp only [if_pos hc]
  split
  · exact absurd hdigit (by rw [← Option.some.inj hd]; decide)
  · exact absurd hdigit (by rw [← Option.some.inj hd]; decide)
  · exact h

theorem takeExponent?_of_not_mark {c : Char} (hc : ¬ (c = 'e' ∨ c = 'E')) (cs : List Char) :
    takeExponent? (c :: cs) = some ([], c :: cs) := by
  unfold takeExponent?
  exact if_neg hc

theorem takeExponent?_looksOneAhead : LooksOneAhead takeExponent? := by
  intro cs t rest h
  unfold takeExponent? at h
  split at h
  · rename_i c tail
    split at h
    · rename_i hc
      split at h
      · obtain ⟨p, rfl, hp⟩ := takeExponentDigits?_looksOneAhead '-' h
        refine ⟨c :: '-' :: p, rfl, fun rest' hrest => ?_⟩
        rw [List.cons_append, List.cons_append, takeExponent?, if_pos hc]
        exact hp rest' hrest
      · obtain ⟨p, rfl, hp⟩ := takeExponentDigits?_looksOneAhead '+' h
        refine ⟨c :: '+' :: p, rfl, fun rest' hrest => ?_⟩
        rw [List.cons_append, List.cons_append, takeExponent?, if_pos hc]
        exact hp rest' hrest
      · obtain ⟨p, rfl, hp⟩ := takeExponentDigits?_looksOneAhead '+' h
        exact ⟨c :: p, rfl, fun rest' hrest => takeExponent?_of_digits hc (hp rest' hrest)⟩
    · rename_i hc
      obtain ⟨rfl, rfl⟩ := Prod.mk.inj (Option.some.inj h)
      refine ⟨[], rfl, fun rest' hrest => ?_⟩
      -- What follows does not start with a mark either.
      cases rest' with
      | nil => rfl
      | cons d rest' =>
        obtain rfl := Option.some.inj (hrest d rfl)
        exact takeExponent?_of_not_mark hc rest'
  · obtain ⟨rfl, rfl⟩ := Prod.mk.inj (Option.some.inj h)
    refine ⟨[], rfl, fun rest' hrest => ?_⟩
    cases rest' with
    | nil => rfl
    | cons d rest' => cases hrest d rfl

theorem takeUnsigned?_looksOneAhead : LooksOneAhead takeUnsigned? := by
  intro cs t rest h
  simp only [takeUnsigned?, Option.bind_eq_bind, Option.bind_eq_some_iff, Option.some.injEq,
    Prod.mk.injEq, Prod.exists] at h
  obtain ⟨whole, cs₁, hwhole, ftext, cs₂, hfraction, etext, cs₃, hexponent, rfl, rfl⟩ := h
  obtain ⟨p₁, rfl, h₁⟩ := takeWhole?_looksOneAhead hwhole
  obtain ⟨p₂, rfl, h₂⟩ := takeFraction?_looksOneAhead hfraction
  obtain ⟨p₃, rfl, h₃⟩ := takeExponent?_looksOneAhead hexponent
  refine ⟨p₁ ++ (p₂ ++ p₃), by simp only [List.append_assoc], fun rest' hrest => ?_⟩
  simp only [List.append_assoc, takeUnsigned?, Option.bind_eq_bind,
    h₁ _ ((hrest.append p₃).append p₂), h₂ _ (hrest.append p₃), h₃ _ hrest, Option.bind_some]

theorem exists_head_of_takeUnsigned? {r : List Char × List Char} (h : takeUnsigned? cs = some r) :
    ∃ c, cs.head? = some c ∧ c.isDigit := by
  rw [takeUnsigned?, Option.bind_eq_bind, Option.bind_eq_some_iff] at h
  obtain ⟨_, hwhole, -⟩ := h
  rw [takeWhole?] at hwhole
  split at hwhole
  · cases hwhole
  · rename_i hplain
    exact exists_head_of_takeWhile fun hnil => hplain (.inl hnil)

theorem takeNumber?_of_unsigned {r : List Char × List Char} (h : takeUnsigned? cs = some r) :
    takeNumber? cs = some r := by
  obtain ⟨c, hc, hdigit⟩ := exists_head_of_takeUnsigned? h
  unfold takeNumber?
  split
  · exact absurd hdigit (by rw [← Option.some.inj hc]; decide)
  · exact h

/-- A number starts with a minus or a digit. -/
theorem exists_head_of_takeNumber? {r : List Char × List Char} (h : takeNumber? cs = some r) :
    ∃ c, cs.head? = some c ∧ (c = '-' ∨ c.isDigit) := by
  unfold takeNumber? at h
  split at h
  · exact ⟨'-', rfl, .inl rfl⟩
  · obtain ⟨c, hc, hdigit⟩ := exists_head_of_takeUnsigned? h
    exact ⟨c, hc, .inr hdigit⟩

theorem takeNumber?_looksOneAhead : LooksOneAhead takeNumber? := by
  intro cs t rest h
  unfold takeNumber? at h
  split at h
  · simp only [Option.map_eq_some_iff, Prod.mk.injEq, Prod.exists] at h
    obtain ⟨t, rest, hunsigned, rfl, rfl⟩ := h
    obtain ⟨p, rfl, hp⟩ := takeUnsigned?_looksOneAhead hunsigned
    refine ⟨'-' :: p, rfl, fun rest' hrest => ?_⟩
    rw [List.cons_append, takeNumber?, hp rest' hrest, Option.map_some]
  · obtain ⟨p, rfl, hp⟩ := takeUnsigned?_looksOneAhead h
    exact ⟨p, rfl, fun rest' hrest => takeNumber?_of_unsigned (hp rest' hrest)⟩

/-! ### Strings -/

/-- An escape or a character at the front, and the rest of the string. -/
theorem exists_end_of_step (front : List Char) {tail s : List Char} {c : Char}
    (hstep : ∀ tail', takeString? (front ++ tail') = consChar c (takeString? tail'))
    (h : consChar c (takeString? tail) = some (s, rest))
    (ih : ∀ {s}, takeString? tail = some (s, rest) → ∃ p, tail = p ++ rest ∧
      ∀ rest', takeString? (p ++ rest') = some (s, rest')) :
    ∃ p, front ++ tail = p ++ rest ∧ ∀ rest', takeString? (p ++ rest') = some (s, rest') := by
  simp only [consChar, Option.map_eq_some_iff, Prod.mk.injEq, Prod.exists] at h
  obtain ⟨s, rest, htail, rfl, rfl⟩ := h
  obtain ⟨p, rfl, hp⟩ := ih htail
  refine ⟨front ++ p, (List.append_assoc ..).symm, fun rest' => ?_⟩
  rw [List.append_assoc, hstep, hp, consChar_some]

/-- A string ends with its quote, whatever follows. -/
theorem takeString?_append {s : List Char} (h : takeString? cs = some (s, rest)) :
    ∃ p, cs = p ++ rest ∧ ∀ rest', takeString? (p ++ rest') = some (s, rest') := by
  fun_induction takeString? cs generalizing s with
  | case1 | case3 | case5 | case6 | case7 | case9 | case10 | case13 | case14 => cases h
  | case2 tail =>
    obtain ⟨rfl, rfl⟩ := Prod.mk.inj (Option.some.inj h)
    exact ⟨['"'], rfl, fun _ => by rw [List.singleton_append, takeString?]⟩
  | case4 a b c d e f g i tail high hfirst hhigh low hsecond hlow ih =>
    -- The two halves of a pair.
    refine exists_end_of_step ['\\', 'u', a, b, c, d, '\\', 'u', e, f, g, i]
      (fun tail' => ?_) h ih
    simp only [List.cons_append, List.nil_append, takeString?, hfirst, hhigh, hsecond, hlow,
      if_true]
  | case8 a b c d e f g i tail n hunit hhigh hlow ih =>
    exact exists_end_of_step ['\\', 'u', a, b, c, d] (fun tail' =>
      takeString?_unit hunit (eq_false_of_ne_true hhigh) (eq_false_of_ne_true hlow) tail') h ih
  | case11 a b c d tail _ n hunit hplain ih =>
    rw [Bool.or_eq_true, not_or] at hplain
    exact exists_end_of_step ['\\', 'u', a, b, c, d] (fun tail' => takeString?_unit hunit
      (eq_false_of_ne_true hplain.1) (eq_false_of_ne_true hplain.2) tail') h ih
  | case12 c tail _ _ d hshort ih =>
    have hunit : c ≠ 'u' := by
      rintro rfl
      cases hshort
    exact exists_end_of_step ['\\', c] (fun tail' =>
      takeString?_short hshort hunit tail') h ih
  | case15 c tail hquote _ _ _ hplain ih =>
    simp only [Bool.or_eq_true, decide_eq_true_eq, not_or] at hplain
    exact exists_end_of_step [c] (fun tail' =>
      takeString?_plain hquote hplain.2 hplain.1 tail') h ih

/-! ### Tokens -/

theorem next?_of_number {r : List Char × List Char} (h : takeNumber? cs = some r) :
    next? cs = some (number (String.ofList r.1), r.2) := by
  obtain ⟨c, hc, hstart⟩ := exists_head_of_takeNumber? h
  have hother {d : Char} {ds : List Char} (heq : cs = d :: ds) : d = '-' ∨ d.isDigit := by
    rw [heq] at hc
    exact Option.some.inj hc ▸ hstart
  unfold next?
  split
  iterate 10 exact absurd (hother rfl) (by decide)
  rw [h, Option.map_some]

/-- A token is taken alike in front of other texts, but a number only if they start alike. -/
theorem exists_next?_append {tok : Token} (h : next? cs = some (tok, rest)) : ∃ p c,
    cs = p ++ rest ∧ p.head? = some c ∧
      ∀ rest', (∀ t, tok = number t → StartsLike rest' rest) →
        next? (p ++ rest') = some (tok, rest') := by
  unfold next? at h
  split at h
  -- Punctuation, words and strings show where they end.
  iterate 6
    obtain ⟨rfl, rfl⟩ := Prod.mk.inj (Option.some.inj h)
    exact ⟨[_], _, rfl, rfl, fun _ _ => rfl⟩
  · obtain ⟨rfl, rfl⟩ := Prod.mk.inj (Option.some.inj h)
    exact ⟨['n', 'u', 'l', 'l'], _, rfl, rfl, fun _ _ => rfl⟩
  · obtain ⟨rfl, rfl⟩ := Prod.mk.inj (Option.some.inj h)
    exact ⟨['t', 'r', 'u', 'e'], _, rfl, rfl, fun _ _ => rfl⟩
  · obtain ⟨rfl, rfl⟩ := Prod.mk.inj (Option.some.inj h)
    exact ⟨['f', 'a', 'l', 's', 'e'], _, rfl, rfl, fun _ _ => rfl⟩
  · simp only [Option.map_eq_some_iff, Prod.mk.injEq, Prod.exists] at h
    obtain ⟨s, rest, hstring, rfl, rfl⟩ := h
    obtain ⟨p, rfl, hp⟩ := takeString?_append hstring
    refine ⟨'"' :: p, _, rfl, rfl, fun rest' _ => ?_⟩
    rw [List.cons_append, next?, hp rest', Option.map_some]
  · simp only [Option.map_eq_some_iff, Prod.mk.injEq, Prod.exists] at h
    -- A number goes on as long as the text does.
    obtain ⟨t, rest, hnumber, rfl, rfl⟩ := h
    obtain ⟨p, rfl, hp⟩ := takeNumber?_looksOneAhead hnumber
    refine ⟨p, ?_⟩
    have hrest' : ∀ rest', StartsLike rest' rest →
        next? (p ++ rest') = some (number (String.ofList t), rest') :=
      fun rest' hrest => next?_of_number (hp rest' hrest)
    cases p with
    | nil =>
      obtain ⟨c, hc, -⟩ := exists_head_of_takeNumber? (hp [] (startsLike_beginning [] rest))
      cases hc
    | cons c p => exact ⟨c, rfl, rfl, fun rest' hrest => hrest' rest' (hrest _ rfl)⟩

/-! ### Texts -/

/-- A text is empty, or starts with a blank, with a token or with what is none. -/
theorem ofText_induction {motive : List Char → Prop} (nil : motive [])
    (space : ∀ c cs, isSpace c → motive cs → motive (c :: cs))
    (token : ∀ c p rest tok, isSpace c = false →
      (∀ rest', (∀ t, tok = number t → StartsLike rest' rest) →
        next? (c :: p ++ rest') = some (tok, rest')) →
      motive rest → motive (c :: p ++ rest))
    (none : ∀ c cs, isSpace c = false → next? (c :: cs) = none → motive (c :: cs))
    (cs : List Char) : motive cs := by
  -- The induction is on the length, since a token may be any number of characters.
  induction hlen : cs.length using Nat.strong_induction_on generalizing cs with
  | _ m ih =>
    subst hlen
    cases cs with
    | nil => exact nil
    | cons c cs =>
      cases hspace : isSpace c with
      | true => exact space c cs hspace (ih _ (by simp) cs rfl)
      | false =>
        cases hnext : next? (c :: cs) with
        | none => exact none c cs hspace hnext
        | some r =>
          obtain ⟨tok, rest⟩ := r
          obtain ⟨p, d, hcs, hhead, hp⟩ := exists_next?_append hnext
          obtain ⟨p, rfl⟩ := List.head?_eq_some_iff.mp hhead
          obtain ⟨rfl, rfl⟩ := List.cons.inj hcs
          have hshorter : rest.length < (c :: p ++ rest).length := by
            rw [List.length_append, List.length_cons]
            omega
          exact token c p rest tok hspace hp (ih _ hshorter rest rfl)

theorem ofText_space {c : Char} (h : isSpace c) (cs : List Char) :
    ofText (c :: cs) = ofText cs :=
  if_pos h

theorem ofText_invalid {c : Char} (hspace : isSpace c = false) (h : next? (c :: cs) = none) :
    ofText (c :: cs) = [invalid] := by
  simp only [ofText, List.length_cons, ofTextWithin, hspace, Bool.false_eq_true, if_false, h]

/-- The tokens of a text are found within any bound on its length. -/
theorem lexes_ofText (cs : List Char) : Lexes cs (ofText cs) := by
  induction cs using ofText_induction with
  | nil => exact lexes_nil
  | space c cs hspace ih =>
    intro n hn
    obtain ⟨n, rfl⟩ := Nat.exists_eq_add_one.mpr (Nat.lt_of_lt_of_le (by simp) hn)
    rw [ofText_space hspace]
    exact (if_pos hspace).trans (ih n (by simpa using hn))
  | token c p rest tok hspace hp ih =>
    have h := ih.word hspace (hp rest fun _ _ => .refl rest)
    rwa [ofText, h _ le_rfl]
  | none c cs hspace hnone =>
    intro n hn
    obtain ⟨n, rfl⟩ := Nat.exists_eq_add_one.mpr (Nat.lt_of_lt_of_le (by simp) hn)
    rw [ofText_invalid hspace hnone]
    simp only [ofTextWithin, hspace, Bool.false_eq_true, if_false, hnone]

theorem ofText_token {c : Char} {p : List Char} {tok : Token} (hspace : isSpace c = false)
    (h : next? (c :: p ++ rest) = some (tok, rest)) :
    ofText (c :: p ++ rest) = tok :: ofText rest :=
  (lexes_ofText rest).word hspace h _ le_rfl

/-- A text without tokens is blank. -/
theorem ofText_eq_nil_iff (cs : List Char) : ofText cs = [] ↔ cs.all isSpace := by
  induction cs using ofText_induction with
  | nil => exact iff_of_true rfl rfl
  | space c cs hspace ih => rw [ofText_space hspace, ih, List.all_cons, hspace, Bool.true_and]
  | token c p rest tok hspace hp _ =>
    rw [ofText_token hspace (hp rest fun _ _ => .refl rest), List.cons_append, List.all_cons,
      hspace]
    exact iff_of_false (List.cons_ne_nil _ _) Bool.false_ne_true
  | none c cs hspace hnone =>
    rw [ofText_invalid hspace hnone, List.all_cons, hspace]
    exact iff_of_false (List.cons_ne_nil _ _) Bool.false_ne_true

/-- The first tokens of a text are those of a beginning of it. -/
theorem exists_ofText_of_append {ts ts' : List Token} (h : ofText cs = ts ++ ts')
    (hvalid : invalid ∉ ts) : ∃ p rest, cs = p ++ rest ∧ ofText p = ts ∧ ofText rest = ts' := by
  induction cs using ofText_induction generalizing ts with
  | nil =>
    obtain ⟨rfl, rfl⟩ := List.append_eq_nil_iff.mp h.symm
    exact ⟨[], [], rfl, rfl, rfl⟩
  | space c cs hspace ih =>
    obtain ⟨p, rest, rfl, hts, hts'⟩ := ih ((ofText_space hspace cs).symm.trans h) hvalid
    exact ⟨c :: p, rest, rfl, (ofText_space hspace p).trans hts, hts'⟩
  | token c p tail tok hspace hp ih =>
    cases ts with
    | nil => exact ⟨[], c :: p ++ tail, rfl, rfl, h⟩
    | cons t ts =>
      rw [ofText_token hspace (hp tail fun _ _ => .refl tail)] at h
      obtain ⟨rfl, htail⟩ := List.cons.inj h
      obtain ⟨q, rest, rfl, hts, hts'⟩ :=
        ih htail fun hmem => hvalid (List.mem_cons_of_mem _ hmem)
      refine ⟨c :: p ++ q, rest, (List.append_assoc ..).symm, ?_, hts'⟩
      rw [ofText_token hspace (hp q fun _ _ => startsLike_beginning q rest), hts]
  | none c cs hspace hnone =>
    rw [ofText_invalid hspace hnone, eq_comm, List.append_eq_singleton_iff] at h
    obtain ⟨rfl, rfl⟩ | ⟨rfl, rfl⟩ := h
    · exact ⟨[], c :: cs, rfl, rfl, ofText_invalid hspace hnone⟩
    · exact absurd (List.mem_singleton_self _) hvalid

/-- The tokens of a text go on with those of what is put behind it, unless some of the text is no
token or a number stands last, which may go on itself. -/
theorem ofText_append {p : List Char} (hvalid : invalid ∉ ofText p)
    (hlast : ∀ t, (ofText p).getLast? ≠ some (number t)) (rest : List Char) :
    ofText (p ++ rest) = ofText p ++ ofText rest := by
  induction p using ofText_induction with
  | nil => rfl
  | space c p hspace ih =>
    rw [ofText_space hspace] at hvalid hlast
    rw [List.cons_append, ofText_space hspace, ofText_space hspace, ih hvalid hlast]
  | token c p tail tok hspace hp ih =>
    rw [ofText_token hspace (hp tail fun _ _ => .refl tail)] at hvalid hlast ⊢
    rw [List.mem_cons, not_or] at hvalid
    -- A number is followed by more tokens, so that what it looks at stays the same.
    have hnext := hp (tail ++ rest) fun t htok => by
      refine startsLike_extension (fun hnil => ?_) rest
      subst hnil htok
      exact hlast t rfl
    have hlast' (t : String) : (ofText tail).getLast? ≠ some (number t) := fun ht =>
      hlast t (by rw [List.getLast?_cons, ht, Option.getD_some])
    rw [List.append_assoc, ofText_token hspace hnext, ih hvalid.2 hlast', List.cons_append]
  | none c p hspace hnone =>
    rw [ofText_invalid hspace hnone] at hvalid
    exact absurd (List.mem_singleton_self _) hvalid

end Token

namespace Reader

variable {n : Nat} {r r' : Reader} {j : Json} {ts' : List Token}

/-- What is no token is never taken. -/
theorem step_invalid (n : Nat) (r : Reader) : step n r .invalid = .error .malformed := by
  cases r <;> rfl

/-- A number that finishes a value is the value. -/
theorem eq_number_of_step {t : String} (h : step n r (.number t) = .ok (finished j)) :
    j = .number t := by
  cases r with
  | value stack =>
    cases stack with
    | nil => cases h; rfl
    | cons f stack => cases f <;> cases h
  | _ => cases h

theorem run_cons {ts : List Token} {t : Token} (r' : Reader) (hstep : step n r t = .ok r') :
    run n r (t :: ts) = run n r' ts := by
  cases r with
  | finished j => cases hstep
  | _ => simp only [run, hstep]

theorem run_finished (n : Nat) (j : Json) (ts : List Token) :
    run n (finished j) ts = .ok (j, ts) := by
  cases ts <;> rfl

theorem eq_finished_of_run_nil (h : run n r [] = .ok (j, ts')) : r = finished j := by
  cases r with
  | finished => cases h; rfl
  | _ => cases h

/-- A reader that is not finished takes the next token. -/
theorem exists_step_of_run {ts : List Token} {t : Token} (h : run n r (t :: ts) = .ok (j, ts'))
    (hr : r ≠ finished j) : ∃ r', step n r t = .ok r' ∧ run n r' ts = .ok (j, ts') := by
  cases hstep : step n r t with
  | error e =>
    cases r with
    | finished j' => cases h; exact absurd rfl hr
    | _ => simp only [run, hstep, reduceCtorEq] at h
  | ok r' => exact ⟨r', rfl, (run_cons r' hstep).symm.trans h⟩

/-- Whether a reader takes just some tokens for a value, whatever follows them. Only the value that
is a number ends with one. -/
structure Takes (n : Nat) (r : Reader) (front : List Token) (j : Json) : Prop where
  valid : Token.invalid ∉ front
  run : ∀ ts, run n r (front ++ ts) = .ok (j, ts)
  last : ∀ t, front.getLast? = some (.number t) → j = .number t

theorem takes_nil (n : Nat) (j : Json) : Takes n (finished j) [] j where
  valid := List.not_mem_nil
  run := run_finished n j
  last t h := by cases h

theorem Takes.cons {front : List Token} {t : Token} (hstep : step n r t = .ok r')
    (h : Takes n r' front j) : Takes n r (t :: front) j where
  valid := by
    rw [List.mem_cons, not_or]
    refine ⟨?_, h.valid⟩
    rintro rfl
    rw [step_invalid] at hstep
    cases hstep
  run ts := (run_cons r' hstep).trans (h.run ts)
  last s hs := by
    -- The last token of several is among those after the first one.
    cases front with
    | nil =>
      obtain rfl := Option.some.inj hs
      rw [eq_finished_of_run_nil (h.run [])] at hstep
      exact eq_number_of_step hstep
    | cons t' front => exact h.last s hs

/-- The tokens up to the end of a value are taken for it. -/
theorem exists_takes_of_run {ts : List Token} (h : run n r ts = .ok (j, ts')) :
    ∃ front, ts = front ++ ts' ∧ Takes n r front j := by
  induction ts generalizing r with
  | nil =>
    obtain rfl := eq_finished_of_run_nil h
    cases h
    exact ⟨[], rfl, takes_nil n j⟩
  | cons t ts ih =>
    -- A reader that is finished leaves all tokens alone.
    by_cases hr : r = finished j
    · subst hr
      cases h
      exact ⟨[], rfl, takes_nil n j⟩
    · obtain ⟨r', hstep, hrest⟩ := exists_step_of_run h hr
      obtain ⟨front, rfl, hfront⟩ := ih hrest
      exact ⟨t :: front, rfl, hfront.cons hstep⟩

end Reader

variable {j : Json}

theorem read_eq_ok_iff {cs : List Char} :
    read cs = .ok j ↔ Reader.run 0 (.value []) (Token.ofText cs) = .ok (j, []) := by
  rw [read]
  split <;> simp_all

/-- The first value of a text is read from a beginning of it. -/
theorem exists_read_of_readFirst {cs : List Char} (h : readFirst cs = .ok j) :
    ∃ p rest, cs = p ++ rest ∧ read p = .ok j := by
  obtain ⟨⟨_, ts'⟩, hrun, rfl⟩ :
      ∃ r, Reader.run 0 (.value []) (Token.ofText cs) = .ok r ∧ r.1 = j := by
    cases hrun : Reader.run 0 (.value []) (Token.ofText cs) with
    | error e => rw [readFirst, readFirstRecords, hrun] at h; cases h
    | ok r => rw [readFirst, readFirstRecords, hrun] at h; exact ⟨r, rfl, Except.ok.inj h⟩
  obtain ⟨front, hts, hfront⟩ := Reader.exists_takes_of_run hrun
  obtain ⟨p, rest, hcs, hp, -⟩ := Token.exists_ofText_of_append hts hfront.valid
  refine ⟨p, rest, hcs, read_eq_ok_iff.mpr ?_⟩
  rw [hp, ← hfront.run [], List.append_nil]

/-- Behind the text of a value that is no number, everything is left alone by the one reader, and
only blanks are allowed by the other. -/
theorem read_append {p : List Char} (h : read p = .ok j) (hj : ∀ t, j ≠ .number t)
    (rest : List Char) : readFirst (p ++ rest) = .ok j ∧
      read (p ++ rest) = if rest.all Token.isSpace then .ok j else .error .malformed := by
  obtain ⟨front, hts, hfront⟩ := Reader.exists_takes_of_run (read_eq_ok_iff.mp h)
  rw [List.append_nil] at hts
  subst hts
  have hrun : Reader.run 0 (.value []) (Token.ofText (p ++ rest)) = .ok (j, Token.ofText rest) := by
    rw [Token.ofText_append hfront.valid (fun t ht => hj t (hfront.last t ht)), hfront.run]
  refine ⟨by rw [readFirst, readFirstRecords, hrun]; rfl, ?_⟩
  split
  · rename_i hblank
    rw [read_eq_ok_iff, hrun, (Token.ofText_eq_nil_iff rest).mpr hblank]
  · rename_i hblank
    rw [← Token.ofText_eq_nil_iff] at hblank
    rw [read, hrun]
    cases htail : Token.ofText rest with
    | nil => exact absurd htail hblank
    | cons t ts => rfl

end TypedData.Json
