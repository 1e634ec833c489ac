import TypedData.Json.Printer
import TypedData.Json.Reader
import TypedData.Proofs.Decimal.Literal

/-!
# Tokens of what was printed

Printed text is cut into the tokens it was printed from. Numbers are their own text; they must
be followed by something that no number goes on with.

## Main definitions

* `Json.Spelled`, `Json.Readable` — values that are told apart by their text
* `Json.tokens` — the tokens a value is printed as
* `Json.Token.Lexes` — texts with the tokens they are cut into
* `Json.Token.IsNumber` — texts of numbers that are their own token

## Main results

* `Json.Token.takeString?_escaped` — escapes are undone
* `Json.Token.lexes_chars` — a printed value is cut into its tokens
-/

namespace TypedData.Json

namespace Token

/-! ### Strings -/

@[simp] theorem consChar_some (c : Char) (s rest : List Char) :
    consChar c (some (s, rest)) = some (c :: s, rest) := rfl

/-- Four digits that are no half of a pair stand for a character of their own. -/
theorem takeString?_unit {a b c d : Char} {n : Nat} (hunit : unit? a b c d = some n)
    (hhigh : isHighUnit n = false) (hlow : isLowUnit n = false) (tail : List Char) :
    takeString? ('\\' :: 'u' :: a :: b :: c :: d :: tail) =
      consChar (Char.ofNat n) (takeString? tail) := by
  rw [takeString?.eq_def]
  split <;> simp_all
  · rename_i hno heq
    obtain ⟨rfl, rfl⟩ := heq
    exact absurd rfl (hno a b c d tail rfl)
  · rename_i hno heq
    obtain ⟨rfl, rfl⟩ := heq
    exact absurd rfl (hno 'u' (a :: b :: c :: d :: tail) rfl)

theorem takeString?_short {c d : Char} (h : shortEscape? c = some d) (hc : c ≠ 'u')
    (tail : List Char) : takeString? ('\\' :: c :: tail) = consChar d (takeString? tail) := by
  rw [takeString?.eq_def]
  split <;> simp_all
  obtain ⟨rfl, rfl⟩ := ‹_ ∧ _›
  simp_all

theorem takeString?_plain {c : Char} (hquote : c ≠ '"') (hslash : c ≠ '\\')
    (hcontrol : ¬ c.toNat < 0x20) (tail : List Char) :
    takeString? (c :: tail) = consChar c (takeString? tail) := by
  rw [takeString?.eq_def]
  split <;> rename_i heq
  case h_1 => cases heq
  case h_2 => exact absurd (List.cons.inj heq).1 hquote
  case h_6 =>
    obtain ⟨rfl, rfl⟩ := List.cons.inj heq
    rw [if_neg (by simp [hcontrol, hslash])]
  -- Every escape starts with a backslash.
  all_goals exact absurd (List.cons.inj heq).1 hslash

theorem hexValue?_hexDigit {n : Nat} (h : n < 16) : hexValue? (hexDigit n) = some n := by
  revert n
  decide

/-- A control character is read from its four digits. -/
theorem unit?_control {n : Nat} (h : n < 0x20) :
    unit? '0' '0' (hexDigit (n / 16)) (hexDigit (n % 16)) = some n := by
  have hzero : hexValue? '0' = some 0 := rfl
  simp only [unit?, hzero, hexValue?_hexDigit (show n / 16 < 16 by omega),
    hexValue?_hexDigit (show n % 16 < 16 by omega), Option.bind_eq_bind, Option.bind_some]
  congr 1
  omega

/-- An escape is undone. -/
theorem takeString?_escapeChar (c : Char) (tail : List Char) :
    takeString? (escapeChar c ++ tail) = consChar c (takeString? tail) := by
  unfold escapeChar
  split
  iterate 7 exact takeString?_short rfl (by decide) tail
  rename_i hquote hslash _ _ _ _ _
  split
  · rename_i hcontrol
    have hhigh : isHighUnit c.toNat = false := by
      simp only [isHighUnit, Bool.and_eq_false_iff, decide_eq_false_iff_not]
      omega
    have hlow : isLowUnit c.toNat = false := by
      simp only [isLowUnit, Bool.and_eq_false_iff, decide_eq_false_iff_not]
      omega
    have := takeString?_unit (unit?_control hcontrol) hhigh hlow tail
    rwa [Char.ofNat_toNat] at this
  · rename_i hcontrol
    exact takeString?_plain hquote hslash hcontrol tail

/-- Escapes are undone up to the closing quote. -/
theorem takeString?_escaped (cs rest : List Char) :
    takeString? (cs.flatMap escapeChar ++ '"' :: rest) = some (cs, rest) := by
  induction cs with
  | nil => simp [takeString?]
  | cons c cs ih =>
    rw [List.flatMap_cons, List.append_assoc, takeString?_escapeChar, ih, consChar_some]

theorem next?_quoteChars (s : String) (rest : List Char) :
    next? (quoteChars s ++ rest) = some (string s, rest) := by
  rw [quoteChars, List.cons_append, List.append_assoc, List.singleton_append]
  simp only [next?, takeString?_escaped, Option.map_some, String.ofList_toList]

/-! ### Numbers -/

/-- What may follow a number: nothing, or what goes on after an item or a field. -/
def Closing (rest : List Char) : Prop :=
  ∀ c, rest.head? = some c → c = ',' ∨ c = ']' ∨ c = '\x7d'

/-- The text of a number that is its own token. -/
structure IsNumber (t : List Char) : Prop where
  head : ∃ c, t.head? = some c ∧ (c = '-' ∨ c.isDigit)
  token : ∀ rest, Closing rest → takeNumber? (t ++ rest) = some (t, rest)

theorem Closing.not_isDigit {rest : List Char} (h : Closing rest) (c : Char)
    (hc : rest.head? = some c) : c.isDigit = false := by
  rcases h c hc with rfl | rfl | rfl <;> rfl

theorem takeExponent?_of_closing {rest : List Char} (h : Closing rest) :
    takeExponent? rest = some ([], rest) := by
  cases rest with
  | nil => rfl
  | cons c rest =>
    have hmark : ¬ (c = 'e' ∨ c = 'E') := by
      rcases h c rfl with rfl | rfl | rfl <;> decide
    unfold takeExponent?
    exact if_neg hmark

/-- Digits after a point, and the point with them, are taken. -/
theorem takeFraction?_fractionText {fraction : Option (List Char)} {rest : List Char}
    (hfraction : ∀ ds, fraction = some ds → ds ≠ [] ∧ ∀ c ∈ ds, c.isDigit)
    (h : Closing rest) : takeFraction? (Decimal.Literal.fractionText fraction ++ rest) =
      some (Decimal.Literal.fractionText fraction, rest) := by
  cases fraction with
  | none =>
    rw [Decimal.Literal.fractionText, List.nil_append]
    unfold takeFraction?
    split
    · rcases h '.' rfl with h | h | h <;> exact absurd h (by decide)
    · rfl
  | some ds =>
    obtain ⟨hne, hds⟩ := hfraction ds rfl
    obtain ⟨htake, hdrop⟩ := Decimal.takeWhile_isDigit_append hds h.not_isDigit
    simp only [Decimal.Literal.fractionText, List.cons_append, takeFraction?, htake, hdrop,
      if_neg hne]

/-- A whole part without a superfluous zero, and perhaps a fraction, are a number. -/
theorem takeUnsigned?_append {whole : List Char} {fraction : Option (List Char)}
    {rest : List Char} (hne : whole ≠ []) (hwhole : ∀ c ∈ whole, c.isDigit)
    (hzero : whole.head? = some '0' → whole.length ≤ 1)
    (hfraction : ∀ ds, fraction = some ds → ds ≠ [] ∧ ∀ c ∈ ds, c.isDigit)
    (h : Closing rest) :
    takeUnsigned? (whole ++ Decimal.Literal.fractionText fraction ++ rest) =
      some (whole ++ Decimal.Literal.fractionText fraction, rest) := by
  have hpoint : ∀ c, (Decimal.Literal.fractionText fraction ++ rest).head? = some c →
      c.isDigit = false := by
    cases fraction with
    | none => exact fun c hc => h.not_isDigit c (by simpa [Decimal.Literal.fractionText] using hc)
    | some ds =>
      intro c hc
      obtain rfl : '.' = c := by simpa [Decimal.Literal.fractionText] using hc
      rfl
  obtain ⟨htake, hdrop⟩ := Decimal.takeWhile_isDigit_append hwhole hpoint
  have hplain : ¬ (whole = [] ∨ (whole.head? = some '0' ∧ 1 < whole.length)) := by
    rintro (hnil | ⟨hhead, hlength⟩)
    · exact hne hnil
    · exact absurd (hzero hhead) (by omega)
  simp only [List.append_assoc, takeUnsigned?, takeWhole?, htake, hdrop, if_neg hplain,
    Option.bind_eq_bind, Option.bind_some, takeFraction?_fractionText hfraction h,
    takeExponent?_of_closing h, List.append_nil]

/-- So are the same behind a minus, unless they are the whole number zero. -/
theorem isNumber_of_parts {negative : Bool} {whole : List Char}
    {fraction : Option (List Char)} (hne : whole ≠ []) (hwhole : ∀ c ∈ whole, c.isDigit)
    (hzero : whole.head? = some '0' → whole.length ≤ 1)
    (hfraction : ∀ ds, fraction = some ds → ds ≠ [] ∧ ∀ c ∈ ds, c.isDigit)
    (hminus : negative = true → whole = ['0'] → fraction ≠ none) :
    IsNumber ((if negative then ['-'] else []) ++
      (whole ++ Decimal.Literal.fractionText fraction)) := by
  obtain ⟨d, ds, rfl⟩ := List.exists_cons_of_ne_nil hne
  have hdigit := hwhole d (by simp)
  -- A minus is taken off first. What follows a digit is taken as it is.
  cases negative with
  | true =>
    refine ⟨⟨'-', rfl, .inl rfl⟩, fun rest hrest => ?_⟩
    have htake := takeUnsigned?_append hne hwhole hzero hfraction hrest
    simp only [if_true, List.nil_append, List.cons_append, takeNumber?] at htake ⊢
    rw [htake, Option.map_some, if_neg]
    intro hcontra
    rw [List.cons.injEq] at hcontra
    obtain ⟨rfl, hcontra⟩ := hcontra
    obtain ⟨rfl, hnone⟩ := List.append_eq_nil_iff.mp hcontra
    refine hminus rfl rfl ?_
    cases fraction with
    | none => rfl
    | some ds => cases hnone
  | false =>
    refine ⟨⟨d, rfl, .inr hdigit⟩, fun rest hrest => ?_⟩
    have htake := takeUnsigned?_append hne hwhole hzero hfraction hrest
    simp only [Bool.false_eq_true, if_false, List.nil_append, List.cons_append] at htake ⊢
    unfold takeNumber?
    split
    · rename_i hhead
      rw [List.cons.injEq] at hhead
      exact absurd hdigit (by rw [hhead.1]; decide)
    · exact htake

theorem next?_number {t rest : List Char} (h : IsNumber t) (hrest : Closing rest) :
    next? (t ++ rest) = some (number (String.ofList t), rest) := by
  obtain ⟨⟨c, hhead, hc⟩, htoken⟩ := h
  have hother : ∀ d cs, t ++ rest = d :: cs → d = '-' ∨ d.isDigit := by
    intro d cs heq
    cases t with
    | nil => cases hhead
    | cons c' t =>
      obtain rfl := Option.some.inj hhead
      rw [List.cons_append, List.cons.injEq] at heq
      exact heq.1 ▸ hc
  unfold next?
  split
  iterate 10 exact absurd (hother _ _ ‹_›) (by decide)
  rw [htoken rest hrest, Option.map_some]

/-! ### Texts -/

/-- Whether some characters are cut into some tokens. -/
def Lexes (cs : List Char) (ts : List Token) : Prop :=
  ∀ n, cs.length ≤ n → ofTextWithin n cs = ts

theorem lexes_nil : Lexes [] [] := by
  intro n _
  cases n <;> rfl

/-- The token at the front, and those of the characters after it. -/
theorem Lexes.cons {cs rest : List Char} {t : Token} {ts : List Token} {c : Char}
    (h : Lexes rest ts) (hhead : cs.head? = some c) (hspace : isSpace c = false)
    (hnext : next? cs = some (t, rest)) (hlength : rest.length < cs.length) :
    Lexes cs (t :: ts) := by
  intro n hn
  obtain ⟨cs, rfl⟩ : ∃ cs', cs = c :: cs' := by
    cases cs with
    | nil => cases hhead
    | cons d cs => exact ⟨cs, by rw [Option.some.inj hhead]⟩
  cases n with
  | zero => cases hn
  | succ n =>
    simp only [ofTextWithin, hspace, Bool.false_eq_true, if_false, hnext]
    rw [h n (by simp only [List.length_cons] at hn hlength; omega)]

theorem Lexes.punctuation {c : Char} {t : Token} {rest : List Char} {ts : List Token}
    (h : Lexes rest ts) (hspace : isSpace c = false)
    (hnext : next? (c :: rest) = some (t, rest)) : Lexes (c :: rest) (t :: ts) :=
  h.cons rfl hspace hnext (by simp)

theorem Lexes.word {c : Char} {cs rest : List Char} {t : Token} {ts : List Token}
    (h : Lexes rest ts) (hspace : isSpace c = false)
    (hnext : next? (c :: cs ++ rest) = some (t, rest)) :
    Lexes (c :: cs ++ rest) (t :: ts) := by
  refine h.cons rfl hspace hnext ?_
  simp only [List.cons_append, List.length_cons, List.length_append]
  omega

theorem Lexes.quoted {s : String} {rest : List Char} {ts : List Token} (h : Lexes rest ts) :
    Lexes (quoteChars s ++ rest) (string s :: ts) := by
  refine h.cons rfl rfl (next?_quoteChars s rest) ?_
  simp only [quoteChars, List.length_append, List.length_cons]
  omega

theorem isSpace_of_number {c : Char} (h : c = '-' ∨ c.isDigit) : isSpace c = false := by
  rcases h with rfl | h
  · rfl
  · simp only [isSpace, Bool.or_eq_false_iff, decide_eq_false_iff_not]
    refine ⟨⟨⟨?_, ?_⟩, ?_⟩, ?_⟩ <;> rintro rfl <;> exact absurd h (by decide)

theorem Lexes.number {t rest : List Char} {ts : List Token} (h : Lexes rest ts)
    (ht : IsNumber t) (hrest : Closing rest) :
    Lexes (t ++ rest) (number (String.ofList t) :: ts) := by
  obtain ⟨c, hhead, hc⟩ := ht.head
  cases t with
  | nil => cases hhead
  | cons d t =>
    obtain rfl := Option.some.inj hhead
    refine h.cons rfl (isSpace_of_number hc) (next?_number ht hrest) ?_
    simp only [List.cons_append, List.length_cons, List.length_append]
    omega

end Token

/-! ### Values -/

/-- A value whose numbers are their own tokens, and whose objects have distinct names. `P` holds
of the first field of each of them. -/
inductive Spelled (P : String × Json → Prop) : Json → Prop
  | null : Spelled P null
  | bool (b : Bool) : Spelled P (bool b)
  | number {t : String} (h : Token.IsNumber t.toList) : Spelled P (number t)
  | string (s : String) : Spelled P (string s)
  | array {items : List Json} (h : ∀ j ∈ items, Spelled P j) : Spelled P (array items)
  | object {fields : List (String × Json)} (names : (fields.map (·.1)).Nodup)
      (first : ∀ f, fields.head? = some f → P f) (h : ∀ f ∈ fields, Spelled P f.2) :
      Spelled P (object fields)

theorem Spelled.imp {P Q : String × Json → Prop} {j : Json} (h : j.Spelled P)
    (hPQ : ∀ f, P f → Q f) : j.Spelled Q := by
  induction h with
  | null => exact .null
  | bool b => exact .bool b
  | number h => exact .number h
  | string s => exact .string s
  | array _ ih => exact .array ih
  | object names first _ ih => exact .object names (fun f hf => hPQ f (first f hf)) ih

/-- A value that is read back from its text: no object starts with the name that is reserved for
numbers. -/
abbrev Readable : Json → Prop := Spelled fun f => f.1 ≠ numberName

mutual

/-- The tokens a value is printed as. -/
def tokens : Json → List Token
  | null => [.null]
  | bool b => [.bool b]
  | number t => [.number t]
  | string s => [.string s]
  | array [] => [.openArray, .closeArray]
  | array (j :: js) => .openArray :: (j.tokens ++ itemTokens js)
  | object [] => [.openObject, .closeObject]
  | object ((k, j) :: fs) =>
    .openObject :: .string k :: .colon :: (j.tokens ++ fieldTokens fs)

/-- The tokens of the items after the first one. -/
def itemTokens : List Json → List Token
  | [] => [.closeArray]
  | j :: js => .comma :: (j.tokens ++ itemTokens js)

/-- The tokens of the fields after the first one. -/
def fieldTokens : List (String × Json) → List Token
  | [] => [.closeObject]
  | (k, j) :: fs => .comma :: .string k :: .colon :: (j.tokens ++ fieldTokens fs)

end

namespace Token

variable {P : String × Json → Prop} {rest : List Char} {ts : List Token}

theorem closing_itemChars (js : List Json) (rest : List Char) : Closing (itemChars js ++ rest) := by
  intro c hc
  cases js <;> simp only [itemChars, List.cons_append, List.nil_append, List.head?_cons,
    Option.some.injEq] at hc <;> subst hc <;> simp

theorem closing_fieldChars (fs : List (String × Json)) (rest : List Char) :
    Closing (fieldChars fs ++ rest) := by
  intro c hc
  cases fs <;> simp only [fieldChars, List.cons_append, List.nil_append, List.head?_cons,
    Option.some.injEq] at hc <;> subst hc <;> simp

theorem lexes_itemChars {js : List Json} (h : Lexes rest ts)
    (hjs : ∀ j ∈ js, ∀ rest ts, Lexes rest ts → Closing rest →
      Lexes (j.chars ++ rest) (j.tokens ++ ts)) :
    Lexes (itemChars js ++ rest) (itemTokens js ++ ts) := by
  induction js with
  | nil => exact h.punctuation rfl rfl
  | cons j js ih =>
    rw [List.forall_mem_cons] at hjs
    simp only [itemChars, itemTokens, List.cons_append, List.append_assoc]
    exact (hjs.1 _ _ (ih hjs.2) (closing_itemChars js rest)).punctuation rfl rfl

/-- A name, its value and what follows. -/
theorem lexes_field {k : String} {j : Json}
    (h : Lexes (j.chars ++ rest) (j.tokens ++ ts)) :
    Lexes (quoteChars k ++ ':' :: (j.chars ++ rest)) (.string k :: .colon :: (j.tokens ++ ts)) :=
  (h.punctuation rfl rfl).quoted

theorem lexes_fieldChars {fs : List (String × Json)} (h : Lexes rest ts)
    (hfs : ∀ f ∈ fs, ∀ rest ts, Lexes rest ts → Closing rest →
      Lexes (f.2.chars ++ rest) (f.2.tokens ++ ts)) :
    Lexes (fieldChars fs ++ rest) (fieldTokens fs ++ ts) := by
  induction fs with
  | nil => exact h.punctuation rfl rfl
  | cons f fs ih =>
    obtain ⟨k, j⟩ := f
    rw [List.forall_mem_cons] at hfs
    simp only [fieldChars, fieldTokens, List.cons_append, List.append_assoc]
    exact (lexes_field (hfs.1 _ _ (ih hfs.2) (closing_fieldChars fs rest))).punctuation rfl rfl

/-- A printed value is cut into its tokens. -/
theorem lexes_chars {j : Json} (hj : j.Spelled P) (h : Lexes rest ts) (hrest : Closing rest) :
    Lexes (j.chars ++ rest) (j.tokens ++ ts) := by
  induction hj generalizing rest ts with
  | null => exact h.word rfl rfl
  | bool b => cases b <;> exact h.word rfl rfl
  | number ht =>
    have := h.number ht hrest
    rwa [String.ofList_toList] at this
  | string s => exact h.quoted
  | @array items _ ih =>
    cases items with
    | nil => exact (h.punctuation (c := ']') rfl rfl).punctuation rfl rfl
    | cons j js =>
      rw [List.forall_mem_cons] at ih
      simp only [chars, tokens, List.cons_append, List.append_assoc]
      refine (ih.1 ?_ (closing_itemChars js rest)).punctuation rfl rfl
      exact lexes_itemChars h fun j hj _ _ => ih.2 j hj
  | @object fields _ _ _ ih =>
    cases fields with
    | nil => exact (h.punctuation (c := '\x7d') rfl rfl).punctuation rfl rfl
    | cons f fs =>
      obtain ⟨k, j⟩ := f
      rw [List.forall_mem_cons] at ih
      simp only [chars, tokens, List.cons_append, List.append_assoc]
      refine (lexes_field (ih.1 ?_ (closing_fieldChars fs rest))).punctuation rfl rfl
      exact lexes_fieldChars h fun f hf _ _ => ih.2 f hf

theorem ofText_chars {j : Json} (hj : j.Spelled P) : ofText j.chars = j.tokens := by
  have := lexes_chars hj lexes_nil nofun
  rw [List.append_nil, List.append_nil] at this
  exact this _ (Nat.le_refl _)

end Token

end TypedData.Json
