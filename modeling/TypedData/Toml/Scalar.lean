import TypedData.Toml.Basic
import TypedData.Word

/-!
# Scalars of TOML text

Integers, floating-point numbers, dates and times, and truth values stand as one word each; a
date may have a time after a space. Digits may be grouped by single underscores.

## Main definitions

* `Toml.ofWord?`, `Toml.takeWord?` — the value of a word, and of the word at the front of a text
* `Toml.isFullDate`, `Toml.isTimeOfDay` — dates, and times with an optional offset
-/

namespace TypedData.Toml

/-- Whether a character ends a word. -/
def endsWord (c : Char) : Bool :=
  c = ' ' || c = '\t' || c = '\n' || c = '\r' || c = ',' || c = ']' || c = '\x7d' || c = '#'

/-! ### Digits -/

/-- Digits of a kind, grouped by single underscores between them. -/
def ungroup? (isDigit : Char → Bool) : List Char → Option (List Char)
  | [] => none
  | [c] => if isDigit c then some [c] else none
  | c :: '_' :: rest => if isDigit c then (ungroup? isDigit rest).map (c :: ·) else none
  | c :: rest => if isDigit c then (ungroup? isDigit rest).map (c :: ·) else none

/-- Decimal digits without a superfluous leading zero. -/
def wholeDigits? (cs : List Char) : Option (List Char) :=
  (ungroup? Char.isDigit cs).filter fun ds => ds.head? != some '0' || ds.length == 1

/-- Splits a sign off; the truth value says whether it was a minus. -/
def takeSign : List Char → Bool × List Char
  | '-' :: rest => (true, rest)
  | '+' :: rest => (false, rest)
  | cs => (false, cs)

/-! ### Integers -/

/-- Whether a character is a digit to base 16. -/
def isHexDigit (c : Char) : Bool :=
  c.isDigit || ('a' ≤ c && c ≤ 'f') || ('A' ≤ c && c ≤ 'F')

/-- The value of a digit to base 16. -/
def hexValue (c : Char) : Nat :=
  if c.isDigit then c.toNat - '0'.toNat
  else if 'a' ≤ c then c.toNat - 'a'.toNat + 10
  else c.toNat - 'A'.toNat + 10

/-- The number that digits denote to a base. -/
def ofDigits (base : Nat) (ds : List Char) : Nat :=
  ds.foldl (fun n d => base * n + hexValue d) 0

/-- The integers of 64 bits. -/
def asInteger? (n : Int) : Option Toml :=
  if Word.fitsSigned n then some (.integer n) else none

/-- A word that is an integer. -/
def integer? : List Char → Option Toml
  | '0' :: 'x' :: ds => (ungroup? isHexDigit ds).bind fun ds => asInteger? (ofDigits 16 ds)
  | '0' :: 'o' :: ds =>
    (ungroup? (fun c => '0' ≤ c && c ≤ '7') ds).bind fun ds => asInteger? (ofDigits 8 ds)
  | '0' :: 'b' :: ds =>
    (ungroup? (fun c => c = '0' || c = '1') ds).bind fun ds => asInteger? (ofDigits 2 ds)
  | cs =>
    let (negative, ds) := takeSign cs
    (wholeDigits? ds).bind fun ds =>
      let n : Int := ofDigits 10 ds
      asInteger? (if negative then -n else n)

/-! ### Floating-point numbers -/

/-- The digits of an exponent after an optional sign, as an integer. -/
def exponent? (cs : List Char) : Option Int :=
  let (negative, ds) := takeSign cs
  (ungroup? Char.isDigit ds).map fun ds =>
    let n : Int := ofDigits 10 ds
    if negative then -n else n

/-- Whether a character starts an exponent. -/
def startsExponent (c : Char) : Bool := c = 'e' || c = 'E'

/-- The number of an unsigned word with a fraction, an exponent, or both. -/
def unsignedFloat? (cs : List Char) : Option Decimal :=
  let mantissa := cs.takeWhile (!startsExponent ·)
  let power := (cs.dropWhile (!startsExponent ·)).drop 1
  let hasPower := mantissa.length < cs.length
  let whole := mantissa.takeWhile (· != '.')
  let places := (mantissa.dropWhile (· != '.')).drop 1
  let hasPlaces := whole.length < mantissa.length
  if !hasPower && !hasPlaces then none
  else
    match wholeDigits? whole,
      (if hasPlaces then ungroup? Char.isDigit places else some []),
      (if hasPower then exponent? power else some 0) with
    | some whole, some places, some power =>
      some ⟨ofDigits 10 (whole ++ places), places.length - power⟩
    | _, _, _ => none

/-- A floating-point number with a sign. -/
def withSign (negative : Bool) (f : Binary64) : Binary64 :=
  .ofFields negative f.exponentField f.fraction

/-- A word that is a floating-point number. Numbers beyond the greatest one are refused, unless
they are negative. -/
def float? (cs : List Char) : Option Toml :=
  let (negative, ds) := takeSign cs
  if ds = ['i', 'n', 'f'] then some (.float (.infinity negative))
  else if ds = ['n', 'a', 'n'] then some (.float (withSign negative .notANumber))
  else
    match unsignedFloat? ds with
    | none => none
    | some d =>
      let f := Binary64.nearest d
      if f.isFinite || negative then some (.float (withSign negative f)) else none

/-! ### Dates and times -/

/-- Two digits as a number. -/
def twoDigits? (a b : Char) : Option Nat :=
  if a.isDigit && b.isDigit then some (ofDigits 10 [a, b]) else none

/-- How many days a month has. -/
def daysOfMonth (year month : Nat) : Nat :=
  if month = 2 then
    if year % 4 = 0 ∧ (year % 100 ≠ 0 ∨ year % 400 = 0) then 29 else 28
  else if month = 4 ∨ month = 6 ∨ month = 9 ∨ month = 11 then 30
  else 31

/-- Whether a word is a date. -/
def isFullDate : List Char → Bool
  | [y1, y2, y3, y4, '-', m1, m2, '-', d1, d2] =>
    match twoDigits? y1 y2, twoDigits? y3 y4, twoDigits? m1 m2, twoDigits? d1 d2 with
    | some century, some year, some month, some day =>
      1 ≤ month && month ≤ 12 && 1 ≤ day && day ≤ daysOfMonth (100 * century + year) month
    | _, _, _, _ => false
  | _ => false

/-- Whether a text is an offset from universal time, or nothing. -/
def isOffset : List Char → Bool
  | [] => true
  | ['Z'] | ['z'] => true
  | [s, h1, h2, ':', m1, m2] =>
    match twoDigits? h1 h2, twoDigits? m1 m2 with
    | some hour, some minute => (s = '+' || s = '-') && hour ≤ 23 && minute ≤ 59
    | _, _ => false
  | _ => false

/-- Whether a text is a fraction of a second or nothing, and then an offset if one may follow. -/
def isFractionAndOffset (mayHaveOffset : Bool) : List Char → Bool
  | '.' :: rest =>
    let ds := rest.takeWhile Char.isDigit
    let rest := rest.dropWhile Char.isDigit
    ds != [] && (rest.isEmpty || (mayHaveOffset && isOffset rest))
  | rest => rest.isEmpty || (mayHaveOffset && isOffset rest)

/-- Whether a word is a time of day. A leap second is allowed, and after a date an offset. -/
def isTimeOfDay (mayHaveOffset : Bool) : List Char → Bool
  | h1 :: h2 :: ':' :: m1 :: m2 :: ':' :: s1 :: s2 :: rest =>
    match twoDigits? h1 h2, twoDigits? m1 m2, twoDigits? s1 s2 with
    | some hour, some minute, some second =>
      hour ≤ 23 && minute ≤ 59 && second ≤ 60 && isFractionAndOffset mayHaveOffset rest
    | _, _, _ => false
  | _ => false

/-- Whether a word is a date, a time, or a date with a time. -/
def isMoment (cs : List Char) : Bool :=
  isTimeOfDay false cs || isFullDate cs ||
    (isFullDate (cs.take 10) &&
      match cs.drop 10 with
      | c :: time => (c = 'T' || c = 't') && isTimeOfDay true time
      | [] => false)

/-! ### Words -/

/-- The value of a word. -/
def ofWord? (cs : List Char) : Option Toml :=
  if cs = ['t', 'r', 'u', 'e'] then some (.boolean true)
  else if cs = ['f', 'a', 'l', 's', 'e'] then some (.boolean false)
  else if isMoment cs then some .moment
  else
    match float? cs with
    | some f => some f
    | none => integer? cs

/-- The value of the word at the front of a text, and what follows it. A date takes a time
after a single space with it. -/
def takeWord? (cs : List Char) : Option (Toml × List Char) :=
  let word := cs.takeWhile (!endsWord ·)
  let rest := cs.dropWhile (!endsWord ·)
  match isFullDate word, rest with
  | true, ' ' :: after =>
    let time := after.takeWhile (!endsWord ·)
    if time.isEmpty then some (.moment, rest)
    else if isTimeOfDay true time then some (.moment, after.dropWhile (!endsWord ·))
    else none
  | _, rest => (ofWord? word).map fun v => (v, rest)

end TypedData.Toml
