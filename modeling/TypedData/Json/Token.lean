import TypedData.Json.Basic

/-!
# Tokens of JSON text

A text is cut into punctuation, names, numbers and strings; blanks separate them. At the first
character that starts no token the rest of the text becomes one `invalid` token, so that
whatever stands before it can still be judged first.

## Main definitions

* `Json.Token` — tokens
* `Json.Token.next?` — the token at the front of a text
* `Json.Token.ofText` — all tokens of a text
-/

namespace TypedData.Json

/-- A token of JSON text. -/
inductive Token where
  | openArray
  | closeArray
  | openObject
  | closeObject
  | comma
  | colon
  | null
  | bool (value : Bool)
  | number (text : String)
  | string (value : String)
  /-- Text that is no token. -/
  | invalid
deriving Repr, DecidableEq, Inhabited

namespace Token

/-- The blanks between tokens. -/
def isSpace (c : Char) : Bool := c = ' ' || c = '\n' || c = '\t' || c = '\r'

/-! ### Numbers -/

/-- Digits without a superfluous leading zero. -/
def takeWhole? (cs : List Char) : Option (List Char × List Char) :=
  let ds := cs.takeWhile Char.isDigit
  if ds = [] ∨ (ds.head? = some '0' ∧ 1 < ds.length) then none
  else some (ds, cs.dropWhile Char.isDigit)

/-- A point and at least one digit, or nothing. -/
def takeFraction? : List Char → Option (List Char × List Char)
  | '.' :: rest =>
    let ds := rest.takeWhile Char.isDigit
    if ds = [] then none else some ('.' :: ds, rest.dropWhile Char.isDigit)
  | cs => some ([], cs)

/-- The digits of an exponent after its sign. -/
def takeExponentDigits? (sign : Char) (cs : List Char) : Option (List Char × List Char) :=
  let ds := cs.takeWhile Char.isDigit
  if ds = [] then none else some ('e' :: sign :: ds, cs.dropWhile Char.isDigit)

/-- An exponent, or nothing. It is kept with a small `e` and an explicit sign. -/
def takeExponent? : List Char → Option (List Char × List Char)
  | c :: rest =>
    if c = 'e' ∨ c = 'E' then
      match rest with
      | '-' :: rest => takeExponentDigits? '-' rest
      | '+' :: rest => takeExponentDigits? '+' rest
      | rest => takeExponentDigits? '+' rest
    else some ([], c :: rest)
  | [] => some ([], [])

/-- A number without its sign. -/
def takeUnsigned? (cs : List Char) : Option (List Char × List Char) := do
  let (whole, cs) ← takeWhole? cs
  let (fraction, cs) ← takeFraction? cs
  let (exponent, cs) ← takeExponent? cs
  some (whole ++ fraction ++ exponent, cs)

/-- A number at the front of a text, by its text. The whole number zero has no sign. -/
def takeNumber? : List Char → Option (List Char × List Char)
  | '-' :: rest =>
    (takeUnsigned? rest).map fun (t, rest) => (if t = ['0'] then t else '-' :: t, rest)
  | cs => takeUnsigned? cs

/-- A number that is the whole of a text, without blanks around it. -/
def wholeNumber? (cs : List Char) : Option String :=
  match takeNumber? cs with
  | some (t, []) => some (String.ofList t)
  | _ => none

/-! ### Strings -/

/-- The value of a hexadecimal digit. -/
def hexValue? (c : Char) : Option Nat :=
  let n := c.toNat
  if '0'.toNat ≤ n ∧ n ≤ '9'.toNat then some (n - '0'.toNat)
  else if 'a'.toNat ≤ n ∧ n ≤ 'f'.toNat then some (n - 'a'.toNat + 10)
  else if 'A'.toNat ≤ n ∧ n ≤ 'F'.toNat then some (n - 'A'.toNat + 10)
  else none

/-- Four hexadecimal digits. -/
def unit? (a b c d : Char) : Option Nat := do
  let a ← hexValue? a
  let b ← hexValue? b
  let c ← hexValue? c
  let d ← hexValue? d
  some (((a * 16 + b) * 16 + c) * 16 + d)

/-- The character a short escape stands for. -/
def shortEscape? : Char → Option Char
  | '"' => some '"'
  | '\\' => some '\\'
  | '/' => some '/'
  | 'b' => some '\x08'
  | 'f' => some '\x0c'
  | 'n' => some '\n'
  | 'r' => some '\r'
  | 't' => some '\t'
  | _ => none

/-- The first half of a pair of units. -/
def isHighUnit (n : Nat) : Bool := 0xD800 ≤ n && n < 0xDC00

/-- The second half of a pair of units. -/
def isLowUnit (n : Nat) : Bool := 0xDC00 ≤ n && n < 0xE000

/-- Puts a character in front of the string read after it. -/
def consChar (c : Char) (r : Option (List Char × List Char)) : Option (List Char × List Char) :=
  r.map fun (s, rest) => (c :: s, rest)

/-- Reads a string after its opening quote: the characters up to the closing quote, and the
text after it. Control characters must be escaped, and units above U+FFFF come in pairs. -/
def takeString? : List Char → Option (List Char × List Char)
  | [] => none
  | '"' :: rest => some ([], rest)
  | '\\' :: 'u' :: a :: b :: c :: d :: '\\' :: 'u' :: e :: f :: g :: h :: rest =>
    match unit? a b c d with
    | none => none
    | some high =>
      if isHighUnit high then
        match unit? e f g h with
        | some low =>
          if isLowUnit low then
            consChar (Char.ofNat (0x10000 + (high - 0xD800) * 0x400 + (low - 0xDC00)))
              (takeString? rest)
          else none
        | none => none
      else if isLowUnit high then none
      else
        consChar (Char.ofNat high) (takeString? ('\\' :: 'u' :: e :: f :: g :: h :: rest))
  | '\\' :: 'u' :: a :: b :: c :: d :: rest =>
    match unit? a b c d with
    | none => none
    | some n =>
      if isHighUnit n || isLowUnit n then none
      else consChar (Char.ofNat n) (takeString? rest)
  | '\\' :: c :: rest =>
    match shortEscape? c with
    | some c => consChar c (takeString? rest)
    | none => none
  | c :: rest => if c.toNat < 0x20 || c = '\\' then none else consChar c (takeString? rest)

/-! ### Texts -/

/-- The token at the front of a text that does not start with a blank. -/
def next? : List Char → Option (Token × List Char)
  | '[' :: rest => some (openArray, rest)
  | ']' :: rest => some (closeArray, rest)
  | '\x7b' :: rest => some (openObject, rest)
  | '\x7d' :: rest => some (closeObject, rest)
  | ',' :: rest => some (comma, rest)
  | ':' :: rest => some (colon, rest)
  | 'n' :: 'u' :: 'l' :: 'l' :: rest => some (null, rest)
  | 't' :: 'r' :: 'u' :: 'e' :: rest => some (bool true, rest)
  | 'f' :: 'a' :: 'l' :: 's' :: 'e' :: rest => some (bool false, rest)
  | '"' :: rest => (takeString? rest).map fun (s, rest) => (string (String.ofList s), rest)
  | cs => (takeNumber? cs).map fun (t, rest) => (number (String.ofList t), rest)

/-- The tokens of a text of at most `n` characters. -/
def ofTextWithin : Nat → List Char → List Token
  | 0, _ => []
  | _ + 1, [] => []
  | n + 1, c :: rest =>
    if isSpace c then ofTextWithin n rest
    else
      match next? (c :: rest) with
      | some (t, rest) => t :: ofTextWithin n rest
      | none => [invalid]

/-- The tokens of a text. -/
def ofText (cs : List Char) : List Token := ofTextWithin cs.length cs

end Token

end TypedData.Json
