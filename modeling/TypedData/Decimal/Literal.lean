import TypedData.Decimal.Notation
import TypedData.Text.Quoted

/-!
# Decimal literals

An optional sign, digits with an optional fraction (or a fraction alone), and an optional
exponent; no blanks, no other radix, no names for infinities. A literal is read into its
parts, and the parts denote a number. Reading is bounded: the scale of the number must fit a
64-bit integer, and its exponent must lie within a limit.

## Main definitions

* `Decimal.Literal` — the parts of a literal, with its `text` and its `value`
* `Decimal.Literal.read?` — the parts of a text, if it is a literal
* `Decimal.parse?` — the number a text denotes
* `Decimal.ofText` — the same under a bound on the exponent
-/

namespace TypedData.Decimal

/-- An explicit sign. -/
inductive Sign where
  | plus
  | minus
deriving Repr, DecidableEq, Inhabited

/-- The exponent part of a literal. -/
structure ExponentPart where
  /-- Whether the mark is `E` rather than `e`. -/
  upper : Bool
  sign : Option Sign
  digits : List Char
deriving Repr, DecidableEq, Inhabited

/-- The parts of a decimal literal. -/
structure Literal where
  sign : Option Sign
  /-- Digits before the point. -/
  whole : List Char
  /-- Digits after the point, if there is a point. -/
  fraction : Option (List Char)
  exponent : Option ExponentPart
deriving Repr, DecidableEq, Inhabited

/-- The number a list of digits denotes. -/
def natOfDigits (ds : List Char) : Nat :=
  ds.foldl (fun n c => n * 10 + (c.toNat - '0'.toNat)) 0

namespace Sign

/-- The sign as written, or nothing. -/
def textOf : Option Sign → List Char
  | none => []
  | some plus => ['+']
  | some minus => ['-']

/-- Splits an explicit sign off a text. -/
def take : List Char → Option Sign × List Char
  | '+' :: rest => (some plus, rest)
  | '-' :: rest => (some minus, rest)
  | cs => (none, cs)

/-- Gives a natural number its sign. -/
def apply (s : Option Sign) (n : Nat) : Int := if s = some minus then -(n : Int) else n

end Sign

/-- An exponent as written. -/
def ExponentPart.text (e : ExponentPart) : List Char :=
  (if e.upper then 'E' else 'e') :: (Sign.textOf e.sign ++ e.digits)

/-- The integer an exponent denotes. -/
def ExponentPart.value (e : ExponentPart) : Int := Sign.apply e.sign (natOfDigits e.digits)

namespace Literal

/-- A literal as written. -/
def text (l : Literal) : List Char :=
  Sign.textOf l.sign ++ l.whole ++
    (match l.fraction with | none => [] | some ds => '.' :: ds) ++
    (match l.exponent with | none => [] | some e => e.text)

/-- The number a literal denotes, with every digit kept. -/
def value (l : Literal) : Decimal :=
  let places := l.fraction.getD []
  let exponent := match l.exponent with | none => 0 | some e => e.value
  ⟨Sign.apply l.sign (natOfDigits (l.whole ++ places)), places.length - exponent⟩

/-- Reads what may follow the digits: nothing, or an exponent. -/
def readExponent? : List Char → Option (Option ExponentPart)
  | [] => some none
  | c :: rest =>
    if c = 'e' ∨ c = 'E' then
      let (sign, ds) := Sign.take rest
      if ds ≠ [] ∧ ds.all Char.isDigit then some (some ⟨c = 'E', sign, ds⟩) else none
    else
      none

/-- Reads a point and the digits after it, if there is one. -/
def takeFraction : List Char → Option (List Char) × List Char
  | '.' :: rest => (some (rest.takeWhile Char.isDigit), rest.dropWhile Char.isDigit)
  | cs => (none, cs)

/-- The parts of a text, if the whole of it is a literal. -/
def read? (cs : List Char) : Option Literal :=
  let (sign, cs) := Sign.take cs
  let whole := cs.takeWhile Char.isDigit
  let (fraction, cs) := takeFraction (cs.dropWhile Char.isDigit)
  if whole = [] ∧ fraction.getD [] = [] then none
  else (readExponent? cs).map fun exponent => ⟨sign, whole, fraction, exponent⟩

end Literal

/-- Whether a scale fits a signed 64-bit integer. -/
def scaleFits (s : Int) : Bool := Word.fitsSigned s

/-- The number a text denotes, if it is a literal whose scale fits 64 bits. -/
def parse? (s : String) : Option Decimal :=
  ((Literal.read? s.toList).map Literal.value).filter fun d => scaleFits d.scale

/-- Why a text is not accepted as a number. -/
inductive LiteralError where
  /-- The text is not a literal. -/
  | malformed (text : String)
  /-- The exponent lies beyond the limit. -/
  | outOfRange (text : String) (limit : Nat)
deriving Repr, DecidableEq, Inhabited

/-- The wording of a literal error. -/
def LiteralError.message : LiteralError → String
  | .malformed text => Text.quoted text ++ " is not a number literal"
  | .outOfRange text limit =>
    Text.quoted text ++ " has a decimal exponent beyond ±" ++ Nat.repr limit

/-- Reads a number whose exponent lies within `limit` either way. -/
def ofText (s : String) (limit : Nat) : Except LiteralError Decimal :=
  match parse? s with
  | none => .error (.malformed s)
  | some d => if d.withinExponent limit then .ok d else .error (.outOfRange s limit)

end TypedData.Decimal
