import TypedData.Word

/-!
# Exact decimal numbers

A number is an integer of digits over a power of ten. The same number has many such forms
(`1`, `10e-1`, `0.1e1`); forms are kept as written, and numbers are compared by what they
denote.

## Main definitions

* `Decimal` — digits and a decimal scale
* `Decimal.normalize` — the form without trailing zeros, one per number
* `Decimal.same`, `Decimal.compare` — equality and order of the numbers denoted
* `Decimal.withinExponent` — the bound on the exponent of a form
* `Decimal.toInt64?`, `Decimal.toUInt64?` — integers that fit a machine word
-/

namespace TypedData

/-- The number `digits * 10 ^ (-scale)`. -/
structure Decimal where
  /-- The signed integer of all digits. -/
  digits : Int
  /-- How many of the digits stand after the decimal point; negative for trailing zeros that
  are not written out. -/
  scale : Int
deriving Repr, Inhabited, DecidableEq

namespace Decimal

/-- An integer as a number. -/
def ofInt (n : Int) : Decimal := ⟨n, 0⟩

/-- Removes trailing zeros of the digits, lowering the scale by one for each. -/
def dropZeros (n : Nat) (scale : Int) : Nat × Int :=
  if h : n ≠ 0 ∧ n % 10 = 0 then dropZeros (n / 10) (scale - 1) else (n, scale)
termination_by n
decreasing_by omega

/-- The form of a number whose digits do not end in zero; zero has scale `0`. -/
def normalize (d : Decimal) : Decimal :=
  if d.digits = 0 then ⟨0, 0⟩
  else
    let (n, s) := dropZeros d.digits.natAbs d.scale
    ⟨d.digits.sign * n, s⟩

/-- Whether two forms denote the same number. -/
def same (a b : Decimal) : Bool := a.normalize = b.normalize

/-- How many decimal digits a natural number has. -/
def digitCount (n : Nat) : Nat := (Nat.toDigits 10 n).length

/-- The power of ten just above a non-zero number. -/
def leading (d : Decimal) : Int := digitCount d.digits.natAbs - d.scale

/-- Compares the magnitudes of two non-zero numbers. Digits are only brought to a common scale
when the leading digits have the same place, so that far apart exponents cost nothing. -/
def compareMagnitude (a b : Decimal) : Ordering :=
  match Ord.compare a.leading b.leading with
  | .eq =>
    Ord.compare (a.digits.natAbs * Nat.pow 10 (b.scale - a.scale).toNat)
      (b.digits.natAbs * Nat.pow 10 (a.scale - b.scale).toNat)
  | o => o

/-- The numeric order. -/
def compare (a b : Decimal) : Ordering :=
  match Ord.compare a.digits.sign b.digits.sign with
  | .eq =>
    if a.digits = 0 then .eq
    else if a.digits < 0 then compareMagnitude b a
    else compareMagnitude a b
  | o => o

/-- Whether the exponent of this form lies within `limit` either way. Zero always does. -/
def withinExponent (d : Decimal) (limit : Nat) : Bool :=
  d.digits = 0 || d.scale.natAbs ≤ limit

/-- Whether the number has no fractional part. -/
def isInteger (d : Decimal) : Bool := d.normalize.scale ≤ 0

/-- The integer a number denotes, if it is one of fewer than 21 digits: enough for every
64-bit word. -/
def toSmallInt? (d : Decimal) : Option Int :=
  let n := d.normalize
  if n.scale ≤ 0 ∧ n.leading ≤ 20 then some (n.digits * Nat.pow 10 (-n.scale).toNat) else none

/-- The signed 64-bit integer a number equals. -/
def toInt64? (d : Decimal) : Option Int :=
  d.toSmallInt?.filter Word.fitsSigned

/-- The unsigned 64-bit integer a number equals. -/
def toUInt64? (d : Decimal) : Option Nat :=
  (d.toSmallInt?.filter Word.fitsUnsigned).map Int.toNat

end Decimal

end TypedData
