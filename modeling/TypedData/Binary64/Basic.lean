import TypedData.Decimal.Literal

/-!
# Binary floating-point numbers of 64 bits

A number is its bit pattern: a sign, eleven bits of exponent and 52 bits of fraction. Finite
patterns denote `± mantissa * 2 ^ power` exactly, and every such value has a finite decimal
expansion.

## Main definitions

* `Binary64` — a bit pattern, with its `mantissa` and `power`
* `Binary64.ofBinary32` — a 32-bit pattern, widened
* `Binary64.value?` — the exact decimal value
* `Binary64.nearest` — the pattern nearest to a decimal number
-/

namespace TypedData

/-- A 64-bit floating-point pattern. -/
structure Binary64 where
  bits : UInt64
deriving Repr, DecidableEq, Inhabited

namespace Binary64

/-- Whether the sign bit is set. -/
def negative (f : Binary64) : Bool := f.bits.toNat / Nat.pow 2 63 = 1

/-- The biased exponent, below 2048. -/
def exponentField (f : Binary64) : Nat := f.bits.toNat / Nat.pow 2 52 % 2048

/-- The stored fraction, below `2 ^ 52`. -/
def fraction (f : Binary64) : Nat := f.bits.toNat % Nat.pow 2 52

/-- Neither infinite nor a NaN. -/
def isFinite (f : Binary64) : Bool := f.exponentField < 2047

/-- Not a number. -/
def isNaN (f : Binary64) : Bool := !f.isFinite && f.fraction ≠ 0

/-- The integer significand: the fraction, with the hidden bit unless subnormal. -/
def mantissa (f : Binary64) : Nat :=
  if f.exponentField = 0 then f.fraction else f.fraction + Nat.pow 2 52

/-- The power of two that scales the mantissa. -/
def power (f : Binary64) : Int :=
  if f.exponentField = 0 then -1074 else (f.exponentField : Int) - 1075

/-- The pattern made of three fields. -/
def ofFields (negative : Bool) (exponentField fraction : Nat) : Binary64 :=
  ⟨UInt64.ofNat
    ((if negative then Nat.pow 2 63 else 0) + exponentField * Nat.pow 2 52 + fraction)⟩

/-- Infinity of either sign. -/
def infinity (negative : Bool) : Binary64 := ofFields negative 2047 0

/-- The quiet NaN without payload. -/
def notANumber : Binary64 := ofFields false 2047 (Nat.pow 2 51)

/-- The pattern of a significand that is already in range: at most `2 ^ 53 - 1`, and at least
`2 ^ 52` unless the power is the least one. -/
def ofSignificand (negative : Bool) (m : Nat) (k : Int) : Binary64 :=
  if m < Nat.pow 2 52 then ofFields negative 0 m
  else ofFields negative (k + 1075).toNat (m - Nat.pow 2 52)

/-- Widens a 32-bit pattern, which is exact. A payload of a NaN keeps its leading bits. -/
def ofBinary32 (bits : UInt32) : Binary64 :=
  let n := bits.toNat
  let negative : Bool := n / Nat.pow 2 31 = 1
  let e := n / Nat.pow 2 23 % 256
  let m := n % Nat.pow 2 23
  if e = 255 then ofFields negative 2047 (m * Nat.pow 2 29)
  else if e = 0 then
    if m = 0 then ofFields negative 0 0
    else
      let p := Nat.log2 m
      ofFields negative (p + 874) (m * Nat.pow 2 (52 - p) - Nat.pow 2 52)
  else ofFields negative (e + 896) (m * Nat.pow 2 29)

/-! ### Decimal values of patterns -/

/-- The decimal number `± m * 2 ^ k`. A negative power is written with `-k` decimal places. -/
def decimalOfDyadic (negative : Bool) (m : Nat) (k : Int) : Decimal :=
  let signed (n : Nat) : Int := if negative then -(n : Int) else n
  if 0 ≤ k then ⟨signed (m * Nat.pow 2 k.toNat), 0⟩
  else ⟨signed (m * Nat.pow 5 (-k).toNat), -k⟩

/-- The exact decimal value of a finite pattern. -/
def value? (f : Binary64) : Option Decimal :=
  if f.isFinite then some (decimalOfDyadic f.negative f.mantissa f.power) else none

/-! ### Nearest patterns -/

/-- The quotient of two numbers rounded to nearest, halves to the even neighbour. -/
def roundQuotient (n d : Nat) : Nat :=
  let q := n / d
  let r := n % d
  if 2 * r < d then q
  else if d < 2 * r then q + 1
  else q + q % 2

/-- The pattern nearest to `n / d`, for positive `n` and `d`. -/
def nearestQuotient (negative : Bool) (n d : Nat) : Binary64 :=
  let scaled (k : Int) : Nat × Nat := (n * Nat.pow 2 (-k).toNat, d * Nat.pow 2 k.toNat)
  let estimate := max (-1074) ((Nat.log2 n : Int) - Nat.log2 d - 53)
  let k :=
    let (a, b) := scaled estimate
    if Nat.pow 2 53 ≤ a / b then estimate + 1 else estimate
  let (a, b) := scaled k
  let q := roundQuotient a b
  -- Rounding up may carry into a 54th bit.
  let (q, k) := if q = Nat.pow 2 53 then (Nat.pow 2 52, k + 1) else (q, k)
  if 971 < k then infinity negative else ofSignificand negative q k

/-- The pattern nearest to a decimal number; infinite beyond the finite range, and zero below
half of the least pattern. -/
def nearest (d : Decimal) : Binary64 :=
  let n := d.normalize
  let negative : Bool := n.digits < 0
  if n.digits = 0 then ofFields false 0 0
  -- Far outside of the range the powers of ten need not be computed.
  else if 310 < n.leading then infinity negative
  else if n.leading < -330 then ofFields negative 0 0
  else
    nearestQuotient negative (n.digits.natAbs * Nat.pow 10 (-n.scale).toNat)
      (Nat.pow 10 n.scale.toNat)

end Binary64

end TypedData
