import TypedData.Binary64.Basic

/-!
# Approximations of decimal numbers

The approximation of a decimal number is computed from its form, the digits and the scale.
Digits without a scale, and digits that reach behind the point, are rounded to nearest. Digits
that lack zeros are rounded, and then multiplied by a power of ten that is itself made of
rounded products. The roundings add up, so the result may be a neighbour of the nearest
pattern, and two forms of one number may have different approximations.

Very long digits under a scale are cut first: blocks of nineteen trailing digits are dropped as
long as about 25 digits are left, more than a pattern can hold.

## Main definitions

* `Binary64.mul` — the product of two patterns, rounded to nearest
* `Binary64.powerOfTen` — powers of ten by repeated squaring
* `Binary64.approximate` — the approximation of a decimal number
* `Binary64.ofDecimal?` — the approximation of a decimal number, if it is exact
-/

namespace TypedData.Binary64

/-! ### Products -/

/-- The pattern nearest to `± m * 2 ^ k`. -/
def nearestDyadic (negative : Bool) (m : Nat) (k : Int) : Binary64 :=
  if m = 0 then ofFields negative 0 0
  else nearestQuotient negative (m * Nat.pow 2 k.toNat) (Nat.pow 2 (-k).toNat)

/-- The product of two patterns, rounded to nearest. Infinity times zero is not a number. -/
def mul (f g : Binary64) : Binary64 :=
  let negative := f.negative != g.negative
  if f.isNaN || g.isNaN then notANumber
  else if f.isFinite && g.isFinite then
    nearestDyadic negative (f.mantissa * g.mantissa) (f.power + g.power)
  else if f.mantissa = 0 ∨ g.mantissa = 0 then notANumber
  else infinity negative

/-- The product of `r` and `a` to the power `n`, for an exponent of at most `bits` bits. The
base is squared from bit to bit, and multiplied into `r` where the bit is set. -/
def mulPower : Nat → Binary64 → Binary64 → Nat → Binary64
  | 0, r, _, _ => r
  | bits + 1, r, a, n =>
    if n = 0 then r
    else mulPower bits (if n % 2 = 1 then r.mul a else r) (a.mul a) (n / 2)

/-- The powers of ten below `2 ^ 31`, by repeated squaring. -/
def powerOfTen (n : Nat) : Binary64 :=
  mulPower 31 (nearest (.ofInt 1)) (nearest (.ofInt 10)) n

/-! ### Long digits -/

/-- About how many decimal digits a positive number has. One more than its bits are counted, at
the decimal logarithm of two for each of them. -/
def digitEstimate (n : Nat) : Nat := (Nat.log2 n + 2) * 30102999566398120 / Nat.pow 10 17

/-- How many digits are always kept, by estimate. -/
def keptDigits : Nat := 25

/-- How many digits are dropped at a time, the most for which the power of ten is a word. -/
def droppedDigits : Nat := 19

/-- A form of a number without the trailing digits that are dropped. -/
def cut (d : Decimal) : Decimal :=
  let n := droppedDigits * ((digitEstimate d.digits.natAbs - keptDigits) / droppedDigits)
  ⟨d.digits.tdiv (Nat.pow 10 n), d.scale - n⟩

/-! ### Approximations -/

/-- The approximation of a decimal number. Where the scale does not fit 32 bits it is infinite,
whatever the direction. -/
def approximate (d : Decimal) : Binary64 :=
  if d.digits = 0 ∨ d.scale = 0 then nearest d
  else
    let c := cut d
    if Nat.pow 2 31 ≤ c.scale.natAbs then infinity (d.digits < 0)
    else if 0 < c.scale then nearest c
    else (nearest (.ofInt c.digits)).mul (powerOfTen (-c.scale).toNat)

/-- The approximation of a decimal number, if it is exact. -/
def ofDecimal? (d : Decimal) : Option Binary64 :=
  let f := approximate d
  match f.value? with
  | some v => if v.same d then some f else none
  | none => none

end TypedData.Binary64
