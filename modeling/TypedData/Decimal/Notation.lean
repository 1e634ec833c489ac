import TypedData.Decimal.Basic

/-!
# Written forms of decimal numbers

## Main definitions

* `Decimal.plain` — positional notation without exponent or trailing zeros
* `Decimal.scientific?` — the digits as they are, and an exponent
* `Decimal.text?` — the form shown to readers: positional unless it would grow too long
-/

namespace TypedData.Decimal

/-- The exponent up to which numbers are written positionally, and the default bound for
numbers that are read. -/
def defaultMaxExponent : Nat := 4096

/-- Positional notation of `n * 10 ^ (-scale)`. -/
def positional (n : Nat) (scale : Int) : List Char :=
  let ds := Nat.toDigits 10 n
  if scale ≤ 0 then ds ++ List.replicate (-scale).toNat '0'
  else
    let places := scale.toNat
    if places < ds.length then
      ds.take (ds.length - places) ++ '.' :: ds.drop (ds.length - places)
    else
      '0' :: '.' :: (List.replicate (places - ds.length) '0' ++ ds)

/-- Positional notation without exponent and without trailing zeros: `1e3` is `1000` and
`2.50` is `2.5`. -/
def plain (d : Decimal) : String :=
  let n := d.normalize
  let body := positional n.digits.natAbs n.scale
  String.ofList (if n.digits < 0 then '-' :: body else body)

/-- An integer in decimal digits. -/
def intText (n : Int) : List Char :=
  let ds := Nat.toDigits 10 n.natAbs
  if n < 0 then '-' :: ds else ds

/-- The digits of this form followed by its exponent, a signed word; an exponent of zero is left
out. There is no such notation where the exponent overflows: asked for it, the program stops. -/
def scientific? (d : Decimal) : Option String :=
  if d.scale = 0 then some (String.ofList (intText d.digits))
  else
    (Word.negate? d.scale).map fun exponent =>
      String.ofList (intText d.digits ++ 'e' :: intText exponent)

/-- The form shown to readers: positional within the default exponent bound, and scientific
beyond it. -/
def text? (d : Decimal) : Option String :=
  if d.withinExponent defaultMaxExponent then some d.plain else d.scientific?

end TypedData.Decimal
