import TypedData.Binary64.Basic

/-!
# Shortest decimal digits of a floating-point number

Among the decimals that lie closer to a pattern than to its neighbours, the one with the
fewest digits is taken; of several, the nearest. The interval of reals that round to a pattern
includes its ends exactly when the significand is even.

## Main definitions

* `Binary64.shortest?` — the number with the fewest digits that reads back
* `Binary64.text` — the positional text of those digits
-/

namespace TypedData.Binary64

/-- The reals that round to a pattern, as multiples of a quarter of the unit in the last
place, over a common denominator: `low / denominator ≤ x ≤ high / denominator`. -/
structure Interval where
  low : Nat
  middle : Nat
  high : Nat
  denominator : Nat
  /-- Whether the ends themselves round to the pattern. -/
  closed : Bool

/-- The interval around a positive finite pattern. Below a power of two the lower neighbour is
only half as far away. -/
def interval (f : Binary64) : Interval :=
  let m := f.mantissa
  let k := f.power - 2
  let below := if f.fraction = 0 ∧ 1 < f.exponentField then 1 else 2
  let up := Nat.pow 2 k.toNat
  ⟨(4 * m - below) * up, 4 * m * up, (4 * m + 2) * up, Nat.pow 2 (-k).toNat, m % 2 = 0⟩

/-- Whether `n * 10 ^ e` lies in an interval. -/
def Interval.contains (i : Interval) (n : Nat) (e : Int) : Bool :=
  let x := n * Nat.pow 10 e.toNat * i.denominator
  let y := Nat.pow 10 (-e).toNat
  if i.closed then i.low * y ≤ x && x ≤ i.high * y else i.low * y < x && x < i.high * y

/-- The neighbours of the middle of an interval on the grid of multiples of `10 ^ e`. -/
def Interval.neighbours (i : Interval) (e : Int) : Nat × Nat :=
  let n := i.middle * Nat.pow 10 (-e).toNat / (i.denominator * Nat.pow 10 e.toNat)
  (n, n + 1)

/-- Whether the upper neighbour is nearer to the middle than the lower one; of two equally near
ones the even one is taken. -/
def Interval.prefersUpper (i : Interval) (n : Nat) (e : Int) : Bool :=
  let twice := 2 * i.middle * Nat.pow 10 (-e).toNat
  let half := (2 * n + 1) * Nat.pow 10 e.toNat * i.denominator
  half < twice || (half = twice && n % 2 = 1)

/-- The point of the grid `10 ^ e` in an interval that is nearest to its middle. -/
def Interval.pick? (i : Interval) (e : Int) : Option Nat :=
  let (a, b) := i.neighbours e
  match a ≠ 0 && i.contains a e, i.contains b e with
  | true, true => some (if i.prefersUpper a e then b else a)
  | true, false => some a
  | false, true => some b
  | false, false => none

/-- Searches finer and finer grids for a point of the interval. -/
def Interval.search (i : Interval) : Nat → Int → Option (Nat × Int)
  | 0, _ => none
  | fuel + 1, e =>
    match i.pick? e with
    | some n => some (n, e)
    | none => i.search fuel (e - 1)

/-- The digits and the exponent of the shortest decimal of a positive finite pattern.
Seventeen digits always suffice, and the first grid lies above the number. -/
def shortestDigits (f : Binary64) : Nat × Int :=
  let i := f.interval
  let top : Int := (Decimal.digitCount (i.middle / i.denominator) : Int)
  let start : Int :=
    if i.middle < i.denominator then
      1 - (Decimal.digitCount (i.denominator / i.middle) : Int)
    else top
  (i.search 24 (start + 1)).getD (0, 0)

/-- The number with the fewest digits that reads back as a finite pattern, as it is written
positionally: whole numbers have scale zero. -/
def shortest? (f : Binary64) : Option Decimal :=
  if !f.isFinite then none
  else if f.mantissa = 0 then some ⟨0, 0⟩
  else
    let (n, e) := f.shortestDigits
    let n : Int := if f.negative then -(n : Int) else n
    some (if 0 ≤ e then ⟨n * Nat.pow 10 e.toNat, 0⟩ else ⟨n, -e⟩)

/-- The shortest digits in positional notation, or the name of a pattern that has none. -/
def text (f : Binary64) : String :=
  match f.shortest? with
  | some d => if f.negative ∧ d.digits = 0 then "-0" else d.plain
  | none => if f.isNaN then "NaN" else if f.negative then "-inf" else "inf"

end TypedData.Binary64
