import TypedData.Decimal.Notation
import TypedData.Ty.Basic

/-!
# Refinements

A refinement records what is certain about an unknown value: that it is not null, how its text
begins, between which bounds its number or its length lies. A refinement may always be dropped;
that loses knowledge and nothing else.

## Main definitions

* `NumberBound` — a bound that may or may not be attained
* `Refinement` — what is certain of an unknown value
* `Refinement.retainFor` — the part that means something for a type
-/

namespace TypedData

/-- A bound on a number. -/
structure NumberBound where
  value : Decimal
  /-- Whether the bound itself is allowed. -/
  inclusive : Bool
deriving Repr, Inhabited

/-- Equality of bounds, by the number they denote. -/
def NumberBound.same (a b : NumberBound) : Bool :=
  a.value.same b.value && a.inclusive == b.inclusive

/-- What is certain of an unknown value. -/
structure Refinement where
  notNull : Bool
  /-- How the text begins; never empty. -/
  startsWith : Option String
  lower : Option NumberBound
  upper : Option NumberBound
  lengthLower : Option Nat
  lengthUpper : Option Nat
deriving Repr, Inhabited

namespace Refinement

/-- Nothing is certain. -/
def none : Refinement := ⟨false, .none, .none, .none, .none, .none⟩

/-! ### Building -/

/-- The value is not null. -/
def withNotNull (r : Refinement) : Refinement := { r with notNull := true }

/-- The longest beginning of a text that needs at most `limit` bytes. -/
def takeBytes (limit : Nat) : List Char → List Char
  | [] => []
  | c :: cs => if c.utf8Size ≤ limit then c :: takeBytes (limit - c.utf8Size) cs else []

/-- How many bytes of a beginning are kept. -/
def maxStartBytes : Nat := 256

/-- The text begins so. Only the first 256 bytes count, and an empty beginning says nothing. -/
def withStart (r : Refinement) (s : String) : Refinement :=
  let kept := String.ofList (takeBytes maxStartBytes s.toList)
  { r with startsWith := if kept = "" then .none else some kept }

/-- The number is at least, or above, a bound. -/
def withLower (r : Refinement) (value : Decimal) (inclusive : Bool) : Refinement :=
  { r with lower := some ⟨value, inclusive⟩ }

/-- The number is at most, or below, a bound. -/
def withUpper (r : Refinement) (value : Decimal) (inclusive : Bool) : Refinement :=
  { r with upper := some ⟨value, inclusive⟩ }

/-- There are at least `n` elements. -/
def withLengthLower (r : Refinement) (n : Nat) : Refinement := { r with lengthLower := some n }

/-- There are at most `n` elements. -/
def withLengthUpper (r : Refinement) (n : Nat) : Refinement := { r with lengthUpper := some n }

/-- There are exactly `n` elements. -/
def withLength (r : Refinement) (n : Nat) : Refinement :=
  (r.withLengthLower n).withLengthUpper n

/-- Lowers the least length to at most `cap`. -/
def capLengthLower (r : Refinement) (cap : Nat) : Refinement :=
  { r with lengthLower := r.lengthLower.map (min · cap) }

/-! ### Comparing and restricting -/

/-- Whether two optional bounds agree. -/
def sameBound : Option NumberBound → Option NumberBound → Bool
  | .none, .none => true
  | some a, some b => a.same b
  | _, _ => false

/-- Equality of refinements, with bounds compared as numbers. -/
def same (a b : Refinement) : Bool :=
  a.notNull == b.notNull && a.startsWith == b.startsWith && sameBound a.lower b.lower &&
    sameBound a.upper b.upper && a.lengthLower == b.lengthLower &&
    a.lengthUpper == b.lengthUpper

/-- Whether nothing is certain. -/
def isEmpty (r : Refinement) : Bool := r.same none

/-- The part that means something for a type: beginnings for strings, bounds for numbers,
lengths for collections. That a value is not null means something for every type. -/
def retainFor (r : Refinement) : Ty → Refinement
  | .string => { none with notNull := r.notNull, startsWith := r.startsWith }
  | .number => { none with notNull := r.notNull, lower := r.lower, upper := r.upper }
  | .list _ | .set _ | .map _ =>
    { none with
      notNull := r.notNull, lengthLower := r.lengthLower, lengthUpper := r.lengthUpper }
  | _ => { none with notNull := r.notNull }

end Refinement

end TypedData
