import TypedData.Decimal.Notation

/-!
# Limits

## Main definitions

* `Limits` — bounds on what is accepted from outside
-/

namespace TypedData

/-- Bounds on what is accepted from outside. -/
structure Limits where
  /-- How many containers may stand inside one another, and then one more. -/
  maxDepth : Nat
  /-- How large the decimal exponent of a number may be, either way. -/
  maxNumberExponent : Nat
deriving Repr, DecidableEq

/-- The limits that hold where none are given. -/
def Limits.default : Limits := ⟨500, Decimal.defaultMaxExponent⟩

instance : Inhabited Limits := ⟨.default⟩

end TypedData
