import TypedData.Limits
import TypedData.Native
import TypedData.Ty.Unify

/-!
# Type inference

Native data has a most specific type. Maps with string keys are objects, other maps have the
unified type of their values; lists and sets have the unified type of their elements. Nothing
at all says nothing, and neither does data past a limit on depth.

## Main definitions

* `Native.infer` — the type of native data
* `Observations` — types seen so far, and the type that covers them
-/

namespace TypedData

namespace Native

/-- The object type of attributes under string keys, if all keys are strings. -/
def attributesOfKeys? : List (Native × Ty) → Option (List (String × Ty))
  | [] => some []
  | (k, t) :: rest => do
    let key ← k.asKey?
    let attrs ← attributesOfKeys? rest
    some ((key, t) :: attrs)

/-- The type of a map from the types of its values. -/
def inferMap (entries : List (Native × Ty)) : Ty :=
  match attributesOfKeys? entries with
  | some attrs => Ty.ofAttributes attrs
  | none => .map (Ty.unify (entries.map (·.2)))

mutual

/-- The type of native data inside `depth` containers, where `limit` of them are looked
into. -/
def inferAt (limit depth : Nat) (raw : Native) : Ty :=
  if limit < depth then .dynamic
  else
    match raw with
    | .absent => .dynamic
    | .value v => v.ty
    | .bool _ => .bool
    | .int _ | .float _ | .number _ => .number
    | .string _ | .bytes _ => .string
    | .capsule h => .capsule h.kind
    | .list items => .list (Ty.unify (inferEach limit (depth + 1) items))
    | .set items => .set (Ty.unify (inferEach limit (depth + 1) items))
    | .tuple items => .tuple (inferEach limit (depth + 1) items)
    | .map entries => inferMap (inferEntries limit (depth + 1) entries)
termination_by structural raw

/-- The types of several items. -/
def inferEach (limit depth : Nat) : List Native → List Ty
  | [] => []
  | raw :: rest => inferAt limit depth raw :: inferEach limit depth rest
termination_by structural items => items

/-- The types of the values of several entries, beside their keys. -/
def inferEntries (limit depth : Nat) : List (Native × Native) → List (Native × Ty)
  | [] => []
  | (k, raw) :: rest => (k, inferAt limit depth raw) :: inferEntries limit depth rest
termination_by structural entries => entries

end

/-- The most specific type of native data. -/
def infer (limit : Nat) (raw : Native) : Ty := inferAt limit 0 raw

end Native

/-- Types of native data seen so far. -/
structure Observations where
  /-- The different types, in the order in which they were first seen. -/
  seen : List Ty
  /-- How much data was seen. -/
  count : Nat
deriving Inhabited

namespace Observations

/-- Nothing seen yet. -/
def empty : Observations := ⟨[], 0⟩

/-- Sees native data. -/
def observe (o : Observations) (raw : Native) : Observations :=
  let t := raw.infer Limits.default.maxDepth
  ⟨if o.seen.any (· == t) then o.seen else o.seen ++ [t], o.count + 1⟩

/-- The type that covers what was seen. -/
def solve (o : Observations) : Ty := Ty.unify o.seen

/-- The type that covers several JSON documents. -/
def solveJson (documents : List Json) : Ty :=
  (documents.foldl (fun o j => o.observe (Native.ofJson j)) empty).solve

end Observations

end TypedData
