import TypedData.Value.Equality
import TypedData.Wire.ToMsgpack

/-!
# The order of set elements

Sets keep their elements in an order that does not depend on how they were built: nulls, then
booleans, numbers, strings, containers, capsules, then unknowns. Containers go by their
encoding, and those without one by their elements, after the rest. Names of types decide
between containers whose encodings agree.

## Main definitions

* `Value.compare` — the order
-/

namespace TypedData.Value

/-- The place of known contents of different kinds. -/
def rank : Content Value → Nat
  | .null => 0
  | .bool _ => 1
  | .number _ => 2
  | .string _ => 3
  | .items _ | .entries _ => 4
  | .capsule _ => 5
  | .unknown _ => 6

/-- The encoding of a value as its own type. -/
def ownBytes? (v : Value) : Option (List UInt8) := (v.encodeMsgpack v.ty).toOption

/-- Compares containers by their encodings where both have one; `otherwise` compares those
without. Equal ones are told apart by the names of their types. -/
def compareContainers (v w : Value) (otherwise : Ordering) : Ordering :=
  (match ownBytes? v, ownBytes? w with
    | some p, some q => Ord.compare p q
    | some _, none => .lt
    | none, some _ => .gt
    | none, none => otherwise).then (Ord.compare v.ty.name w.ty.name)

mutual

/-- The order of set elements. -/
def compare : Value → Value → Ordering
  | ⟨t, c, m⟩, ⟨u, d, n⟩ =>
    match c, d with
    | .null, .null => Ord.compare t.name u.name
    | .bool a, .bool b => Ord.compare a b
    | .number a, .number b => a.compare b
    | .string a, .string b => Ord.compare a b
    | .items vs, .items ws =>
      compareContainers ⟨t, .items vs, m⟩ ⟨u, .items ws, n⟩ (compareEach vs ws)
    | .entries es, .entries fs =>
      compareContainers ⟨t, .entries es, m⟩ ⟨u, .entries fs, n⟩ (compareEntries es fs)
    | .items vs, .entries fs =>
      -- Without encodings, sequences come before maps.
      compareContainers ⟨t, .items vs, m⟩ ⟨u, .entries fs, n⟩ .lt
    | .entries es, .items ws =>
      compareContainers ⟨t, .entries es, m⟩ ⟨u, .items ws, n⟩ .gt
    | .capsule a, .capsule b => Ord.compare a.id b.id
    | c, d => Ord.compare (rank c) (rank d)
termination_by structural v => v

/-- Compares elements place by place; a shorter list comes first. -/
def compareEach : List Value → List Value → Ordering
  | [], [] => .eq
  | [], _ :: _ => .lt
  | _ :: _, [] => .gt
  | v :: vs, w :: ws => (v.compare w).then (compareEach vs ws)
termination_by structural vs => vs

/-- Compares entries place by place, keys first; a shorter list comes first. -/
def compareEntries : List (String × Value) → List (String × Value) → Ordering
  | [], [] => .eq
  | [], _ :: _ => .lt
  | _ :: _, [] => .gt
  | (k, v) :: es, (l, w) :: fs =>
    ((Ord.compare k l).then (v.compare w)).then (compareEntries es fs)
termination_by structural es => es

end

end TypedData.Value
