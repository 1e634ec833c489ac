import TypedData.Value.Basic

/-!
# Equality of values

There are two notions. As data, values are equal when their types and contents are, whatever
their marks; nothing is known of an unknown value, so it equals nothing, not even itself. Taken
as they are, values are identical when also refinements and marks agree at every depth.

## Main definitions

* `Value.same` — equality as data
* `Value.identical` — equality of everything
-/

namespace TypedData.Value

mutual

/-- Equality as data. -/
def same : Value → Value → Bool
  | ⟨t, c, _⟩, ⟨u, d, _⟩ =>
    t == u &&
      match c, d with
      | .null, .null => true
      | .bool a, .bool b => a == b
      | .number a, .number b => a.same b
      | .string a, .string b => a == b
      | .items vs, .items ws => sameEach vs ws
      | .entries es, .entries fs => sameEntries es fs
      | .capsule a, .capsule b => a.same b
      -- Also two unknowns: what they stand for may differ.
      | _, _ => false
termination_by structural v => v

/-- Equality place by place. -/
def sameEach : List Value → List Value → Bool
  | [], [] => true
  | v :: vs, w :: ws => v.same w && sameEach vs ws
  | _, _ => false
termination_by structural vs => vs

/-- Equality entry by entry. -/
def sameEntries : Entries Value → Entries Value → Bool
  | [], [] => true
  | (k, v) :: es, (l, w) :: fs => k == l && v.same w && sameEntries es fs
  | _, _ => false
termination_by structural es => es

end

instance : BEq Value := ⟨same⟩

mutual

/-- Equality of everything: types, contents, refinements, and marks at every depth. -/
def identical : Value → Value → Bool
  | ⟨t, c, m⟩, ⟨u, d, n⟩ =>
    t == u && m == n &&
      match c, d with
      | .null, .null => true
      | .unknown a, .unknown b => a.same b
      | .bool a, .bool b => a == b
      | .number a, .number b => a.same b
      | .string a, .string b => a == b
      | .items vs, .items ws => identicalEach vs ws
      | .entries es, .entries fs => identicalEntries es fs
      | .capsule a, .capsule b => a.same b
      | _, _ => false
termination_by structural v => v

/-- Equality of everything, place by place. -/
def identicalEach : List Value → List Value → Bool
  | [], [] => true
  | v :: vs, w :: ws => v.identical w && identicalEach vs ws
  | _, _ => false
termination_by structural vs => vs

/-- Equality of everything, entry by entry. -/
def identicalEntries : Entries Value → Entries Value → Bool
  | [], [] => true
  | (k, v) :: es, (l, w) :: fs => k == l && v.identical w && identicalEntries es fs
  | _, _ => false
termination_by structural es => es

end

end TypedData.Value
