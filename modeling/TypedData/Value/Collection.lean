import TypedData.Value.Order

/-!
# Building containers

Containers are brought into one form when they are built. A list, set or map with an unknown
element is unknown itself, since neither its contents nor, for a set, its size are certain; it
keeps every mark that was inside. Sets are put in order, and elements that are equal as data
are merged.

## Main definitions

* `Value.canonicalSet` — elements in order, without repetition
* `Value.sequence` — a list, set or tuple of elements
* `Value.mapping` — a map or object of entries
-/

namespace TypedData.Value

/-- Merges each element into the one before it if they are equal as data. What is kept takes
on the marks of what goes. -/
def mergeEqual (kept : Value) : List Value → List Value
  | [] => [kept]
  | v :: rest =>
    if v == kept then mergeEqual (kept.withMarks v.marks) rest
    else kept :: mergeEqual v rest

/-- Elements in order, without repetition. The first of several equal ones is kept. -/
def canonicalSet (vs : List Value) : List Value :=
  match vs.mergeSort fun a b => (a.compare b).isLE with
  | [] => []
  | v :: rest => mergeEqual v rest

/-- The unknown that a collection of `n` elements becomes when one of them is unknown. Elements
of a set may still turn out equal, so only the greatest size is certain. -/
def collapsed (ty : Ty) (vs : List Value) : Value :=
  let r := Refinement.none.withNotNull
  let r := if ty.isSet then r.withLengthUpper vs.length else r.withLength vs.length
  (unknownRefined ty r).withMarks (deepMarksOf vs)

/-- A list, set or tuple of elements. -/
def sequence (ty : Ty) (vs : List Value) : Value :=
  match ty with
  | .list _ => if vs.any isUnknown then collapsed ty vs else ofContent ty (.items vs)
  | .set _ =>
    if vs.any isUnknown then collapsed ty vs else ofContent ty (.items (canonicalSet vs))
  -- Tuples have a place for every element, known or not.
  | _ => ofContent ty (.items vs)

/-- A map or object of entries. -/
def mapping (ty : Ty) (es : Entries Value) : Value :=
  if ty.isCollection && (es.map (·.2)).any isUnknown then collapsed ty (es.map (·.2))
  else ofContent ty (.entries es)

end TypedData.Value
