import TypedData.Value.Basic
import TypedData.Wire.Error

/-!
# Values as JSON

A value is written for a slot of some type. In a `dynamic` slot it is written as an object of
itself and its type. JSON has no unknown values; they are written as objects with one reserved
key, which no known value may use. Numbers keep all their digits. Marks are not written.

## Main definitions

* `Json.ofUnknown` — unknowns
* `Value.toJson` — a value in a slot
* `Value.encodeJson` — the text of a value in a slot
-/

namespace TypedData

namespace Json

/-- The value of the reserved key. -/
def unknownWord : String := "unknown"

/-- A bound on a number. -/
def ofBound (b : NumberBound) : Json := .array [.string b.value.plain, .bool b.inclusive]

/-- A natural number. -/
def ofNat (n : Nat) : Json := .number (Nat.repr n)

/-- A field of a refinement that may be absent. -/
def refinementField (name : String) : Option Json → List (String × Json)
  | some j => [(name, j)]
  | none => []

/-- The fields of a refinement. -/
def refinementFields (r : Refinement) : List (String × Json) :=
  refinementField "is_known_null" (if r.notNull then some (.bool false) else none) ++
    refinementField "string_prefix" (r.startsWith.map .string) ++
    refinementField "number_lower_bound" (r.lower.map ofBound) ++
    refinementField "number_upper_bound" (r.upper.map ofBound) ++
    refinementField "collection_length_lower_bound" (r.lengthLower.map ofNat) ++
    refinementField "collection_length_upper_bound" (r.lengthUpper.map ofNat)

/-- An unknown value. -/
def ofUnknown (r : Refinement) : Json :=
  match refinementFields r with
  | [] => .object [(unknownKey, .string unknownWord)]
  | fields => .object [(unknownKey, .string unknownWord), ("refinements", .object fields)]

end Json

namespace Value

/-- Puts its type beside what is written into a `dynamic` slot. -/
def wrapJson (slot own : Ty) (body : Except EncodeError Json) : Except EncodeError Json :=
  if slot.isDynamic then
    -- A fault in the value counts before a type without a text.
    match body with
    | .error e => .error e
    | .ok inner =>
      match own.toJson with
      | .error e => .error ⟨.json, [], .noTypeText e⟩
      | .ok t => .ok (.object [("value", inner), ("type", t)])
  else body

/-- The refusal of contents that do not go with a slot. -/
def unfitJson (own slot : Ty) : Except EncodeError Json := .error ⟨.json, [], .unfit own slot⟩

/-- Writes entries unless one of them has the reserved key. -/
def unlessReserved (es : List (String × Value)) (body : Except EncodeError Json) :
    Except EncodeError Json :=
  if es.any (·.1 == unknownKey) then .error ⟨.json, [], .reservedKey⟩ else body

mutual

/-- A value as written into a slot. -/
def toJson (slot : Ty) : Value → Except EncodeError Json
  | ⟨_, .null, _⟩ => .ok .null
  | ⟨_, .unknown r, _⟩ => .ok (.ofUnknown r)
  | ⟨own, .bool b, _⟩ =>
    wrapJson slot own <|
      match slot.slotType own with
      | .bool => .ok (.bool b)
      | t => unfitJson own t
  | ⟨own, .number n, _⟩ =>
    wrapJson slot own <|
      match slot.slotType own with
      | .number => .ok (.number n.plain)
      | t => unfitJson own t
  | ⟨own, .string s, _⟩ =>
    wrapJson slot own <|
      match slot.slotType own with
      | .string => .ok (.string s)
      | t => unfitJson own t
  | ⟨own, .items vs, _⟩ =>
    wrapJson slot own <|
      match slot.slotType own with
      | .list t | .set t => (itemsToJson 0 (List.replicate vs.length t) vs).map .array
      | .tuple ts =>
        if vs.length = ts.length then (itemsToJson 0 ts vs).map .array
        else unfitJson own (.tuple ts)
      | t => unfitJson own t
  | ⟨own, .entries es, _⟩ =>
    wrapJson slot own <|
      match slot.slotType own with
      | .map t => unlessReserved es ((entriesToJson (fun _ => some t) es).map .object)
      | .object attrs =>
        unlessReserved es
          ((entriesToJson (fun k => (Attr.find? attrs k).map (·.ty)) es).map .object)
      | t => unfitJson own t
  | ⟨own, .capsule _, _⟩ => wrapJson slot own (.error ⟨.json, [], .capsule⟩)

/-- Elements as written into slots one by one, from position `i` on. -/
def itemsToJson (i : Nat) (slots : List Ty) : List Value → Except EncodeError (List Json)
  | [] => .ok []
  | v :: vs =>
    match v.toJson (slots.headD .dynamic) with
    | .error e => .error (e.inside (.index i))
    | .ok j => (itemsToJson (i + 1) slots.tail vs).map (j :: ·)

/-- Entries as written into the slots of their keys. -/
def entriesToJson (slotOf : String → Option Ty) :
    List (String × Value) → Except EncodeError (List (String × Json))
  | [] => .ok []
  | (k, v) :: es =>
    match slotOf k with
    | none => .error ⟨.json, [], .unsupportedAttribute k⟩
    | some slot =>
      match v.toJson slot with
      | .error e => .error (e.inside (.key k))
      | .ok j => (entriesToJson slotOf es).map ((k, j) :: ·)

end

/-- The text of a value in a slot. -/
def encodeJson (slot : Ty) (v : Value) : Except EncodeError String :=
  (v.toJson slot).map Json.compact

end Value

end TypedData
