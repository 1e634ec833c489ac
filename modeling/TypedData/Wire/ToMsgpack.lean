import TypedData.Binary64.Approximate
import TypedData.Value.Basic
import TypedData.Wire.Error
import TypedData.Text.Utf8

/-!
# Values as MessagePack

A value is written for a slot of some type. In a `dynamic` slot it is written as a pair of its
type's text and itself; nulls and unknowns are written alike in every slot. Marks are not
written.

Unknowns are tagged bytes: tag 0 for a plain unknown, tag 12 for a refined one, whose bytes are
a map from small integers. A number takes the first exact form of an integer, a
floating-point number, and its decimal text.

## Main definitions

* `Msgpack.ofNumber`, `Msgpack.ofUnknown` — numbers and unknowns
* `Value.toMsgpack` — a value in a slot
* `Value.encodeMsgpack` — the bytes of a value in a slot
-/

namespace TypedData

namespace Msgpack

/-- A text. -/
def ofText (s : String) : Msgpack := .str (Text.Utf8.ofString s)

/-- A number in its most compact exact form. -/
def ofNumber (n : Decimal) : Msgpack :=
  match n.toInt64? with
  | some i => .int i
  | none =>
    match Binary64.ofDecimal? n with
    | some f => .float64 f
    | none => ofText n.plain

/-- The tag of a plain unknown. -/
def unknownTag : Int := 0

/-- The tag of a refined unknown. -/
def refinedTag : Int := 12

/-- A bound on a number. -/
def ofBound (b : NumberBound) : Msgpack :=
  .array [.bin (Text.Utf8.ofString b.value.plain), .bool b.inclusive]

/-- The entry of a refinement that may be absent. -/
def refinementEntry (key : Int) : Option Msgpack → List (Msgpack × Msgpack)
  | some m => [(.int key, m)]
  | none => []

/-- The entries of a refinement. Key 1 stands for nullness, 2 for the beginning of a text, 3
and 4 for the bounds of a number, 5 and 6 for the bounds of a length. -/
def refinementEntries (r : Refinement) : List (Msgpack × Msgpack) :=
  refinementEntry 1 (if r.notNull then some (.bool false) else none) ++
    refinementEntry 2 (r.startsWith.map ofText) ++
    refinementEntry 3 (r.lower.map ofBound) ++
    refinementEntry 4 (r.upper.map ofBound) ++
    refinementEntry 5 (r.lengthLower.map fun n => .int n) ++
    refinementEntry 6 (r.lengthUpper.map fun n => .int n)

/-- An unknown value. -/
def ofUnknown (r : Refinement) : Msgpack :=
  match refinementEntries r with
  | [] => .ext unknownTag [0]
  | entries => .ext refinedTag (write (.map entries))

end Msgpack

namespace Value

/-- Puts the text of its type beside what is written into a `dynamic` slot. -/
def wrapMsgpack (slot own : Ty) (body : Except EncodeError Msgpack) :
    Except EncodeError Msgpack :=
  if slot.isDynamic then
    -- A type without a text counts before a fault in the value.
    match own.toJson with
    | .error e => .error ⟨.msgpack, [], .noTypeText e⟩
    | .ok j => body.map fun m => .array [.bin (Text.Utf8.ofString j.compact), m]
  else body

/-- The refusal of contents that do not go with a slot. -/
def unfitMsgpack (own slot : Ty) : Except EncodeError Msgpack :=
  .error ⟨.msgpack, [], .unfit own slot⟩

mutual

/-- A value as written into a slot. -/
def toMsgpack (slot : Ty) : Value → Except EncodeError Msgpack
  | ⟨_, .null, _⟩ => .ok .nil
  | ⟨_, .unknown r, _⟩ => .ok (.ofUnknown r)
  | ⟨own, .bool b, _⟩ =>
    wrapMsgpack slot own <|
      match slot.slotType own with
      | .bool => .ok (.bool b)
      | t => unfitMsgpack own t
  | ⟨own, .number n, _⟩ =>
    wrapMsgpack slot own <|
      match slot.slotType own with
      | .number => .ok (.ofNumber n)
      | t => unfitMsgpack own t
  | ⟨own, .string s, _⟩ =>
    wrapMsgpack slot own <|
      match slot.slotType own with
      | .string => .ok (.ofText s)
      | t => unfitMsgpack own t
  | ⟨own, .items vs, _⟩ =>
    wrapMsgpack slot own <|
      match slot.slotType own with
      | .list t | .set t => (itemsToMsgpack 0 (List.replicate vs.length t) vs).map .array
      | .tuple ts =>
        if vs.length = ts.length then (itemsToMsgpack 0 ts vs).map .array
        else unfitMsgpack own (.tuple ts)
      | t => unfitMsgpack own t
  | ⟨own, .entries es, _⟩ =>
    wrapMsgpack slot own <|
      match slot.slotType own with
      | .map t => (entriesToMsgpack (fun _ => some t) es).map .map
      | .object attrs =>
        (entriesToMsgpack (fun k => (Attr.find? attrs k).map (·.ty)) es).map .map
      | t => unfitMsgpack own t
  | ⟨own, .capsule _, _⟩ => wrapMsgpack slot own (.error ⟨.msgpack, [], .capsule⟩)

/-- Elements as written into slots one by one, from position `i` on. -/
def itemsToMsgpack (i : Nat) (slots : List Ty) :
    List Value → Except EncodeError (List Msgpack)
  | [] => .ok []
  | v :: vs =>
    match v.toMsgpack (slots.headD .dynamic) with
    | .error e => .error (e.inside (.index i))
    | .ok m => (itemsToMsgpack (i + 1) slots.tail vs).map (m :: ·)

/-- Entries as written into the slots of their keys. -/
def entriesToMsgpack (slotOf : String → Option Ty) :
    List (String × Value) → Except EncodeError (List (Msgpack × Msgpack))
  | [] => .ok []
  | (k, v) :: es =>
    match slotOf k with
    | none => .error ⟨.msgpack, [], .unsupportedAttribute k⟩
    | some slot =>
      match v.toMsgpack slot with
      | .error e => .error (e.inside (.key k))
      | .ok m => (entriesToMsgpack slotOf es).map ((.ofText k, m) :: ·)

end

/-- The bytes of a value in a slot. -/
def encodeMsgpack (slot : Ty) (v : Value) : Except EncodeError (List UInt8) :=
  (v.toMsgpack slot).map Msgpack.write

end Value

end TypedData
