import TypedData.Wire.Members
import TypedData.Wire.ToJson

/-!
# Values from JSON

What is on the wire is read under the type of its slot. An object whose reserved key says so is
an unknown, whatever the slot; in a `dynamic` slot an object of a value and its type is
expected. Scalars are read leniently: `"true"` is a boolean, `"1.5"` a number, and numbers and
booleans are strings.

## Main definitions

* `Json.toValue` — a value of a type
* `Value.decodeJson` — a value of a type from bytes
-/

namespace TypedData

namespace Json

/-- The shape of a value. -/
def shape : Json → WireShape
  | null => .null
  | array _ => .list
  | object _ => .dict
  | _ => .scalar

/-- The number that a text of digits alone denotes, if it is below `2 ^ 64`. -/
def asWord? : Json → Option Nat
  | number t =>
    let ds := t.toList
    if ds ≠ [] ∧ ds.all Char.isDigit then
      (some (Decimal.natOfDigits ds)).filter (· < Word.unsignedBound)
    else none
  | _ => none

/-! ### Refinements -/

/-- A bound on a number, given as a number or as its text. -/
def asBound? (maxExponent : Nat) : Json → Option NumberBound
  | array [n, inclusive] => do
    let text ← match n with
      | number t => some t
      | string s => some s
      | _ => none
    let value ← (Decimal.ofText text maxExponent).toOption
    let inclusive ← inclusive.asBool?
    some ⟨value, inclusive⟩
  | _ => none

/-- What one field adds to a refinement, if it is there and well formed. -/
def refineField {α : Type} (fields : List (String × Json)) (name : String)
    (get? : Json → Option α) (add : Refinement → α → Refinement) (r : Refinement) :
    Except DecodeReason Refinement :=
  match field? fields name with
  | none => .ok r
  | some j =>
    match get? j with
    | some a => .ok (add r a)
    | none => .error (.badRefinementField name)

/-- The refinement that some fields describe. -/
def readRefinement (maxExponent : Nat) (fields : List (String × Json)) :
    Except DecodeReason Refinement := do
  let r ← refineField fields "is_known_null" asBool?
    (fun r isNull => if isNull then r else r.withNotNull) .none
  let r ← refineField fields "string_prefix" asString? Refinement.withStart r
  let r ← refineField fields "number_lower_bound" (asBound? maxExponent)
    (fun r b => r.withLower b.value b.inclusive) r
  let r ← refineField fields "number_upper_bound" (asBound? maxExponent)
    (fun r b => r.withUpper b.value b.inclusive) r
  let r ← refineField fields "collection_length_lower_bound" asWord?
    Refinement.withLengthLower r
  refineField fields "collection_length_upper_bound" asWord? Refinement.withLengthUpper r

/-- Whether the fields of an object say that it is an unknown. -/
def isUnknown (fields : List (String × Json)) : Bool :=
  (field? fields unknownKey).bind asString? == some unknownWord

/-- The refinement of an unknown. -/
def unknownRefinement (maxExponent : Nat) (fields : List (String × Json)) :
    Except DecodeReason Refinement :=
  match field? fields "refinements" with
  | none => .ok .none
  | some (.object fields) => readRefinement maxExponent fields
  | some _ => .error (.badRefinementField "refinements")

/-! ### Values -/

/-- A failure at a place. -/
def failAt {α : Type} (ty : Ty) (j : Json) (reason : DecodeReason) : Except DecodeFailure α :=
  .error ⟨[], ty, j.shape, reason⟩

/-- The refusal of something whose shape does not go with a type. -/
def unexpected {α : Type} (ty : Ty) (j : Json) : Except DecodeFailure α :=
  failAt ty j <|
    match ty with
    | .dynamic => .noWrapper
    | .capsule _ => .capsule
    | _ => .mismatch

/-- A number from its text. -/
def numberOfText (limits : Limits) (ty : Ty) (j : Json) (text : String) :
    Except DecodeFailure Value :=
  match Decimal.ofText text limits.maxNumberExponent with
  | .ok n => .ok (.number n)
  | .error e => failAt ty j (.badLiteral e)

/-- A value without members. -/
def toScalar (limits : Limits) (ty : Ty) (j : Json) : Except DecodeFailure Value :=
  match ty, j with
  | .bool, .bool b => .ok (.bool b)
  | .bool, .string s =>
    if s = "true" then .ok (.bool true)
    else if s = "false" then .ok (.bool false)
    else unexpected ty j
  | .number, .number t => numberOfText limits ty j t
  | .number, .string s => numberOfText limits ty j s
  | .string, .string s => .ok (.string s)
  | .string, .number t => .ok (.string t)
  | .string, .bool b => .ok (.string (if b then "true" else "false"))
  | _, _ => unexpected ty j

/-- The keys of fields. -/
def keysOf (fields : List (String × Json)) : Except DecodeReason (List String) :=
  Wire.distinctKeys [] (fields.map fun (k, _) => .ok k)

/-- The concrete type beside a value in a `dynamic` slot. -/
def wrappedType (spec : Json) : Except DecodeReason Ty :=
  match Ty.ofJson spec with
  | .error e => .error (.badWrapperType e)
  | .ok t => if t.isDynamic then .error .wrapperTypeDynamic else .ok t

mutual

/-- A value of a type, inside `depth` containers. -/
def toValue (limits : Limits) (depth : Nat) (ty : Ty) (j : Json) : Except DecodeFailure Value :=
  if limits.maxDepth < depth then failAt ty j (.tooDeep limits.maxDepth)
  else
    match j with
    | .null => .ok (.null ty)
    | .array items =>
      match ty with
      | .list t | .set t =>
        (itemsToValues limits (depth + 1) 0 (List.replicate items.length t) items).map
          (Value.sequence ty)
      | .tuple ts =>
        if items.length = ts.length then
          (itemsToValues limits (depth + 1) 0 ts items).map (Value.sequence ty)
        else failAt ty (.array items) (.length ts.length items.length)
      | ty => unexpected ty (.array items)
    -- The reserved key is looked for before the type of the slot has a say.
    | .object fields =>
      if isUnknown fields then
        match unknownRefinement limits.maxNumberExponent fields with
        | .ok r => .ok (.unknownRefined ty r)
        | .error e => failAt ty (.object fields) e
      else
        match ty with
        | .dynamic =>
          match fields with
          | [(a, x), (b, y)] =>
            if a = "value" ∧ b = "type" then
              match wrappedType y with
              | .ok t => toValue limits (depth + 1) t x
              | .error e => failAt ty (.object [(a, x), (b, y)]) e
            else if a = "type" ∧ b = "value" then
              match wrappedType x with
              | .ok t => toValue limits (depth + 1) t y
              | .error e => failAt ty (.object [(a, x), (b, y)]) e
            else unexpected ty (.object [(a, x), (b, y)])
          | fields => unexpected ty (.object fields)
        | .map t =>
          match keysOf fields with
          | .error e => failAt ty (.object fields) e
          | .ok keys =>
            Wire.mapOf ty (fieldsToMembers limits (depth + 1) (fun _ => t) keys fields)
        | .object attrs =>
          match keysOf fields with
          | .error e => failAt ty (.object fields) e
          | .ok keys =>
            match Wire.undeclared? attrs keys with
            | some k => failAt ty (.object fields) (.unsupportedAttribute k)
            | none =>
              Wire.objectOf ty attrs
                (fieldsToMembers limits (depth + 1) (Wire.attrType attrs) keys fields)
        | ty => unexpected ty (.object fields)
    | j => toScalar limits ty j
termination_by structural j

/-- Values of several types one by one, from position `i` on. -/
def itemsToValues (limits : Limits) (depth i : Nat) (types : List Ty) :
    List Json → Except DecodeFailure (List Value)
  | [] => .ok []
  | j :: js =>
    match toValue limits depth (types.headD .dynamic) j with
    | .error e => .error (e.inside (.index i))
    | .ok v => (itemsToValues limits depth (i + 1) types.tail js).map (v :: ·)
termination_by structural js => js

/-- The values of fields, under their keys in composed form. -/
def fieldsToMembers (limits : Limits) (depth : Nat) (typeOf : String → Ty) (keys : List String) :
    List (String × Json) → List Wire.Member
  | [] => []
  | (_, j) :: rest =>
    let key := keys.headD ""
    (key, toValue limits depth (typeOf key) j) ::
      fieldsToMembers limits depth typeOf keys.tail rest
termination_by structural fs => fs

end

end Json

/-- A value of a type from bytes. -/
def Value.decodeJson (limits : Limits) (ty : Ty) (bytes : List UInt8) :
    Except DecodeError Value :=
  let located (e : DecodeFailure) : DecodeError := ⟨e, .json, bytes.length⟩
  match Json.readBytes bytes with
  | .error e => .error (located ⟨[], ty, .malformed, .unreadableJson e⟩)
  | .ok j => (j.toValue limits 0 ty).mapError located

end TypedData
