import TypedData.Wire.Members

/-!
# Values from MessagePack

What is on the wire is read under the type of its slot. Bytes under any tag are an unknown; in
a `dynamic` slot a pair of a type's text and a value is expected. Texts may also come as plain
bytes.

## Main definitions

* `Msgpack.toValue` — a value of a type
* `Value.decodeMsgpack` — a value of a type from bytes
-/

namespace TypedData

namespace Msgpack

/-- The shape of a value. -/
def shape : Msgpack → WireShape
  | nil => .null
  | array _ => .list
  | map _ => .dict
  | ext _ _ => .extension
  | _ => .scalar

/-- The text of a value. -/
def asText? : Msgpack → Option String
  | str bytes | bin bytes => Text.Utf8.toString? bytes
  | _ => none

/-- The truth value of a boolean. -/
def asBool? : Msgpack → Option Bool
  | bool b => some b
  | _ => none

/-- A natural number. -/
def asNat? : Msgpack → Option Nat
  | int n => if 0 ≤ n then some n.toNat else none
  | _ => none

/-- A number within a bound on its exponent: an integer, a floating-point number with its exact
value, or a literal. -/
def asNumber? (maxExponent : Nat) : Msgpack → Option Decimal
  | int n => (some (Decimal.ofInt n)).filter (·.withinExponent maxExponent)
  | float64 f => f.value?.filter (·.withinExponent maxExponent)
  | float32 bits => (Binary64.ofBinary32 bits).value?.filter (·.withinExponent maxExponent)
  | m => m.asText?.bind fun s => (Decimal.ofText s maxExponent).toOption

/-! ### Refinements -/

/-- A bound on a number. -/
def asBound? (maxExponent : Nat) : Msgpack → Option NumberBound
  | array [n, inclusive] => do
    let value ← n.asNumber? maxExponent
    let inclusive ← inclusive.asBool?
    some ⟨value, inclusive⟩
  | _ => none

/-- One entry of a refinement. Unknown keys are skipped. -/
def refine (maxExponent : Nat) (r : Refinement) (key value : Msgpack) :
    Except PayloadFault Refinement :=
  match key.asNat? with
  | none => .error .keyNotInteger
  | some 1 =>
    match value.asBool? with
    | some false => .ok r.withNotNull
    | some true => .ok r
    | none => .error .nullness
  | some 2 =>
    match value.asText? with
    | some s => .ok (r.withStart s)
    | none => .error .start
  | some 3 =>
    match value.asBound? maxExponent with
    | some b => .ok (r.withLower b.value b.inclusive)
    | none => .error .bound
  | some 4 =>
    match value.asBound? maxExponent with
    | some b => .ok (r.withUpper b.value b.inclusive)
    | none => .error .bound
  | some 5 =>
    match value.asNat? with
    | some n => .ok (r.withLengthLower n)
    | none => .error .length
  | some 6 =>
    match value.asNat? with
    | some n => .ok (r.withLengthUpper n)
    | none => .error .length
  | some _ => .ok r

/-- The entries of a refinement in turn. -/
def refineAll (maxExponent : Nat) (r : Refinement) :
    List (Msgpack × Msgpack) → Except PayloadFault Refinement
  | [] => .ok r
  | (k, v) :: rest =>
    match refine maxExponent r k v with
    | .error e => .error e
    | .ok r => refineAll maxExponent r rest

/-- The budget under which the payload of a refined unknown is read. -/
def payloadBudget : Nat := 1024

/-- The refinement in the payload of a refined unknown. Bytes after it are ignored. -/
def readRefinement (maxExponent : Nat) (bytes : List UInt8) : Except PayloadFault Refinement :=
  match readValue payloadBudget bytes with
  | .error e => .error (.unreadable e)
  | .ok (.map entries, _) => refineAll maxExponent .none entries
  | .ok _ => .error .notMap

/-! ### Values -/

/-- A failure at a place. -/
def failAt {α : Type} (ty : Ty) (m : Msgpack) (reason : DecodeReason) :
    Except DecodeFailure α :=
  .error ⟨[], ty, m.shape, reason⟩

/-- The refusal of something whose shape does not go with a type. -/
def unexpected {α : Type} (ty : Ty) (m : Msgpack) : Except DecodeFailure α :=
  failAt ty m <|
    match ty with
    | .dynamic => .noWrapper
    | .capsule _ => .capsule
    | _ => .mismatch

/-- A value without members. -/
def toScalar (limits : Limits) (ty : Ty) (m : Msgpack) : Except DecodeFailure Value :=
  match ty, m with
  | .bool, .bool b => .ok (.bool b)
  | .number, .int _ | .number, .float32 _ | .number, .float64 _ | .number, .str _
  | .number, .bin _ =>
    match m.asNumber? limits.maxNumberExponent with
    | some n => .ok (.number n)
    | none => failAt ty m .badNumber
  | .string, .str _ | .string, .bin _ =>
    match m.asText? with
    | some s => .ok (.string s)
    | none => failAt ty m .notText
  | _, _ => unexpected ty m

/-- The keys of entries. -/
def keysOf (entries : List (Msgpack × Msgpack)) : Except DecodeReason (List String) :=
  Wire.distinctKeys [] <| entries.map fun (k, _) =>
    match k.asText? with
    | some s => .ok s
    | none => .error (.keyNotText k.shape)

/-- The concrete type beside a value in a `dynamic` slot. -/
def wrappedType (spec : Msgpack) : Except DecodeReason Ty :=
  match spec.asText? with
  | none => .error .wrapperTypeNotText
  | some s =>
    match Ty.ofText s with
    | .error e => .error (.badWrapperType e)
    | .ok t => if t.isDynamic then .error .wrapperTypeDynamic else .ok t

mutual

/-- A value of a type, inside `depth` containers. -/
def toValue (limits : Limits) (depth : Nat) (ty : Ty) (m : Msgpack) :
    Except DecodeFailure Value :=
  if limits.maxDepth < depth then failAt ty m (.tooDeep limits.maxDepth)
  else
    match m with
    | .nil => .ok (.null ty)
    -- Unknowns fit every slot, and every tag but one stands for a plain unknown.
    | .ext tag bytes =>
      if tag = refinedTag then
        match readRefinement limits.maxNumberExponent bytes with
        | .ok r => .ok (.unknownRefined ty r)
        | .error e => failAt ty m (.badRefinementPayload e)
      else .ok (.unknown ty)
    | .array items =>
      match ty with
      | .dynamic =>
        match items with
        | [spec, inner] =>
          match wrappedType spec with
          | .ok t => toValue limits (depth + 1) t inner
          | .error e => failAt ty (.array [spec, inner]) e
        | items => unexpected ty (.array items)
      | .list t | .set t =>
        (itemsToValues limits (depth + 1) 0 (List.replicate items.length t) items).map
          (Value.sequence ty)
      | .tuple ts =>
        if items.length = ts.length then
          (itemsToValues limits (depth + 1) 0 ts items).map (Value.sequence ty)
        else failAt ty (.array items) (.length ts.length items.length)
      | ty => unexpected ty (.array items)
    | .map entries =>
      match ty with
      | .map t =>
        match keysOf entries with
        | .error e => failAt ty (.map entries) e
        | .ok keys => Wire.mapOf ty (entriesToMembers limits (depth + 1) (fun _ => t) keys entries)
      | .object attrs =>
        match keysOf entries with
        | .error e => failAt ty (.map entries) e
        | .ok keys =>
          match Wire.undeclared? attrs keys with
          | some k => failAt ty (.map entries) (.unsupportedAttribute k)
          | none =>
            Wire.objectOf ty attrs
              (entriesToMembers limits (depth + 1) (Wire.attrType attrs) keys entries)
      | ty => unexpected ty (.map entries)
    | m => toScalar limits ty m
termination_by structural m

/-- Values of several types one by one, from position `i` on. -/
def itemsToValues (limits : Limits) (depth i : Nat) (types : List Ty) :
    List Msgpack → Except DecodeFailure (List Value)
  | [] => .ok []
  | m :: ms =>
    match toValue limits depth (types.headD .dynamic) m with
    | .error e => .error (e.inside (.index i))
    | .ok v => (itemsToValues limits depth (i + 1) types.tail ms).map (v :: ·)
termination_by structural ms => ms

/-- The values of entries, under their keys in composed form. -/
def entriesToMembers (limits : Limits) (depth : Nat) (typeOf : String → Ty) (keys : List String) :
    List (Msgpack × Msgpack) → List Wire.Member
  | [] => []
  | (_, m) :: rest =>
    let key := keys.headD ""
    (key, toValue limits depth (typeOf key) m) ::
      entriesToMembers limits depth typeOf keys.tail rest
termination_by structural es => es

end

/-- The greatest budget for nesting that a reader takes. -/
def maxBudget : Nat := 65535

end Msgpack

/-- A value of a type from bytes. No bytes at all are a null. Each level of nesting may cost a
container and its wrapper, hence the budget. -/
def Value.decodeMsgpack (limits : Limits) (ty : Ty) (bytes : List UInt8) :
    Except DecodeError Value :=
  let located (e : DecodeFailure) : DecodeError := ⟨e, .msgpack, bytes.length⟩
  let unreadable (r : DecodeReason) : DecodeError := located ⟨[], ty, .malformed, r⟩
  if bytes.isEmpty then .ok (.null ty)
  else
    match Msgpack.readValue (min (2 * limits.maxDepth + 1) Msgpack.maxBudget) bytes with
    | .error e => .error (unreadable (.unreadableMsgpack e))
    | .ok (m, []) => (m.toValue limits 0 ty).mapError located
    | .ok (_, rest) => .error (unreadable (.trailingBytes rest.length))

end TypedData
