import TypedData.Decimal.Literal
import TypedData.Wire.ToJson

/-!
# Descriptions of values

A fixture says what a value should be by plain JSON: numbers as texts in decimal notation,
unknown values as the object that stands for them on the wire.

## Main definitions

* `Value.describe` — the description of a value
* `Value.describedBy` — whether a description fits a value
-/

namespace TypedData.Value

/-! ### Describing -/

mutual

/-- The description of a value. Capsules have none. -/
def describe : Value → Except EncodeError Json
  | ⟨ty, .unknown r, m⟩ => toJson ty ⟨ty, .unknown r, m⟩
  | ⟨_, .null, _⟩ => .ok .null
  | ⟨_, .bool b, _⟩ => .ok (.bool b)
  | ⟨_, .number n, _⟩ => .ok (.string n.plain)
  | ⟨_, .string s, _⟩ => .ok (.string s)
  | ⟨_, .items vs, _⟩ => (describeEach vs).map .array
  | ⟨_, .entries es, _⟩ => (describeEntries es).map .object
  | ⟨_, .capsule _, _⟩ => .error ⟨.json, [], .capsule⟩

/-- The descriptions of several values. -/
def describeEach : List Value → Except EncodeError (List Json)
  | [] => .ok []
  | v :: vs =>
    match v.describe with
    | .error e => .error e
    | .ok j => (describeEach vs).map (j :: ·)

/-- The descriptions of several entries. -/
def describeEntries : Entries Value → Except EncodeError (List (String × Json))
  | [] => .ok []
  | (k, v) :: es =>
    match v.describe with
    | .error e => .error e
    | .ok j => (describeEntries es).map ((k, j) :: ·)

end

/-! ### Checking -/

/-- Whether JSON stands for an unknown value. -/
def describesUnknown : Json → Bool
  | .object fields => (Json.field? fields unknownKey).isSome
  | _ => false

/-- Whether JSON is null. -/
def describesNull : Json → Bool
  | .null => true
  | _ => false

/-- The number that a description gives, as a text or as a number, if it is one. The outer
result says whether it can be the description of a number at all. -/
def describedNumber? : Json → Option (Option Decimal)
  | .string s => some (Decimal.ofText s Decimal.defaultMaxExponent).toOption
  | .number s => some (Decimal.ofText s Decimal.defaultMaxExponent).toOption
  | _ => none

/-- Whether two numbers agree, or neither is there. -/
def sameNumber : Option Decimal → Option Decimal → Bool
  | none, none => true
  | some a, some b => a.same b
  | _, _ => false

/-- Whether a description fits what a value without members holds. -/
def scalarDescribedBy (v : Value) (j : Json) : Bool :=
  match v.ty with
  | .bool => j.asBool? == v.asBool?
  | .string => j.asString? == v.asString?
  | .number =>
    match describedNumber? j with
    | some n => sameNumber n v.asNumber?
    | none => false
  | _ => false

mutual

/-- Whether a description fits a value. Elements of sets may stand in any order, and an
attribute without a description is null. -/
def describedBy (j : Json) : Value → Bool
  | ⟨ty, .unknown r, m⟩ =>
    describesUnknown j || (!describesNull j && scalarDescribedBy ⟨ty, .unknown r, m⟩ j)
  | ⟨_, .null, _⟩ => !describesUnknown j && describesNull j
  | ⟨ty, .items vs, _⟩ =>
    match ty, j with
    -- Two descriptions in a set may fit the same element.
    | .set _, .array js => js.length == vs.length && js.all fun j => describesSome j vs
    | .list _, .array js => js.length == vs.length && describesEach js vs
    | .tuple _, .array js => js.length == vs.length && describesEach js vs
    | _, _ => false
  | ⟨ty, .entries es, _⟩ =>
    !describesUnknown j &&
      match ty, j with
      | .map _, .object fields => fields.all (Entries.hasKey es ·.1) && describesEntries fields es
      | .object _, .object fields =>
        fields.all (Entries.hasKey es ·.1) && describesEntries fields es
      | _, _ => false
  | ⟨ty, c, m⟩ => !describesUnknown j && !describesNull j && scalarDescribedBy ⟨ty, c, m⟩ j

/-- Whether a description fits some of several values. -/
def describesSome (j : Json) : List Value → Bool
  | [] => false
  | v :: vs => describedBy j v || describesSome j vs

/-- Whether descriptions fit several values one by one. -/
def describesEach : List Json → List Value → Bool
  | j :: js, v :: vs => describedBy j v && describesEach js vs
  | _, _ => true

/-- Whether the fields of a description fit several entries. -/
def describesEntries (fields : List (String × Json)) : Entries Value → Bool
  | [] => true
  | (k, v) :: es =>
    describedBy ((Json.field? fields k).getD .null) v && describesEntries fields es

end

end TypedData.Value
