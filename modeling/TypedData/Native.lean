import TypedData.Value.Basic
import TypedData.Binary64.Shortest
import TypedData.Json.Basic

/-!
# Native data

Data as a host has it, before it has a type: keys need not be strings, numbers come in several
forms, and values that already have a type may stand anywhere.

## Main definitions

* `Native` — native data
* `Native.ofJson` — JSON as native data
-/

namespace TypedData

/-- Native data. -/
inductive Native where
  /-- Nothing at all. -/
  | absent
  | bool (value : Bool)
  /-- A signed 64-bit integer. -/
  | int (value : Int)
  | float (value : Binary64)
  | number (value : Decimal)
  | string (value : String)
  | bytes (value : List UInt8)
  | list (items : List Native)
  | tuple (items : List Native)
  | set (items : List Native)
  | map (entries : List (Native × Native))
  /-- A value that has a type already. -/
  | value (value : Value)
  | capsule (handle : CapsuleHandle)
deriving Inhabited

namespace Native

/-- What the host calls data of this kind. Messages name the kind and never the data. -/
def kindName : Native → String
  | absent => "NoneType"
  | bool _ => "bool"
  | int _ => "int"
  | float _ => "float"
  | number _ => "Decimal"
  | string _ => "str"
  | bytes _ => "bytes"
  | list _ => "list"
  | tuple _ => "tuple"
  | set _ => "set"
  | map _ => "dict"
  | value _ => "CtyValue"
  | capsule _ => "capsule"

/-- Whether there is nothing at all. -/
def isAbsent : Native → Bool
  | absent => true
  | _ => false

/-- The key that this is, if it is a string or a known string value. -/
def asKey? : Native → Option String
  | string s => some s
  | value v => v.asString?
  | _ => none

/-- The greatest exponent of numbers that come from JSON. -/
def maxJsonExponent : Nat := 4294967295

/-- The floating-point number nearest to a literal, and none for a literal beyond all of
them. -/
def nearestOfLiteral (text : String) : Binary64 :=
  match Decimal.Literal.read? text.toList with
  | some l =>
    let f := Binary64.nearest l.value
    if f.isFinite then f else Binary64.notANumber
  | none => Binary64.notANumber

/-- A JSON number: exact if its exponent is within bounds, and else a floating-point number. -/
def ofJsonNumber (text : String) : Native :=
  match Decimal.ofText text maxJsonExponent with
  | .ok n => number n
  | .error _ => float (nearestOfLiteral text)

mutual

/-- JSON as native data. -/
def ofJson : Json → Native
  | .null => absent
  | .bool b => bool b
  | .number t => ofJsonNumber t
  | .string s => string s
  | .array js => list (ofJsonItems js)
  | .object fs => map (ofJsonFields fs)

/-- Several JSON values as native data. -/
def ofJsonItems : List Json → List Native
  | [] => []
  | j :: js => ofJson j :: ofJsonItems js

/-- The fields of a JSON object as native data. -/
def ofJsonFields : List (String × Json) → List (Native × Native)
  | [] => []
  | (k, j) :: fs => (string k, ofJson j) :: ofJsonFields fs

end

end Native

end TypedData
