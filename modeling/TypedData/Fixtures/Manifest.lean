import TypedData.Fixtures.Description
import TypedData.Json.Reader
import TypedData.Wire.OfJson
import TypedData.Wire.OfMsgpack

/-!
# Manifests of fixtures

A manifest names fixtures. For each of them it tells the type under which it was written,
whether it is unknown or null, and else what it holds.

## Main definitions

* `Fixture` — what a manifest tells about a fixture
* `Fixture.accepts` — whether some bytes are what a fixture should be
* `Manifest.read?`, `Manifest.toJson` — manifests as text and as JSON
-/

namespace TypedData

/-- What a manifest tells about a fixture. -/
structure Fixture where
  ty : Ty
  description : Json
  isUnknown : Bool
  isNull : Bool
deriving Inhabited

/-- Fixtures by their names. -/
abbrev Manifest := List (String × Fixture)

namespace Fixture

/-! ### Text -/

/-- The names of the fields, in order. -/
def fieldNames : List String := ["type", "value", "isUnknown", "isNull"]

/-- A fixture as JSON. -/
def toJson (f : Fixture) : Except Ty.NoText Json :=
  f.ty.toJson.map fun ty =>
    .object
      (fieldNames.zip [ty, f.description, .bool f.isUnknown, .bool f.isNull])

/-- A fixture from the parts that describe it. -/
def ofParts? : List Json → Option Fixture
  | [ty, description, isUnknown, isNull] => do
    let ty ← (Ty.ofJson ty).toOption
    some ⟨ty, description, ← isUnknown.asBool?, ← isNull.asBool?⟩
  | _ => none

/-- A fixture from JSON: an object, where more fields do no harm, or the four parts as an
array. -/
def ofJson? : Json → Option Fixture
  | .object fields => (fieldNames.mapM (Json.field? fields)).bind ofParts?
  | .array parts => ofParts? parts
  | _ => none

/-! ### Checking -/

/-- Whether two unknown values are known to be the same way. -/
def sameRefinement (v w : Value) : Bool :=
  match v.refinement?, w.refinement? with
  | none, none => true
  | some r, some s => r.same s
  | _, _ => false

/-- Whether some bytes are what a fixture should be. -/
def accepts (f : Fixture) (bytes : List UInt8) : Bool :=
  match Value.decodeMsgpack .default f.ty bytes with
  | .error _ => false
  | .ok v =>
    if f.isUnknown then
      v.isUnknown &&
        match Value.decodeJson .default f.ty (Text.Utf8.ofString f.description.compact) with
        | .error _ => false
        | .ok w => sameRefinement v w
    else if f.isNull then v.isNull
    else v.isKnown && v.describedBy f.description

end Fixture

namespace Manifest

/-- Whether an object inside the outermost one gives one of the fields of a fixture twice.
`depth` counts what is open, and `seen` holds the names so far. -/
def repeatsField (depth : Nat) (seen : List String) : List Json.Token → Bool
  | [] => false
  | .string name :: .colon :: rest =>
    if depth = 2 ∧ Fixture.fieldNames.contains name then
      seen.contains name || repeatsField depth (name :: seen) rest
    else repeatsField depth seen rest
  | .openObject :: rest => repeatsField (depth + 1) (if depth = 1 then [] else seen) rest
  | .openArray :: rest => repeatsField (depth + 1) seen rest
  | .closeObject :: rest => 1 < depth && repeatsField (depth - 1) seen rest
  | .closeArray :: rest => 1 < depth && repeatsField (depth - 1) seen rest
  | _ :: rest => repeatsField depth seen rest

/-- The manifest that a text starts with. The manifest and its fixtures are records. -/
def read? (text : List Char) : Option Manifest :=
  match Json.readFirstRecords 2 text with
  | .ok (.object fields) =>
    if repeatsField 0 [] (Json.Token.ofText text) then none
    else fields.mapM fun (name, j) => (Fixture.ofJson? j).map fun f => (name, f)
  | _ => none

/-- A manifest as JSON. -/
def toJson (m : Manifest) : Except Ty.NoText Json :=
  (Ty.firstError (m.map fun (name, f) => (name, f.toJson))).map .object

end Manifest

end TypedData
