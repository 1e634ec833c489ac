import TypedData.Ty.Name
import TypedData.Json.Reader

/-!
# Types as text

Types travel as JSON: `"string"`, `["list",T]`, `["tuple",[T,...]]`, `["object",{"name":T,...}]`
and `["object",{...},["optional name",...]]`. Attributes and optional names are written in
order, so that equal types have equal texts. Capsule types have no text.

## Main definitions

* `Ty.toJson`, `Ty.ofJson` — types as JSON values
* `Ty.toText`, `Ty.ofText` — types as compact text
* `Ty.TextError` — why a description is not a type
-/

namespace TypedData.Ty

/-! ### Writing -/

/-- A capsule type in a type that was to be written. -/
structure NoText where
  /-- The name of the capsule type. -/
  capsule : String
deriving Repr, DecidableEq, Inhabited

/-- A list without errors, or the first error of a list. -/
def firstError {ε α : Type} : List (String × Except ε α) → Except ε (List (String × α))
  | [] => .ok []
  | (k, r) :: rest =>
    match r with
    | .error e => .error e
    | .ok a => (firstError rest).map ((k, a) :: ·)

/-- The names of optional attributes as a third part, which is left out if there are none. -/
def optionalPart (names : List String) : List Json :=
  if names.isEmpty then [] else [.array (names.map .string)]

mutual

/-- A type as JSON. -/
def toJson : Ty → Except NoText Json
  | bool => .ok (.string "bool")
  | number => .ok (.string "number")
  | string => .ok (.string "string")
  | dynamic => .ok (.string "dynamic")
  | list t => t.toJson.map fun j => .array [.string "list", j]
  | set t => t.toJson.map fun j => .array [.string "set", j]
  | map t => t.toJson.map fun j => .array [.string "map", j]
  | tuple ts => (elemsToJson ts).map fun js => .array [.string "tuple", .array js]
  | object attrs =>
    (firstError ((attrsToJson attrs).mergeSort fun a b => decide (a.1 ≤ b.1))).map fun fields =>
      .array ([.string "object", .object fields] ++ optionalPart (Attr.optionalNames attrs))
  | capsule c => .error ⟨c.name⟩

/-- Several types as JSON. -/
def elemsToJson : List Ty → Except NoText (List Json)
  | [] => .ok []
  | t :: ts =>
    match t.toJson with
    | .error e => .error e
    | .ok j => (elemsToJson ts).map (j :: ·)

/-- Each attribute by its name and its type as JSON. -/
def attrsToJson : List (Attr Ty) → List (String × Except NoText Json)
  | [] => []
  | ⟨name, t, _⟩ :: as => (name, t.toJson) :: attrsToJson as

end

/-! ### Reading -/

/-- Why a description is not a type. -/
inductive TextError where
  /-- The text is not JSON. -/
  | unreadable (cause : Json.ReadError)
  | unknownPrimitive (name : String)
  /-- An array that does not start with the name of a kind. -/
  | kindMissing
  /-- A kind that is unknown or has other parts than it needs. -/
  | invalidKind (kind : String)
  /-- Neither a string nor an array, by its text. -/
  | notDescription (found : String)
  | optionalNotString
  | unknownOptional (cause : UnknownOptional)
  /-- The type has no text. -/
  | noText (cause : NoText)
deriving Repr, DecidableEq, Inhabited

/-- The wording of what is wrong with a description. -/
def TextError.message : TextError → String
  | .unknownOptional e => e.message
  | .unreadable e => describe e.message
  | .unknownPrimitive name => describe ("unknown primitive type " ++ Text.quoted name)
  | .kindMissing => describe "type array must start with a kind name"
  | .invalidKind kind => describe ("invalid " ++ Text.quoted kind ++ " type specification")
  | .notDescription found => describe ("expected a string or array, found " ++ found)
  | .optionalNotString => describe "optional attribute names must be strings"
  | .noText e => describe ("capsule(" ++ e.capsule ++ ") has no wire representation")
where
  describe (s : String) : String := "malformed type description: " ++ s

/-- The type of a primitive's name. -/
def ofPrimitiveName (name : String) : Except TextError Ty :=
  if name = "bool" then .ok bool
  else if name = "number" then .ok number
  else if name = "string" then .ok string
  else if name = "dynamic" then .ok dynamic
  else .error (.unknownPrimitive name)

/-- The strings of a list of names. -/
def optionalNamesOf : List Json → Except TextError (List String)
  | [] => .ok []
  | .string s :: rest => (optionalNamesOf rest).map (s :: ·)
  | _ :: _ => .error .optionalNotString

/-- The object type of attributes and optional names. -/
def ofObjectParts (attrs : List (String × Ty)) (optional : List Json) : Except TextError Ty :=
  match optionalNamesOf optional with
  | .error e => .error e
  | .ok names =>
    match ofAttributesWithOptional attrs names with
    | .error e => .error (.unknownOptional e)
    | .ok t => .ok t

mutual

/-- The type a JSON value describes. -/
def ofJson : Json → Except TextError Ty
  | .string name => ofPrimitiveName name
  | .array [.string kind, .array parts] =>
    if kind = "tuple" then (ofJsonElems parts).map .tuple
    else if kind = "list" then (ofJson (.array parts)).map .list
    else if kind = "set" then (ofJson (.array parts)).map .set
    else if kind = "map" then (ofJson (.array parts)).map .map
    else .error (.invalidKind kind)
  | .array [.string kind, .object fields] =>
    if kind = "object" then
      match ofJsonFields fields with
      | .error e => .error e
      | .ok attrs => ofObjectParts attrs []
    -- An element type that is an object describes no type.
    else if kind = "list" ∨ kind = "set" ∨ kind = "map" then
      .error (.notDescription (Json.object fields).compact)
    else .error (.invalidKind kind)
  | .array [.string kind, .object fields, .array optional] =>
    if kind = "object" then
      match ofJsonFields fields with
      | .error e => .error e
      | .ok attrs => ofObjectParts attrs optional
    else .error (.invalidKind kind)
  | .array [.string kind, part] =>
    if kind = "list" then (ofJson part).map .list
    else if kind = "set" then (ofJson part).map .set
    else if kind = "map" then (ofJson part).map .map
    else .error (.invalidKind kind)
  | .array (.string kind :: _) => .error (.invalidKind kind)
  | .array _ => .error .kindMissing
  | other => .error (.notDescription other.compact)

/-- The types several JSON values describe. -/
def ofJsonElems : List Json → Except TextError (List Ty)
  | [] => .ok []
  | j :: js =>
    match ofJson j with
    | .error e => .error e
    | .ok t => (ofJsonElems js).map (t :: ·)

/-- The attributes that the fields of an object describe. -/
def ofJsonFields : List (String × Json) → Except TextError (List (String × Ty))
  | [] => .ok []
  | (name, j) :: fs =>
    match ofJson j with
    | .error e => .error e
    | .ok t => (ofJsonFields fs).map ((name, t) :: ·)

end

/-! ### Text -/

/-- The text of a type. -/
def toText (t : Ty) : Except TextError String :=
  match t.toJson with
  | .ok j => .ok j.compact
  | .error e => .error (.noText e)

/-- The type that JSON read from somewhere describes. -/
def ofRead : Except Json.ReadError Json → Except TextError Ty
  | .ok j => ofJson j
  | .error e => .error (.unreadable e)

/-- The type a whole text describes. -/
def ofText (s : String) : Except TextError Ty := ofRead (Json.read s.toList)

/-- The type some bytes describe. -/
def ofBytes (bytes : List UInt8) : Except TextError Ty := ofRead (Json.readBytes bytes)

/-- The type that the first JSON value of some bytes describes, whatever follows it. -/
def ofFirstOfBytes (bytes : List UInt8) : Except TextError Ty :=
  ofRead (Json.readFirstBytes bytes)

end TypedData.Ty
