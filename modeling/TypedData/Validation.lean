import TypedData.Conversion
import TypedData.Inference
import TypedData.Wire.Members

/-!
# Validation

Native data becomes a value of a type, or the first fault in it is reported with its place. A
`dynamic` type is decided by the data. Data that has a type already is accepted if that type is
assignable.

## Main definitions

* `ValidationError` — why native data is no value of a type
* `Native.validate` — native data as a value of a type
-/

namespace TypedData

/-! ### Errors -/

/-- What was found instead of what was expected. -/
inductive Found where
  /-- Native data, by what the host calls it. -/
  | native (kind : String)
  /-- A value of a type. -/
  | value (ty : Ty)
deriving Inhabited

/-- What was found, in words. -/
def Found.text : Found → String
  | native kind => kind
  | value ty => "value of type " ++ ty.name

/-- What is wrong with native data. -/
inductive ValidationReason where
  | mismatch (expected : Ty) (found : Found)
  | badNumber (text : String)
  | notRepresentable (text : String)
  | mapKeyNotString (kind : String)
  | duplicateMapKey (key : String)
  | nameNotString (kind : String)
  | missingAttribute (name : String)
  | extraneousAttribute (name : String)
  | duplicateName (name : String)
  | tupleLength (expected found : Nat)
  | capsuleMismatch (expected : String) (found : Found)
  | tooDeep (limit : Nat)
  /-- Nothing is wrong with the data as such: the notation of a number overflowed while an error
  about it was put together, and the program stopped. -/
  | stopped
deriving Inhabited

/-- The wording of a reason, or of the stop. -/
def ValidationReason.message : ValidationReason → String
  | mismatch expected found => "expected " ++ expected.name ++ ", found " ++ found.text
  | badNumber s => Text.quoted s ++ " is not a valid number"
  | notRepresentable s => s ++ " cannot be represented as a number"
  | mapKeyNotString kind => "map keys must be strings, found key of type " ++ kind
  | duplicateMapKey key => "duplicate map key " ++ Text.quoted key ++ " after normalization"
  | nameNotString kind => "object keys must be strings, found key of type " ++ kind
  | missingAttribute name => "missing required attribute " ++ Text.quoted name
  | extraneousAttribute name => "unsupported attribute " ++ Text.quoted name
  | duplicateName name => "duplicate attribute " ++ Text.quoted name ++ " after normalization"
  | tupleLength expected found =>
    "tuple requires " ++ Nat.repr expected ++ " elements, found " ++ Nat.repr found
  | capsuleMismatch expected found =>
    "expected capsule " ++ expected ++ ", found " ++ found.text
  | tooDeep limit => "nesting exceeds the maximum depth of " ++ Nat.repr limit
  | stopped => "attempt to negate with overflow"

/-- A fault in native data and its place. -/
structure ValidationError where
  path : Path
  reason : ValidationReason
deriving Inhabited

namespace ValidationError

/-- The wording of a validation error. -/
def message (e : ValidationError) : String := e.path.located ++ e.reason.message

/-- The same error seen from one level further out. -/
def inside (step : Step) (e : ValidationError) : ValidationError :=
  { e with path := step :: e.path }

end ValidationError

namespace Native

/-! ### Parts of validation -/

/-- The refusal of data whose kind does not go with a type. -/
def refuse {α : Type} (ty : Ty) (raw : Native) : Except ValidationError α :=
  .error ⟨[],
    match ty with
    | .capsule c => .capsuleMismatch c.name (.native raw.kindName)
    | ty => .mismatch ty (.native raw.kindName)⟩

/-- A value as a value of a type. In a `dynamic` place it keeps its own type. -/
def accept (limits : Limits) (ty : Ty) (v : Value) : Except ValidationError Value :=
  if v.ty == ty || ty.isDynamic then .ok v
  else if !v.ty.usableAs ty then .error ⟨[], .mismatch ty (.value v.ty)⟩
  else
    match v.retype? ty with
    | some w => .ok w
    | none =>
      (v.convert limits ty).mapError fun e => ⟨e.path, .mismatch e.target (.value e.source)⟩

/-- A number within a bound on its exponent. Texts are read as literals. -/
def toNumber (limits : Limits) (raw : Native) : Except ValidationError Decimal :=
  match raw with
  | .int n => .ok (Decimal.ofInt n)
  | .number n =>
    if n.withinExponent limits.maxNumberExponent then .ok n
    else .error ⟨[], n.scientific?.elim .stopped .badNumber⟩
  | .float f =>
    match f.shortest?.filter (·.withinExponent limits.maxNumberExponent) with
    | some n => .ok n
    | none => .error ⟨[], .notRepresentable f.text⟩
  | .string s =>
    match Decimal.ofText s limits.maxNumberExponent with
    | .ok n => .ok n
    | .error _ => .error ⟨[], .badNumber s⟩
  | raw => refuse .number raw

/-- Data without members. -/
def validateScalar (limits : Limits) (ty : Ty) (raw : Native) : Except ValidationError Value :=
  match ty, raw with
  | .bool, .bool b => .ok (.bool b)
  | .number, raw => (toNumber limits raw).map Value.number
  | .string, .string s => .ok (.string s)
  | .string, .bytes b =>
    match Text.Utf8.toString? b with
    | some s => .ok (.string s)
    | none => refuse ty raw
  | .capsule c, .capsule h =>
    if h.kind.same c then .ok (.capsule h)
    else .error ⟨[], .capsuleMismatch c.name (.value (.capsule h.kind))⟩
  | ty, raw => refuse ty raw

/-- The types of `n` items under a type, unless they do not go with it. -/
def itemTypes (ty : Ty) (raw : Native) (n : Nat) : Except ValidationError (List Ty) :=
  match ty, raw with
  | .set t, _ => .ok (List.replicate n t)
  -- What has no order is nothing but a set.
  | ty, .set _ => refuse ty raw
  | .list t, _ => .ok (List.replicate n t)
  | .tuple ts, _ =>
    if n = ts.length then .ok ts else .error ⟨[], .tupleLength ts.length n⟩
  | ty, raw => refuse ty raw

/-- A member by its key as given, validated or not. -/
abbrev Member := Native × Except ValidationError Value

/-- The entries of a map from its members. `seen` holds the keys before. -/
def gatherMap (seen : List String) : List Member → Except ValidationError (Entries Value)
  | [] => .ok []
  | (k, r) :: rest =>
    match k.asKey? with
    | none => .error ⟨[], .mapKeyNotString k.kindName⟩
    | some s =>
      let key := Text.nfc s
      if seen.contains key then .error ⟨[], .duplicateMapKey key⟩
      else
        match r with
        | .error e => .error (e.inside (.key key))
        | .ok v => (gatherMap (key :: seen) rest).map ((key, v) :: ·)

/-- The members of an object under their names. `seen` holds the names before. -/
def gatherNames (seen : List String) :
    List Member → Except ValidationError (List (String × Except ValidationError Value))
  | [] => .ok []
  | (k, r) :: rest =>
    match k.asKey? with
    | none => .error ⟨[], .nameNotString k.kindName⟩
    | some s =>
      let key := Text.nfc s
      if seen.contains key then .error ⟨[], .duplicateName key⟩
      else (gatherNames (key :: seen) rest).map ((key, r) :: ·)

/-- The attributes in the order of declaration. What is not there is null if it may be left
out. -/
def declaredMembers (attrs : List (Attr Ty))
    (members : List (String × Except ValidationError Value)) :
    List (String × Except ValidationError Value) :=
  attrs.map fun a =>
    (a.name,
      match members.find? (·.1 == a.name) with
      | some (_, r) => r.mapError (·.inside (.attr a.name))
      | none =>
        if a.isOptional then .ok (.null a.ty)
        else .error ⟨[.attr a.name], .missingAttribute a.name⟩)

/-- An object of its members: names first, then attributes that are not declared, then the
declared ones in their order. -/
def objectOf (ty : Ty) (attrs : List (Attr Ty)) (members : List Member) :
    Except ValidationError Value :=
  match gatherNames [] members with
  | .error e => .error e
  | .ok members =>
    match Wire.undeclared? attrs (members.map (·.1)) with
    | some k => .error ⟨[.attr k], .extraneousAttribute k⟩
    | none =>
      (Ty.firstError (declaredMembers attrs members)).map fun es =>
        Value.mapping ty (Value.sortEntries es)

/-- The type that data is validated under: in place of `dynamic` the type of the data
itself, if it has one. -/
def decidedType (limits : Limits) (depth : Nat) (ty : Ty) (raw : Native) :
    Except ValidationError Ty :=
  if ty.isDynamic then
    let t := raw.infer (limits.maxDepth - depth)
    if t.isDynamic then refuse ty raw else .ok t
  else .ok ty

/-- The type of a member under a key as given. -/
def memberType (attrs : List (Attr Ty)) (key : Native) : Ty :=
  (key.asKey?.map fun s => Wire.attrType attrs (Text.nfc s)).getD .dynamic

/-! ### Validation -/

mutual

/-- Native data as a value of a type, inside `depth` containers. -/
def validateAt (limits : Limits) (depth : Nat) (ty : Ty) (raw : Native) :
    Except ValidationError Value :=
  if limits.maxDepth < depth then .error ⟨[], .tooDeep limits.maxDepth⟩
  else
    match raw with
    -- Nothing at all is a null of every type, and a value brings its own type along.
    | .absent => .ok (.null ty)
    | .value v => accept limits ty v
    | raw =>
      match decidedType limits depth ty raw with
      | .error e => .error e
      | .ok ty =>
        match raw with
        | .list items =>
          match itemTypes ty (.list items) items.length with
          | .error e => .error e
          | .ok types =>
            (validateItems limits (depth + 1) 0 types items).map (Value.sequence ty)
        | .tuple items =>
          match itemTypes ty (.tuple items) items.length with
          | .error e => .error e
          | .ok types =>
            (validateItems limits (depth + 1) 0 types items).map (Value.sequence ty)
        | .set items =>
          match itemTypes ty (.set items) items.length with
          | .error e => .error e
          | .ok types =>
            (validateItems limits (depth + 1) 0 types items).map (Value.sequence ty)
        | .map entries =>
          match ty with
          | .map t =>
            (gatherMap [] (validateEntries limits (depth + 1) (fun _ => t) entries)).map
              fun es => Value.mapping ty (Value.sortEntries es)
          | .object attrs =>
            objectOf ty attrs (validateEntries limits (depth + 1) (memberType attrs) entries)
          | ty => refuse ty (.map entries)
        | raw => validateScalar limits ty raw
termination_by structural raw

/-- Items as values of several types one by one, from position `i` on. -/
def validateItems (limits : Limits) (depth i : Nat) (types : List Ty) :
    List Native → Except ValidationError (List Value)
  | [] => .ok []
  | raw :: rest =>
    match validateAt limits depth (types.headD .dynamic) raw with
    | .error e => .error (e.inside (.index i))
    | .ok v => (validateItems limits depth (i + 1) types.tail rest).map (v :: ·)
termination_by structural items => items

/-- The values of entries beside their keys as given. -/
def validateEntries (limits : Limits) (depth : Nat) (typeOf : Native → Ty) :
    List (Native × Native) → List Member
  | [] => []
  | (k, raw) :: rest =>
    (k, validateAt limits depth (typeOf k) raw) :: validateEntries limits depth typeOf rest
termination_by structural entries => entries

end

/-- Native data as a value of a type. -/
def validate (limits : Limits) (ty : Ty) (raw : Native) : Except ValidationError Value :=
  validateAt limits 0 ty raw

end Native

end TypedData
