import TypedData.Path.Basic
import TypedData.Ty.Text
import TypedData.Decimal.Literal
import TypedData.Msgpack.Reader

/-!
# Errors of wire formats

An encoding fails at a place in a value; a decoding fails at a place in a type. Decoding errors
tell the shape of what was found instead of its contents.

## Main definitions

* `WireFormat`, `WireShape` — formats, and coarse shapes of what they carry
* `EncodeError` — why a value has no encoding
* `DecodeError` — why some bytes hold no value of a type
-/

namespace TypedData

/-- A wire format. -/
inductive WireFormat where
  | json
  | msgpack
deriving Repr, DecidableEq, Inhabited

/-- The name of a format. -/
def WireFormat.name : WireFormat → String
  | json => "json"
  | msgpack => "msgpack"

/-- The shape of something on the wire. -/
inductive WireShape where
  | null
  | scalar
  | list
  | dict
  | extension
  /-- Bytes that could not be read at all. -/
  | malformed
deriving Repr, DecidableEq, Inhabited

/-- The name of a shape. -/
def WireShape.name : WireShape → String
  | null => "null"
  | scalar => "scalar"
  | list => "list"
  | dict => "dict"
  | extension => "ext"
  | malformed => "malformed"

/-- The key of the object that stands for an unknown value in JSON. -/
def unknownKey : String := "$pyvider-cty-special-value"

/-! ### Encoding -/

/-- Why a value cannot be encoded. -/
inductive EncodeReason where
  /-- The type of a value in a `dynamic` slot has no text. -/
  | noTypeText (cause : Ty.NoText)
  | unsupportedAttribute (name : String)
  /-- A key that would make an object read as an unknown value. -/
  | reservedKey
  | unfit (found slot : Ty)
  | capsule
deriving Inhabited

/-- The wording of a reason. -/
def EncodeReason.message : EncodeReason → String
  | noTypeText cause => (Ty.TextError.noText cause).message
  | unsupportedAttribute name => "unsupported attribute " ++ Text.quoted name
  | reservedKey => "key " ++ Text.quoted unknownKey ++ " is reserved for unknown values"
  | unfit found slot => "value of type " ++ found.name ++ " does not fit " ++ slot.name
  | capsule => "capsule values cannot be serialized"

/-- A value that cannot be encoded, and where in it the fault lies. -/
structure EncodeError where
  format : WireFormat
  path : Path
  reason : EncodeReason
deriving Inhabited

namespace EncodeError

/-- The wording of an encoding error. -/
def message (e : EncodeError) : String :=
  e.format.name ++ " encode failed " ++ e.path.located ++ e.reason.message

/-- The same error seen from one level further out. -/
def inside (step : Step) (e : EncodeError) : EncodeError := { e with path := step :: e.path }

end EncodeError

/-! ### Decoding -/

/-- What is wrong with the payload of a refined unknown in MessagePack. -/
inductive PayloadFault where
  | unreadable (cause : Msgpack.ReadError)
  | notMap
  | keyNotInteger
  | nullness
  | start
  | bound
  | length
deriving Repr, DecidableEq, Inhabited

/-- The wording of a fault. -/
def PayloadFault.message : PayloadFault → String
  | unreadable cause => cause.message
  | notMap => "payload is not a map"
  | keyNotInteger => "keys must be integers"
  | nullness => "nullness must be a bool"
  | start => "string prefix"
  | bound => "number bound must be [number, bool]"
  | length => "length bound"

/-- Why something on the wire is no value of a type. -/
inductive DecodeReason where
  | unreadableJson (cause : Json.ReadError)
  | unreadableMsgpack (cause : Msgpack.ReadError)
  | trailingBytes (count : Nat)
  | tooDeep (limit : Nat)
  /-- The shape does not go with the type. -/
  | mismatch
  /-- A `dynamic` slot without a type beside its value. -/
  | noWrapper
  | wrapperTypeNotText
  | badWrapperType (cause : Ty.TextError)
  | wrapperTypeDynamic
  | badLiteral (cause : Decimal.LiteralError)
  | badNumber
  | notText
  | length (expected found : Nat)
  | keyNotText (found : WireShape)
  | duplicateKey (key : String)
  | unsupportedAttribute (name : String)
  | capsule
  /-- A field of the refinements of an unknown in JSON. -/
  | badRefinementField (name : String)
  | badRefinementPayload (fault : PayloadFault)
deriving Inhabited

/-- Something on the wire that is no value of a type. The path leads to the fault, and
`expected` is the type there. -/
structure DecodeFailure where
  path : Path
  expected : Ty
  shape : WireShape
  reason : DecodeReason
deriving Inhabited

/-- The same failure seen from one level further out. -/
def DecodeFailure.inside (step : Step) (e : DecodeFailure) : DecodeFailure :=
  { e with path := step :: e.path }

/-- A failure to decode some bytes in a format. -/
structure DecodeError extends DecodeFailure where
  format : WireFormat
  byteLength : Nat
deriving Inhabited

namespace DecodeError

/-- The wording of the reason. -/
def reasonText (e : DecodeError) : String :=
  match e.reason with
  | .unreadableJson cause => cause.message
  | .unreadableMsgpack cause => cause.message
  | .trailingBytes n => Nat.repr n ++ " trailing bytes"
  | .tooDeep limit => "nesting exceeds the maximum depth of " ++ Nat.repr limit
  | .mismatch => "cannot decode " ++ e.shape.name ++ " as " ++ e.expected.name
  | .noWrapper =>
    match e.format with
    | .json => "expected a \x7b\"value\", \"type\"\x7d wrapper"
    | .msgpack => "expected a [type, value] wrapper"
  | .wrapperTypeNotText => "wrapper type must be JSON bytes"
  | .badWrapperType cause =>
    match e.format with
    | .json => cause.message
    | .msgpack => "bad dynamic type: " ++ cause.message
  | .wrapperTypeDynamic => "wrapped type must be concrete"
  | .badLiteral cause => cause.message
  | .badNumber => "not a valid number within the exponent bound"
  | .notText => "string is not valid UTF-8"
  | .length expected found =>
    "expected " ++ Nat.repr expected ++ " elements, found " ++ Nat.repr found
  | .keyNotText found => "map keys must be strings, found " ++ found.name
  | .duplicateKey key => "duplicate key " ++ Text.quoted key ++ " after normalization"
  | .unsupportedAttribute name => "unsupported attribute " ++ Text.quoted name
  | .capsule => "capsule values cannot be decoded"
  | .badRefinementField name => "malformed refinement " ++ name
  | .badRefinementPayload fault => "malformed refinement: " ++ fault.message

/-- The wording of a decoding error. -/
def message (e : DecodeError) : String :=
  e.format.name ++ " decode of " ++ Nat.repr e.byteLength ++ " bytes failed " ++
    e.path.located ++ e.reasonText ++ " (found " ++ e.shape.name ++ ", expected " ++
    e.expected.name ++ ")"

end DecodeError

end TypedData
