import TypedData.Binary64.Basic

/-!
# MessagePack values

## Main definitions

* `Msgpack` — MessagePack values
-/

namespace TypedData

/-- A MessagePack value. Strings are kept as bytes, which need not be text. -/
inductive Msgpack where
  | nil
  | bool (value : Bool)
  | int (value : Int)
  | float32 (bits : UInt32)
  | float64 (value : Binary64)
  | str (bytes : List UInt8)
  | bin (bytes : List UInt8)
  | array (items : List Msgpack)
  | map (entries : List (Msgpack × Msgpack))
  /-- Bytes under an application's own tag. -/
  | ext (tag : Int) (bytes : List UInt8)
deriving Repr, Inhabited

end TypedData
