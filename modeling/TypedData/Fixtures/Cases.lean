import TypedData.Fixtures.Manifest

/-!
# Canonical fixtures

One case for every form that values take on the wire.

## Main definitions

* `Fixture.Case`, `Fixture.cases` — the cases in the order of their names
* `Fixture.Case.fixture` — what a manifest tells about a case
-/

namespace TypedData.Fixture

/-- A value, and the type under which it is written. -/
structure Case where
  name : String
  value : Value
  slot : Ty
deriving Inhabited

namespace Case

/-- A case written under the type of its value. -/
def plain (name : String) (value : Value) : Case := ⟨name, value, value.ty⟩

/-- What a manifest tells about a case. -/
def fixture (c : Case) : Except EncodeError Fixture :=
  c.value.describe.map fun j => ⟨c.slot, j, c.value.isUnknown, c.value.isNull⟩

/-- The bytes of a case. -/
def bytes (c : Case) : Except EncodeError (List UInt8) := c.value.encodeMsgpack c.slot

end Case

/-! ### Values -/

/-- An integer. -/
def integer (n : Int) : Value := .number (.ofInt n)

/-- A pair of a string and an integer. -/
def pair (s : String) (n : Int) : Value :=
  .sequence (.tuple [.string, .number]) [.string s, integer n]

/-- The type of the parameters of a service. -/
def configType : Ty := .ofAttributes [("retries", .number), ("params", .map .string)]

/-- The type of a service. Its metadata may be left out. -/
def serviceType : Ty :=
  .object
    [⟨"id", .string, false⟩, ⟨"enabled", .bool, false⟩, ⟨"ports", .list .number, false⟩,
      ⟨"config", configType, false⟩, ⟨"metadata", .map .string, true⟩, ⟨"extra", .string, false⟩]

/-- A service with something left out and something unknown. -/
def service : Value :=
  .mapping serviceType
    [("config",
        .mapping configType
          [("params", .mapping (.map .string) [("timeout", .string "10s")]),
            ("retries", integer 3)]),
      ("enabled", .bool true), ("extra", .unknown .string), ("id", .string "rs-obj1"),
      ("metadata", .null (.map .string)),
      ("ports", .sequence (.list .number) [integer 8080, integer 8443])]

/-! ### Cases -/

/-- The cases in the order of their names. -/
def cases : List Case :=
  [.plain "bool_true" (.bool true),
    .plain "deeply_nested_object" service,
    ⟨"dynamic_wrapped_object",
      .mapping (.ofAttributes [("key", .string)]) [("key", .string "rs-value")], .dynamic⟩,
    ⟨"dynamic_wrapped_string", .string "dynamic from rust", .dynamic⟩,
    .plain "large_number" (integer (Nat.pow 2 128)),
    .plain "list_of_strings" (.sequence (.list .string) [.string "rs-a", .string "rs-b"]),
    .plain "map_simple" (.mapping (.map .bool) [("rs_a", .bool true), ("rs_b", .bool false)]),
    .plain "null_string" (.null .string),
    .plain "number_simple" (integer 12345),
    .plain "set_of_numbers"
      (.sequence (.set .number) [integer 300, integer 100, integer 200]),
    .plain "set_of_tuples" (.sequence (.set (.tuple [.string, .number])) [pair "a" 1, pair "b" 2]),
    .plain "string_simple" (.string "hello from rust"),
    .plain "unknown_refined_list"
      (.unknownRefined (.list .string) ((Refinement.none.withLengthLower 1).withLengthUpper 5)),
    .plain "unknown_refined_num"
      (.unknownRefined .number
        ((Refinement.none.withLower (.ofInt 100) true).withUpper (.ofInt 200) false)),
    .plain "unknown_refined_str" (.unknownRefined .string (Refinement.none.withStart "rs-")),
    .plain "unknown_unrefined" (.unknown .number)]

end TypedData.Fixture
