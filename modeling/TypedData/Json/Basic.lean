/-!
# JSON values

Objects keep their fields in the order in which the names first appear, and numbers keep their
text, so that no digit is lost before the type of a value is known.

## Main definitions

* `Json` — JSON values
* `Json.insertField` — a repeated name keeps its place and takes the last value
-/

namespace TypedData

/-- A JSON value. -/
inductive Json where
  | null
  | bool (value : Bool)
  /-- A number by its text. -/
  | number (text : String)
  | string (value : String)
  | array (items : List Json)
  /-- Fields in the order of first appearance, with distinct names. -/
  | object (fields : List (String × Json))
deriving Repr, Inhabited

namespace Json

/-- Sets a field: a name that is present keeps its place and takes the new value. -/
def insertField (fields : List (String × Json)) (key : String) (value : Json) :
    List (String × Json) :=
  match fields with
  | [] => [(key, value)]
  | (k, v) :: rest => if k = key then (k, value) :: rest else (k, v) :: insertField rest key value

/-- The value of a field. -/
def field? (fields : List (String × Json)) (key : String) : Option Json :=
  (fields.find? (·.1 == key)).map (·.2)

/-- The text of a string value. -/
def asString? : Json → Option String
  | string s => some s
  | _ => none

/-- The truth value of a boolean. -/
def asBool? : Json → Option Bool
  | bool b => some b
  | _ => none

end Json

end TypedData
