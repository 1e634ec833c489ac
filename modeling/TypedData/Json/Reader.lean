import TypedData.Json.Token
import TypedData.Text.Utf8

/-!
# Reading JSON

A reader goes over the tokens once, with a stack of the arrays and objects that are open. At
most 127 of them may be open at a time. The first fault in the order of the text decides the
error.

A number can also be spelled out as an object: one field under a reserved name, which holds the
text of the number. The name is reserved where it comes first; after another field it is a name
like any other. Records, whose fields are known beforehand, are never numbers, so a reader is
told how many outermost levels hold records.

## Main definitions

* `Json.Reader` — what is expected next, and what is open
* `Json.read` — the value a whole text holds
* `Json.readFirst` — the first value of a text, whatever follows it
* `Json.readFirstRecords` — the same for records
* `Json.readBytes`, `Json.readFirstBytes` — the same for bytes
-/

namespace TypedData.Json

/-- Why a text is not read. -/
inductive ReadError where
  /-- The text is not JSON. -/
  | malformed
  /-- Too many arrays and objects are open. -/
  | tooDeep
deriving Repr, DecidableEq, Inhabited

/-- The wording of a read error. -/
def ReadError.message : ReadError → String
  | malformed => "<json syntax>"
  | tooDeep => "recursion limit exceeded"

/-- How many arrays and objects may be open at a time. -/
def maxOpen : Nat := 127

/-- The name under which an object holds the text of a number. -/
def numberName : String := "$serde_json::private::Number"

/-- An array or object that is open. -/
inductive Frame where
  /-- The items before the current one, last first. -/
  | array (done : List Json)
  /-- The fields before the current one, and its name. -/
  | object (done : List (String × Json)) (key : String)
deriving Inhabited

/-- What a reader expects, inside the open frames, innermost first. -/
inductive Reader where
  /-- A value. -/
  | value (stack : List Frame)
  /-- The first item of an array, or its end. -/
  | firstItem (stack : List Frame)
  /-- The first name of an object, or its end. -/
  | firstName (stack : List Frame)
  /-- Another name of an object. -/
  | name (done : List (String × Json)) (stack : List Frame)
  /-- The colon after a name. -/
  | colon (done : List (String × Json)) (key : String) (stack : List Frame)
  /-- A comma or the end of an array, whose items stand last first. -/
  | afterItem (done : List Json) (stack : List Frame)
  /-- A comma or the end of an object. -/
  | afterField (done : List (String × Json)) (stack : List Frame)
  /-- The colon after the reserved name. -/
  | numberColon (stack : List Frame)
  /-- The text of a number that is spelled out. -/
  | numberText (stack : List Frame)
  /-- The end of an object that spells out a number. -/
  | numberEnd (text : String) (stack : List Frame)
  /-- Nothing: a whole value has been read. -/
  | finished (value : Json)
deriving Inhabited

namespace Reader

/-- A value is complete and goes to the innermost open frame. -/
def complete (j : Json) : List Frame → Reader
  | [] => finished j
  | .array done :: stack => afterItem (j :: done) stack
  | .object done key :: stack => afterField (insertField done key j) stack

/-- A token that starts a value. -/
def start (stack : List Frame) : Token → Except ReadError Reader
  | .null => .ok (complete .null stack)
  | .bool b => .ok (complete (.bool b) stack)
  | .number t => .ok (complete (.number t) stack)
  | .string s => .ok (complete (.string s) stack)
  | .openArray => if stack.length < maxOpen then .ok (firstItem stack) else .error .tooDeep
  | .openObject => if stack.length < maxOpen then .ok (firstName stack) else .error .tooDeep
  | _ => .error .malformed

/-- After the first name of an object. -/
def afterFirstName (records : Nat) (key : String) (stack : List Frame) : Reader :=
  if key = numberName ∧ records ≤ stack.length then numberColon stack else colon [] key stack

/-- One token further, where objects with fewer than `records` frames around them are records. -/
def step (records : Nat) : Reader → Token → Except ReadError Reader
  | value stack, t => start stack t
  | firstItem stack, .closeArray => .ok (complete (.array []) stack)
  | firstItem stack, t => start (.array [] :: stack) t
  | firstName stack, .closeObject => .ok (complete (.object []) stack)
  | firstName stack, .string key => .ok (afterFirstName records key stack)
  | name done stack, .string key => .ok (colon done key stack)
  | colon done key stack, .colon => .ok (value (.object done key :: stack))
  | afterItem done stack, .comma => .ok (value (.array done :: stack))
  | afterItem done stack, .closeArray => .ok (complete (.array done.reverse) stack)
  | afterField done stack, .comma => .ok (name done stack)
  | afterField done stack, .closeObject => .ok (complete (.object done) stack)
  | numberColon stack, .colon => .ok (numberText stack)
  | numberText stack, .string s =>
    match Token.wholeNumber? s.toList with
    | some t => .ok (numberEnd t stack)
    | none => .error .malformed
  | numberEnd t stack, .closeObject => .ok (complete (.number t) stack)
  | _, _ => .error .malformed

/-- Reads until a value is complete, and gives the tokens after it. -/
def run (records : Nat) : Reader → List Token → Except ReadError (Json × List Token)
  | finished j, ts => .ok (j, ts)
  | _, [] => .error .malformed
  | r, t :: ts =>
    match step records r t with
    | .ok r => run records r ts
    | .error e => .error e

end Reader

/-- The first value of a text, whatever follows it, with records on the outermost levels. -/
def readFirstRecords (records : Nat) (cs : List Char) : Except ReadError Json :=
  (Reader.run records (.value []) (Token.ofText cs)).map (·.1)

/-- The first value of a text, whatever follows it. -/
def readFirst (cs : List Char) : Except ReadError Json := readFirstRecords 0 cs

/-- The value a whole text holds. -/
def read (cs : List Char) : Except ReadError Json :=
  match Reader.run 0 (.value []) (Token.ofText cs) with
  | .ok (j, []) => .ok j
  | .ok _ => .error .malformed
  | .error e => .error e

/-- Some bytes as text. Bytes that are not text become a control character, which no token
holds. -/
def textOfBytes (bytes : List UInt8) : List Char :=
  match Text.Utf8.split bytes with
  | (cs, []) => cs
  | (cs, _) => cs ++ ['\x00']

/-- The value some bytes hold. -/
def readBytes (bytes : List UInt8) : Except ReadError Json := read (textOfBytes bytes)

/-- The first value of some bytes, whatever follows it. -/
def readFirstBytes (bytes : List UInt8) : Except ReadError Json := readFirst (textOfBytes bytes)

end TypedData.Json
