import TypedData.Inference
import TypedData.Json.Pointer
import TypedData.Program.Outcome
import TypedData.Settings
import TypedData.Validation
import TypedData.Wire.OfJson
import TypedData.Wire.OfMsgpack

/-!
# Inferring, checking and transcoding files

The tool `cty` infers the type of documents, checks documents against a type, and carries them
between JSON and a wire format.

## Main definitions

* `Transcode.tool` — commands and options
* `Transcode.program` — the program
-/

namespace TypedData.Transcode

open CommandLine

/-! ### Commands and options -/

/-- An option with one value. -/
def option (name : String) (letter : Option Char) (valueName : String) (isRequired : Bool)
    (allowsEmpty : Bool) (description : String) : Parameter :=
  ⟨name, letter, .one, valueName, isRequired, allowsEmpty, [], none, description⟩

/-- Lines are documents of their own. -/
def ndjson : Parameter :=
  ⟨"ndjson", none, .none, "", false, true, [], none,
    "treat input as newline-delimited JSON (NDJSON)"⟩

/-- Which part of a document counts. -/
def jsonPointer : Parameter :=
  option "json-pointer" none "JSON_POINTER" false true
    "JSON Pointer to select a subnode in each document (e.g. /data/items/0/payload)"

/-- Several inputs. -/
def inputs : Parameter :=
  ⟨"input", some 'i', .many, "INPUT", true, true, [], none,
    "One or more inputs. May be literal paths or quoted glob patterns"⟩

/-- One input. -/
def input (description : String) : Parameter :=
  option "input" (some 'i') "INPUT" true false description

/-- Where output goes. -/
def out : Parameter :=
  option "out" (some 'o') "OUT" false false "output file (stdout if omitted)"

/-- The type of documents. -/
def typeSpec : Parameter :=
  option "type" (some 't') "TYPE_SPEC" true true
    "type in wire JSON, e.g. '[\"list\",\"string\"]', or @path to a file holding it"

/-- The wire format. -/
def format : Parameter :=
  ⟨"format", none, .one, "FORMAT", false, true, ["json", "msgpack"], some "msgpack", ""⟩

/-- The options that go with every command. -/
def shared : List Parameter :=
  [option "log-level" none "LOG_LEVEL" false true
      "log filter, e.g. `info` or `cty=debug` (overrides RUST_LOG)",
    option "config" none "CONFIG" false false
      "config file (defaults to ./cty.toml when present)"]

/-- Commands and options. -/
def tool : Tool :=
  ⟨"cty", "infer, check and transcode CTY values", some "0.1.0", shared,
    [⟨"infer", "infer one type covering every input document", [ndjson, jsonPointer, inputs, out]⟩,
      ⟨"validate", "check JSON documents against a type",
        [ndjson, jsonPointer, inputs, typeSpec]⟩,
      ⟨"encode", "JSON document -> wire bytes",
        [typeSpec, format, input "JSON document to encode", out]⟩,
      ⟨"decode", "wire bytes -> JSON", [typeSpec, format, input "wire bytes to decode"]⟩]⟩

/-! ### Reading -/

/-- The file with settings that is used if no other is named. -/
def settingsFile : String := "cty.toml"

/-- The limits that hold. -/
def limits (environment : String → Option String) (a : Arguments) : Task Limits := do
  let file ← match a.get? "config" with
    | some path => pure (some path)
    | none => do pure (if ← Task.isFile settingsFile then some settingsFile else none)
  -- Variables count over the file.
  let base ← match file with
    | some path => do Task.ofExcept SettingsError.message (Limits.ofToml (← Task.readText path))
    | none => pure .default
  Task.ofExcept SettingsError.message (Limits.withVariables environment base)

/-- The type that is asked for, given as text or by a file that holds it. -/
def requestedType (a : Arguments) : Task Ty := do
  let spec := (a.get? "type").getD ""
  let text ← match spec.toList with
    | '@' :: path => Task.readText (String.ofList path)
    | _ => pure spec
  Task.ofExcept Ty.TextError.message (Ty.ofFirstOfBytes (Text.Utf8.ofString text))

/-- The JSON in a text. -/
def jsonOf (text : List Char) : Task Json := Task.ofExcept Json.ReadError.message (Json.read text)

/-- A document: where it came from, and what it holds. -/
abbrev Document := String × Json

/-- The part of a document that counts, if there is one. -/
def selectDocument (a : Arguments) (label : String) (text : List Char) :
    Task (List Document) := do
  let j ← jsonOf text
  match a.get? "json-pointer" with
  | none => pure [(label, j)]
  | some pointer => pure (((j.select? pointer).map fun j => (label, j)).toList)

/-- The documents of a file: one, or one for each line that is not blank. -/
def documentsOf (a : Arguments) (path : String) : Task (List Document) := do
  let text ← Task.readText path
  if a.has "ndjson" then
    let lines := Text.lines text.toList
    let numbered := (List.range lines.length).zip lines
    let documents ← numbered.mapM fun (i, line) =>
      if Text.isAllBlank line then pure []
      else selectDocument a (path ++ ":" ++ Nat.repr (i + 1)) line
    pure documents.flatten
  else selectDocument a path text.toList

/-- The documents of all inputs. -/
def documents (a : Arguments) : Task (List Document) := do
  let paths ← (a.all "input").mapM PathPattern.paths
  pure (← paths.flatten.mapM (documentsOf a)).flatten

/-! ### Commands -/

/-- Writes the type that covers all documents. -/
def inferTypes (a : Arguments) : Task Outcome := do
  let t := Observations.solveJson ((← documents a).map (·.2))
  let text ← Task.ofExcept Ty.TextError.message t.toText
  Task.emit (a.get? "out") (Text.Utf8.ofString (text ++ "\n"))

/-- The verdict on one document: whether it is valid, and a line that says so. -/
def check (limits : Limits) (ty : Ty) (d : Document) : Bool × String :=
  match (Native.ofJson d.2).validate limits ty with
  | .ok _ => (true, "ok " ++ d.1 ++ "\n")
  | .error e => (false, "invalid " ++ d.1 ++ ": " ++ e.message ++ "\n")

/-- Checks documents against a type. -/
def validate (limits : Limits) (a : Arguments) : Task Outcome := do
  let ty ← requestedType a
  let verdicts := (← documents a).map (check limits ty)
  pure (.verdict (verdicts.all (·.1)) (String.join (verdicts.map (·.2))))

/-- Whether JSON is the wire format. -/
def usesJson (a : Arguments) : Bool := a.get? "format" = some "json"

/-- Writes a document in a wire format. -/
def encode (limits : Limits) (a : Arguments) : Task Outcome := do
  let ty ← requestedType a
  let path := (a.get? "input").getD ""
  let j ← jsonOf (← Task.readText path).toList
  let v ← Task.ofExcept ValidationError.message ((Native.ofJson j).validate limits ty)
  let bytes ← Task.ofExcept EncodeError.message
    (if usesJson a then (v.encodeJson ty).map Text.Utf8.ofString else v.encodeMsgpack ty)
  Task.emit (a.get? "out") bytes

/-- Shows what some bytes hold as JSON. -/
def decode (limits : Limits) (a : Arguments) : Task Outcome := do
  let ty ← requestedType a
  let bytes ← Task.readBytes ((a.get? "input").getD "")
  let v ← Task.ofExcept DecodeError.message
    (if usesJson a then Value.decodeJson limits ty bytes else Value.decodeMsgpack limits ty bytes)
  let j ← Task.ofExcept EncodeError.message (v.toJson v.ty)
  pure (.success (j.pretty ++ "\n"))

/-- Performs a command. -/
def perform (environment : String → Option String) (command : String) (a : Arguments) :
    Task Outcome := do
  let limits ← limits environment a
  match command with
  | "infer" => inferTypes a
  | "validate" => validate limits a
  | "encode" => encode limits a
  | "decode" => decode limits a
  | _ => pure (.misuse tool)

/-- The program. -/
def program : Program := ⟨tool, perform⟩

end TypedData.Transcode
