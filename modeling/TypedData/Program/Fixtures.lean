import TypedData.Fixtures.Cases
import TypedData.Program.Outcome

/-!
# Writing and checking fixtures

The tool `compat-runner` writes the canonical fixtures with their manifest into a directory,
and checks the fixtures of a directory against its manifest.

## Main definitions

* `Fixture.tool` — commands and options
* `Fixture.program` — the program
-/

namespace TypedData.Fixture

open CommandLine

/-! ### Commands and options -/

/-- The directory that holds the fixtures. -/
def directory (description : String) : Parameter :=
  ⟨"directory", some 'd', .one, "DIRECTORY", true, false, [], none, description⟩

/-- The options that go with every command. -/
def shared : List Parameter :=
  [⟨"log-level", some 'l', .one, "LOG_LEVEL", false, true, [], some "info",
    "log filter, e.g. `debug` or `trace`"⟩]

/-- Commands and options. -/
def tool : Tool :=
  ⟨"compat-runner", "generate and verify cty compatibility fixtures", none, shared,
    [⟨"generate", "write fixtures and manifest.json", [directory "directory for fixture files"]⟩,
      ⟨"verify", "decode fixtures and check them against manifest.json",
        [directory "directory holding fixture files and manifest.json"]⟩]⟩

/-! ### Commands -/

/-- The file of a fixture. -/
def fileOf (directory name : String) : String := FileTree.join directory (name ++ ".msgpack")

/-- The file of the manifest. -/
def manifestFile (directory : String) : String := FileTree.join directory "manifest.json"

/-- Writes a case, and gives what the manifest tells about it. -/
def writeCase (directory : String) (c : Case) : Task (String × Fixture) := do
  Task.write (fileOf directory c.name) (← Task.ofExcept EncodeError.message c.bytes)
  pure (c.name, ← Task.ofExcept EncodeError.message c.fixture)

/-- Writes the canonical fixtures and their manifest. -/
def generate (directory : String) : Task Outcome := do
  let manifest ← cases.mapM (writeCase directory)
  let j ← Task.ofExcept (fun e => (Ty.TextError.noText e).message) (Manifest.toJson manifest)
  Task.write (manifestFile directory) (Text.Utf8.ofString j.pretty)
  pure (.success "")

/-- Whether the file of a fixture is there and is what it should be. -/
def isGood (directory : String) (entry : String × Fixture) : Task Bool := do
  match ← ExceptT.lift (Job.read (fileOf directory entry.1) .done) with
  | some bytes => pure (entry.2.accepts bytes)
  | none => pure false

/-- Checks the fixtures of a directory. -/
def verify (directory : String) : Task Outcome := do
  match Manifest.read? (← Task.readText (manifestFile directory)).toList with
  | none => throw ("failed to parse " ++ manifestFile directory)
  | some manifest => do
    let verdicts ← manifest.mapM (isGood directory)
    pure (.verdict (verdicts.all id) "")

/-- Performs a command. -/
def perform (_environment : String → Option String) (command : String) (a : Arguments) :
    Task Outcome :=
  let directory := (a.get? "directory").getD ""
  match command with
  | "generate" => generate directory
  | "verify" => verify directory
  | _ => pure (.misuse tool)

/-- The program. -/
def program : Program := ⟨tool, perform⟩

end TypedData.Fixture
