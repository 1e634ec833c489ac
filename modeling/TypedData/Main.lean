import TypedData.Program.Fixtures
import TypedData.Program.Transcode

/-!
# The command line

One executable holds both tools; the name it is called by decides which of them runs.

## Main definitions

* `Job.perform` — a job carried out on the disk
* `main` — runs a tool and exits with its code
-/

namespace TypedData

/-- The names in a directory, as deep as asked for. -/
def listDisk : Nat → String → IO (FileTree Unit)
  | depth, path => do
    let here := (← IO.currentDir) / path
    if !(← here.isDir) then return .file ()
    match depth with
    | 0 => return .dir []
    | depth + 1 =>
      let names := (← here.readDir).toList.map (·.fileName)
      let sorted := names.mergeSort fun a b => decide (a ≤ b)
      return .dir (← sorted.mapM fun name => do
        pure (name, ← listDisk depth (FileTree.join path name)))

/-- The result of an action, or nothing if it fails. -/
def attempt {α : Type} (action : IO α) : IO (Option α) :=
  try some <$> action catch _ => pure none

/-- Writes a file and makes the directories it lies in. -/
def writeDisk (path : String) (contents : List UInt8) : IO Unit := do
  let directories := (FileTree.parts path).dropLast
  let parent := "/".intercalate directories
  if parent ≠ "" then IO.FS.createDirAll parent
  IO.FS.writeBinFile path ⟨contents.toArray⟩

/-- Carries out a job on the disk. -/
def Job.perform {α : Type} : Job α → IO α
  | .done a => pure a
  | .read path next => do
    (next ((← attempt (IO.FS.readBinFile path)).map (·.toList))).perform
  | .list path depth next => do (next (← attempt (listDisk depth path))).perform
  | .write path contents next => do
    (next (← attempt (writeDisk path contents)).isSome).perform

/-- The program that goes by a name. -/
def programOf (name : String) : Program :=
  if name = Fixture.tool.name then Fixture.program else Transcode.program

/-- The value of an environment variable that some program reads. -/
def settingsOf (pairs : List (String × Option String)) (name : String) : Option String :=
  (pairs.find? (·.1 == name)).bind (·.2)

end TypedData

open TypedData in
/-- Runs the tool whose name the executable has. -/
def main (words : List String) : IO UInt32 := do
  let pairs ← [Setting.maxDepth, .maxNumberExponent].mapM fun s => do
    pure (s.envName, ← IO.getEnv s.envName)
  let program := programOf ((← IO.appPath).fileName.getD "")
  let outcome ← (program.run (settingsOf pairs) words).perform
  (← IO.getStdout).write ⟨outcome.output.toArray⟩
  if outcome.complaint ≠ "" then IO.eprintln outcome.complaint
  return UInt32.ofNat outcome.code
