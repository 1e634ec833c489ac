import TypedData.CommandLine.Help
import TypedData.Files.Pattern
import TypedData.Text.Utf8

/-!
# Outcomes of programs

## Main definitions

* `Outcome` — what a program leaves behind apart from files
* `Outcome.ofTask` — the outcome of a task, which fails with a complaint
* `Program` — a program by its words and its environment
-/

namespace TypedData

/-- What a program leaves behind apart from files. -/
structure Outcome where
  /-- Zero for success, one for failure, two for misuse. -/
  code : Nat
  output : List UInt8
  /-- What went wrong, for readers. -/
  complaint : String
deriving Repr, DecidableEq, Inhabited

namespace Outcome

/-- Success with some text. -/
def success (text : String) : Outcome := ⟨0, Text.Utf8.ofString text, ""⟩

/-- Success with some bytes. -/
def successBytes (bytes : List UInt8) : Outcome := ⟨0, bytes, ""⟩

/-- A verdict with some text: a failure unless all is well. -/
def verdict (good : Bool) (text : String) : Outcome :=
  ⟨if good then 0 else 1, Text.Utf8.ofString text, ""⟩

/-- Failure without output. -/
def failure (complaint : String) : Outcome := ⟨1, [], complaint⟩

/-- Misuse of a tool. -/
def misuse (tool : CommandLine.Tool) : Outcome := ⟨2, [], tool.help⟩

/-- The outcome of a task. -/
def ofTask (task : Task Outcome) : Job Outcome := do
  match ← task.run with
  | .ok o => pure o
  | .error complaint => pure (failure complaint)

end Outcome

/-- A program. -/
structure Program where
  tool : CommandLine.Tool
  /-- Performs a command under environment variables. -/
  perform : (String → Option String) → String → CommandLine.Arguments → Task Outcome

namespace Program

/-- Runs a program on a list of words. -/
def run (p : Program) (environment : String → Option String) (words : List String) :
    Job Outcome :=
  match p.tool.read words with
  | .describe none => pure (.success p.tool.help)
  | .describe (some c) => pure (.success (p.tool.commandHelp c))
  | .describeHelp => pure (.success p.tool.helpHelp)
  | .version => pure (.success (p.tool.name ++ " " ++ p.tool.version.getD "" ++ "\n"))
  | .misuse => pure (.misuse p.tool)
  | .perform c a => Outcome.ofTask (p.perform environment c.name a)

end Program

namespace Task

/-- The text in a file. -/
def readText (path : String) : Task String := do
  match Text.Utf8.toString? (← readBytes path) with
  | some s => pure s
  | none => throw (path ++ " is not text")

/-- Writes bytes to a file if there is one, and else puts them out. -/
def emit (out : Option String) (bytes : List UInt8) : Task Outcome :=
  match out with
  | none => pure (.successBytes bytes)
  | some path => do
    write path bytes
    pure (.success "")

end Task

end TypedData
