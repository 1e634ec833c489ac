import TypedData.Files.Tree

/-!
# Jobs

A job is a computation that may read and write files. It is a tree of requests, each with what
is done for every answer, so that it can be carried out on a file tree as well as on a disk.

## Main definitions

* `Job` — computations that ask for files
* `Job.runOn` — a job carried out on a file tree
* `Task` — jobs that may fail with a message
-/

namespace TypedData

/-- A computation that may read and write files. -/
inductive Job (α : Type) where
  | done (result : α)
  /-- Asks for the contents of a file. -/
  | read (path : String) (next : Option (List UInt8) → Job α)
  /-- Asks for the names in a directory, as deep as given. -/
  | list (path : String) (depth : Nat) (next : Option (FileTree Unit) → Job α)
  /-- Writes a file and makes the directories it lies in; the answer says whether it worked. -/
  | write (path : String) (contents : List UInt8) (next : Bool → Job α)

namespace Job

variable {α β : Type}

/-- A job followed by another. -/
def bind : Job α → (α → Job β) → Job β
  | done a, f => f a
  | read p k, f => read p fun c => (k c).bind f
  | list p d k, f => list p d fun t => (k t).bind f
  | write p c k, f => write p c fun b => (k b).bind f

instance : Monad Job where
  pure := done
  bind := bind

/-- Carries out a job on a file tree. -/
def runOn (files : FileTree (List UInt8)) : Job α → α × FileTree (List UInt8)
  | done a => (a, files)
  | read p k => (k (files.read? p)).runOn files
  | list p d k => (k ((files.find? p).map (·.names d))).runOn files
  | write p c k =>
    match files.put? p c with
    | some files => (k true).runOn files
    | none => (k false).runOn files

end Job

/-- A job that may fail with a message. -/
abbrev Task (α : Type) := ExceptT String Job α

namespace Task

/-- A result, or the message of an error. -/
def ofExcept {ε α : Type} (message : ε → String) : Except ε α → Task α
  | .ok a => pure a
  | .error e => throw (message e)

/-- The contents of a file. -/
def readBytes (path : String) : Task (List UInt8) := do
  match ← ExceptT.lift (Job.read path .done) with
  | some bytes => pure bytes
  | none => throw ("failed to read " ++ path)

/-- Whether a path leads to a file. -/
def isFile (path : String) : Task Bool := do
  pure (← ExceptT.lift (Job.read path .done)).isSome

/-- The names in a directory, as deep as given. -/
def list? (path : String) (depth : Nat) : Task (Option (FileTree Unit)) :=
  ExceptT.lift (Job.list path depth .done)

/-- Writes a file. -/
def write (path : String) (contents : List UInt8) : Task Unit := do
  if ← ExceptT.lift (Job.write path contents .done) then pure ()
  else throw ("failed to write " ++ path)

end Task

end TypedData
