import TypedData.Entries
import TypedData.Text.Parts

/-!
# File trees

A tree of files and directories, with paths that lead through it. Paths are relative to the
root of the tree, and nothing is known of what lies above it.

## Main definitions

* `FileTree` — files and directories
* `FileTree.find?` — what a path leads to
* `FileTree.put?` — a tree with a file written to it
* `FileTree.names` — a tree without the contents of its files
-/

namespace TypedData

/-- A file or a directory. -/
inductive FileTree (α : Type) where
  | file (contents : α)
  /-- Entries in the order of their names. -/
  | dir (entries : List (String × FileTree α))
deriving Inhabited

namespace FileTree

variable {α : Type}

/-- An empty directory. -/
def empty : FileTree α := .dir []

/-- Whether this is a directory. -/
def isDir : FileTree α → Bool
  | file _ => false
  | dir _ => true

/-- The entries of a directory. -/
def entries : FileTree α → List (String × FileTree α)
  | file _ => []
  | dir es => es

/-- The contents of a file. -/
def contents? : FileTree α → Option α
  | file c => some c
  | dir _ => none

/-! ### Paths -/

/-- The parts of a path. -/
def parts (path : String) : List String := (Text.splitAt '/' path.toList).map String.ofList

/-- A path with one more part. A part that comes from outside stands for itself. -/
def join (path part : String) : String :=
  if path = "" ∨ path = "." ∨ part.toList.head? = some '/' then part
  else if path.toList.getLast? = some '/' then path ++ part
  else path ++ "/" ++ part

/-- Whether a part of a path stays where it is. -/
def staysPut (part : String) : Bool := part = "" || part = "."

/-- Walks along the parts of a path. `above` are the directories passed, the nearest first. -/
def walk? (above : List (FileTree α)) (here : FileTree α) : List String → Option (FileTree α)
  | [] => some here
  | part :: rest =>
    match here with
    | file _ => none
    | dir es =>
      if staysPut part then walk? above (dir es) rest
      else if part = ".." then
        match above with
        | [] => none
        | up :: above => walk? above up rest
      else
        match Entries.get? es part with
        | none => none
        | some next => walk? (dir es :: above) next rest

/-- What a path leads to. The empty path leads nowhere, and so does a path from outside. -/
def find? (tree : FileTree α) (path : String) : Option (FileTree α) :=
  if path.toList.isEmpty || path.toList.head? = some '/' then none
  else walk? [] tree (parts path)

/-- The contents of the file that a path leads to. -/
def read? (tree : FileTree α) (path : String) : Option α :=
  (tree.find? path).bind contents?

/-! ### Writing -/

/-- The directories that lead to a file, from the root on, once every step up is taken. -/
def resolve? (parts : List String) : Option (List String) :=
  parts.foldlM
    (fun above part =>
      if staysPut part then some above
      else if part = ".." then if above.isEmpty then none else some above.dropLast
      else some (above ++ [part]))
    []

/-- Writes a file under directories, which are made where they are missing. -/
def putIn? (contents : α) (name : String) (tree : FileTree α) : List String → Option (FileTree α)
  | [] =>
    match tree with
    | file _ => none
    | dir es =>
      match Entries.get? es name with
      -- A directory is not written over.
      | some (dir _) => none
      | _ => some (dir (Entries.insert es name (file contents)))
  | part :: rest =>
    match tree with
    | file _ => none
    | dir es =>
      (putIn? contents name ((Entries.get? es part).getD empty) rest).map fun sub =>
        dir (Entries.insert es part sub)

/-- A tree with a file written to a path. -/
def put? (tree : FileTree α) (path : String) (contents : α) : Option (FileTree α) :=
  if path.toList.head? = some '/' then none
  else
    match (parts path).getLast? with
    | none => none
    | some name =>
      if staysPut name || name = ".." then none
      else (resolve? (parts path).dropLast).bind (putIn? contents name tree)

/-! ### Listing -/

mutual

/-- A tree without the contents of its files, as deep as asked for. -/
def names (depth : Nat) : FileTree α → FileTree Unit
  | file _ => .file ()
  | dir es => .dir (match depth with | 0 => [] | d + 1 => namesEach d es)

/-- The trees of several entries without the contents of their files. -/
def namesEach (depth : Nat) : List (String × FileTree α) → List (String × FileTree Unit)
  | [] => []
  | (name, t) :: rest => (name, names depth t) :: namesEach depth rest

end

mutual

/-- The files of a tree by their paths, with a text in front of each path. -/
def filesAt (before : String) : FileTree α → List (String × α)
  | file c => [(before, c)]
  | dir es => filesOfEntries before es

/-- The files of several entries by their paths. -/
def filesOfEntries (before : String) : List (String × FileTree α) → List (String × α)
  | [] => []
  | (name, t) :: rest =>
    filesAt (if before.isEmpty then name else before ++ "/" ++ name) t ++
      filesOfEntries before rest

end

/-- The files of a tree by their paths. -/
def files (tree : FileTree α) : List (String × α) := filesAt "" tree

end FileTree

end TypedData
