import TypedData.Files.Job

/-!
# File name patterns

In a pattern a question mark stands for any character, an asterisk for any text, and brackets
for one character of a class. A part that is two asterisks stands for any number of
directories. What a pattern matches is found in the order of names.

## Main definitions

* `Wildcard`, `Wildcard.matchAll` — parts of patterns, and what they match
* `PathPattern.ofText?` — the parts of a pattern
* `PathPattern.expand` — the paths that a pattern matches
-/

namespace TypedData

/-- What one place of a pattern matches. -/
inductive Wildcard where
  | exactly (c : Char)
  | anyChar
  /-- Any text, also none. -/
  | anyText
  /-- One character of some ranges. -/
  | oneOf (ranges : List (Char × Char))
  /-- One character outside of some ranges. -/
  | noneOf (ranges : List (Char × Char))
deriving Repr, DecidableEq, Inhabited

namespace Wildcard

/-- Whether a character lies in one of some ranges. -/
def inRanges (ranges : List (Char × Char)) (c : Char) : Bool :=
  ranges.any fun r => r.1 ≤ c && c ≤ r.2

/-- Whether a character is matched. -/
def accepts : Wildcard → Char → Bool
  | exactly d, c => c = d
  | anyChar, _ => true
  | anyText, _ => true
  | oneOf ranges, c => inRanges ranges c
  | noneOf ranges, c => !inRanges ranges c

/-- Whether a whole text is matched. -/
def matchAll : List Wildcard → List Char → Bool
  | [], cs => cs.isEmpty
  | anyText :: ws, [] => matchAll ws []
  | anyText :: ws, c :: cs => matchAll ws (c :: cs) || matchAll (anyText :: ws) cs
  | _ :: _, [] => false
  | w :: ws, c :: cs => w.accepts c && matchAll ws cs
termination_by ws cs => (ws.length, cs.length)

/-- The ranges between brackets. -/
def rangesOf : List Char → List (Char × Char)
  | a :: '-' :: b :: rest => (a, b) :: rangesOf rest
  | a :: rest => (a, a) :: rangesOf rest
  | [] => []

/-- A class after its opening bracket. The first character belongs to the class even if it is
a closing bracket. -/
def takeClass? : List Char → Option (Wildcard × List Char)
  | '!' :: c :: rest =>
    let inside := rest.takeWhile (· != ']')
    match rest.drop inside.length with
    | [] => none
    | _ :: rest => some (noneOf (rangesOf (c :: inside)), rest)
  | '!' :: [] => none
  | c :: rest =>
    let inside := rest.takeWhile (· != ']')
    match rest.drop inside.length with
    | [] => none
    | _ :: rest => some (oneOf (rangesOf (c :: inside)), rest)
  | [] => none

/-- The places of a part of a pattern. The budget is at least the length of the text. -/
def ofChars? : Nat → List Char → Option (List Wildcard)
  | 0, _ => none
  | budget + 1, cs =>
    match cs with
    | [] => some []
    | '?' :: rest => (ofChars? budget rest).map (anyChar :: ·)
    -- Two asterisks may only be a part of their own.
    | '*' :: '*' :: _ => none
    | '*' :: rest => (ofChars? budget rest).map (anyText :: ·)
    | '[' :: rest =>
      match takeClass? rest with
      | none => none
      | some (w, rest) => (ofChars? budget rest).map (w :: ·)
    | c :: rest => (ofChars? budget rest).map (exactly c :: ·)

/-- The character that is matched, if there is only one. -/
def char? : Wildcard → Option Char
  | exactly c => some c
  | _ => none

end Wildcard

/-- A part of a path pattern. -/
inductive PathPart where
  | name (text : String)
  | wild (places : List Wildcard)
  /-- Any number of directories. -/
  | anyDepth
deriving Repr, DecidableEq, Inhabited

namespace PathPart

/-- Whether a part matches a name. -/
def accepts : PathPart → String → Bool
  | name text, s => text = s
  | wild places, s => Wildcard.matchAll places s.toList
  | anyDepth, _ => true

/-- The names that lead to a directory itself and to the one above it, as far as a part that
starts with a dot matches them. -/
def dotNames : PathPart → List String
  | wild (.exactly '.' :: ws) =>
    ["..", "."].filter fun s => Wildcard.matchAll (.exactly '.' :: ws) s.toList
  | _ => []

end PathPart

/-- A path pattern. -/
structure PathPattern where
  parts : List PathPart
  /-- Whether only directories are meant. -/
  onlyDirs : Bool
deriving Repr, DecidableEq, Inhabited

namespace PathPattern

/-- Whether a text is meant as a pattern. -/
def isPattern (s : String) : Bool :=
  s.toList.any fun c => c = '*' || c = '?' || c = '[' || c = '\x7b'

/-- A part of a pattern from its text. -/
def part? (cs : List Char) : Option PathPart :=
  if cs = ['*', '*'] then some .anyDepth
  else
    (Wildcard.ofChars? (cs.length + 1) cs).map fun ws =>
      match ws.mapM Wildcard.char? with
      | some name => .name (String.ofList name)
      | none => .wild ws

/-- Parts in which no two neighbours stand for any number of directories. -/
def collapse : List PathPart → List PathPart
  | .anyDepth :: .anyDepth :: rest => collapse (.anyDepth :: rest)
  | p :: rest => p :: collapse rest
  | [] => []

/-- The pattern of a text. -/
def ofText? (s : String) : Option PathPattern :=
  let parts := Text.splitAt '/' s.toList
  ((parts.filter (· != [])).mapM part?).map fun ps =>
    ⟨collapse ps, parts.getLast? == some []⟩

/-! ### Matching -/

mutual

/-- Everything below a directory, each entry before what lies below it. -/
def below (path : String) : FileTree Unit → List (String × String × FileTree Unit)
  | .file _ => []
  | .dir es => belowEntries path es

/-- Several entries and everything below them: paths, names and trees. -/
def belowEntries (path : String) :
    List (String × FileTree Unit) → List (String × String × FileTree Unit)
  | [] => []
  | (name, t) :: rest =>
    (FileTree.join path name, name, t) ::
      below (FileTree.join path name) t ++ belowEntries path rest

end

/-- The path of a directory seen from itself or from below. -/
def dotPath (path dots : String) : String := (if path = "" then "." else path) ++ "/" ++ dots

/-- The paths below a directory that some parts match, with what they lead to. -/
def matchBelow (path : String) (tree : FileTree Unit) :
    List PathPart → List (String × FileTree Unit)
  | [] => [(path, tree)]
  -- At the end of a pattern only directories are meant.
  | .anyDepth :: [] =>
    (below path tree).filterMap fun (p, _, t) => if t.isDir then some (p, t) else none
  | .anyDepth :: part :: rest =>
    (below path tree).flatMap fun (p, name, t) =>
      if part.accepts name then matchBelow p t rest else []
  | .name text :: rest =>
    if text = "." then if tree.isDir then matchBelow (FileTree.join path ".") tree rest else []
    else
      match Entries.get? tree.entries text with
      | none => []
      | some t => matchBelow (FileTree.join path text) t rest
  | .wild places :: rest =>
    ((PathPart.wild places).dotNames.flatMap fun dots =>
      if rest = [] ∨ dots = "." then matchBelow (dotPath path dots) tree rest else []) ++
      tree.entries.flatMap fun (name, t) =>
        if Wildcard.matchAll places name.toList then
          matchBelow (FileTree.join path name) t rest
        else []

/-- The names at the front of a pattern, all but its last part at most, and the rest. -/
def splitNames : List PathPart → List String × List PathPart
  | .name text :: part :: rest =>
    let (names, rest) := splitNames (part :: rest)
    (text :: names, rest)
  | parts => ([], parts)

/-- How deep a path on a disk may be. -/
def maxPathDepth : Nat := 4096

/-- How deep directories have to be looked into. -/
def depth (parts : List PathPart) : Nat :=
  if parts.contains .anyDepth then maxPathDepth else parts.length

/-- The paths that a pattern matches. `root` is the slash that a path from outside starts
with, or nothing. -/
def expand (root : String) (p : PathPattern) : Task (List String) := do
  let (names, rest) := splitNames p.parts
  let base := names.foldl FileTree.join root
  match ← Task.list? (if base = "" then "." else base) (depth rest) with
  | none => pure []
  | some tree =>
    let found := matchBelow base tree rest
    pure ((found.filter fun (_, t) => !p.onlyDirs || t.isDir).map (·.1))

/-- The paths that a text means: itself, or what it matches as a pattern. A pattern matches
something. -/
def paths (s : String) : Task (List String) :=
  if !isPattern s then pure [s]
  else
    match ofText? s with
    | none => throw ("invalid pattern " ++ s)
    | some p => do
      match ← p.expand (if s.toList.head? = some '/' then "/" else "") with
      | [] => throw ("no file matches " ++ s)
      | found => pure found

end PathPattern

end TypedData
