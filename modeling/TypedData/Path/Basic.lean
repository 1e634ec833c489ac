import TypedData.Json.Printer
import TypedData.Decimal.Notation

/-!
# Paths

A path says where in a value or a type something is: a list of steps from the root.

## Main definitions

* `Step` — one step
* `Path` — steps from the root
* `Path.text` — the notation `.name[0]["key"]`
-/

namespace TypedData

/-- One step into a value. -/
inductive Step where
  /-- To an attribute. -/
  | attr (name : String)
  /-- To the entry of a key. -/
  | key (key : String)
  /-- To the element at a position. -/
  | index (i : Int)
deriving Repr, DecidableEq, Inhabited

/-- A step as written. Keys stand in quotes, names as they are. -/
def Step.text : Step → String
  | .attr name => "." ++ name
  | .key k => "[" ++ Json.quote k ++ "]"
  | .index i => "[" ++ String.ofList (Decimal.intText i) ++ "]"

/-- Steps from the root. -/
abbrev Path := List Step

namespace Path

/-- A path as written; the root is the empty text. -/
def text (p : Path) : String := String.join (p.map Step.text)

/-- The beginning of a message about a place: nothing for the root. -/
def located (p : Path) : String := if p.isEmpty then "" else "at " ++ p.text ++ ": "

end Path

end TypedData
