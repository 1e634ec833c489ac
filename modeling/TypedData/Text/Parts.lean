import TypedData.Text.Blank

/-!
# Parts of a text

## Main definitions

* `Text.splitAt` — the parts of a text between separators
* `Text.lines` — the lines of a text
-/

namespace TypedData.Text

/-- The parts of a text between separators; there is always at least one. -/
def splitAt (separator : Char) : List Char → List (List Char)
  | [] => [[]]
  | c :: rest =>
    if c = separator then [] :: splitAt separator rest
    else
      match splitAt separator rest with
      | [] => [[c]]
      | p :: ps => (c :: p) :: ps

/-- A line without the carriage return at its end. -/
def dropReturn (line : List Char) : List Char :=
  if line.getLast? = some '\r' then line.dropLast else line

/-- The lines of a text. A line break at the very end starts no further line. -/
def lines (cs : List Char) : List (List Char) :=
  let parts := splitAt '\n' cs
  (if parts.getLast? = some [] then parts.dropLast else parts).map dropReturn

/-- Whether a text has only blanks. -/
def isAllBlank (cs : List Char) : Bool := cs.all isBlank

end TypedData.Text
