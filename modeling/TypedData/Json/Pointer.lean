import TypedData.Json.Basic
import TypedData.Decimal.Literal
import TypedData.Text.Parts

/-!
# JSON pointers

A pointer selects a value inside another: each part after a slash is the name of a field or the
position of an item. In names `~1` stands for a slash and `~0` for a tilde.

## Main definitions

* `Json.select?` — the value that a pointer leads to
-/

namespace TypedData.Json

/-- A name as it is meant: `~1` is a slash and `~0` a tilde. -/
def unescapePart : List Char → List Char
  | '~' :: '1' :: rest => '/' :: unescapePart rest
  | '~' :: '0' :: rest => '~' :: unescapePart rest
  | c :: rest => c :: unescapePart rest
  | [] => []

/-- The position that a part means: digits without a superfluous leading zero. -/
def position? (ds : List Char) : Option Nat :=
  if ds = [] ∨ !ds.all Char.isDigit ∨ (ds.head? = some '0' ∧ ds.length ≠ 1) then none
  else some (Decimal.natOfDigits ds)

/-- The value inside another that a part leads to. -/
def selectPart? (j : Json) (part : List Char) : Option Json :=
  match j with
  | object fields => field? fields (String.ofList part)
  | array items => (position? part).bind (items[·]?)
  | _ => none

/-- The value that a pointer leads to. The empty pointer leads to the whole value, and every
other pointer starts with a slash. -/
def select? (j : Json) (pointer : String) : Option Json :=
  match pointer.toList with
  | [] => some j
  | '/' :: rest => ((Text.splitAt '/' rest).map unescapePart).foldlM selectPart? j
  | _ => none

end TypedData.Json
