import TypedData.Ty.Basic
import TypedData.Json.Printer

/-!
# Names of types

Messages show a type by a name such as `list of string` or `object({"a":string})`. Attribute
names stand in quotes, so that a name determines its type.

## Main definitions

* `Ty.name` — the name of a type
-/

namespace TypedData.Ty

mutual

/-- The characters of a type's name. -/
def nameChars : Ty → List Char
  | bool => ['b', 'o', 'o', 'l']
  | number => ['n', 'u', 'm', 'b', 'e', 'r']
  | string => ['s', 't', 'r', 'i', 'n', 'g']
  | dynamic => ['d', 'y', 'n', 'a', 'm', 'i', 'c']
  | list t => ['l', 'i', 's', 't', ' ', 'o', 'f', ' '] ++ t.nameChars
  | set t => ['s', 'e', 't', ' ', 'o', 'f', ' '] ++ t.nameChars
  | map t => ['m', 'a', 'p', ' ', 'o', 'f', ' '] ++ t.nameChars
  | tuple ts => ['t', 'u', 'p', 'l', 'e', '(', '['] ++ namesOfElems ts ++ [']', ')']
  | object as =>
    ['o', 'b', 'j', 'e', 'c', 't', '(', '\x7b'] ++ namesOfAttrs as ++ ['\x7d', ')']
  | capsule c => ['c', 'a', 'p', 's', 'u', 'l', 'e', '('] ++ c.name.toList ++ [')']

/-- The names of several types, separated by commas. -/
def namesOfElems : List Ty → List Char
  | [] => []
  | [t] => t.nameChars
  | t :: u :: ts => t.nameChars ++ ',' :: namesOfElems (u :: ts)

/-- Several attributes, separated by commas. -/
def namesOfAttrs : List (Attr Ty) → List Char
  | [] => []
  | [a] => namesOfAttr a
  | a :: b :: as => namesOfAttr a ++ ',' :: namesOfAttrs (b :: as)

/-- An attribute by its quoted name and its type. -/
def namesOfAttr : Attr Ty → List Char
  | ⟨name, t, false⟩ => Json.quoteChars name ++ ':' :: t.nameChars
  | ⟨name, t, true⟩ =>
    Json.quoteChars name ++
      [':', 'o', 'p', 't', 'i', 'o', 'n', 'a', 'l', '('] ++ t.nameChars ++ [')']

end

/-- The name of a type in messages. Attributes stand in the order of declaration. -/
def name (t : Ty) : String := String.ofList t.nameChars

end TypedData.Ty
