import TypedData.Json.Basic

/-!
# Printing JSON

## Main definitions

* `Json.quote` — a string between quotes, with the least escapes
* `Json.compact` — a value on one line, without blanks
* `Json.pretty` — a value over several lines, indented by two blanks a level
-/

namespace TypedData.Json

/-- A hexadecimal digit in lower case. -/
def hexDigit (n : Nat) : Char :=
  if n < 10 then Char.ofNat ('0'.toNat + n) else Char.ofNat ('a'.toNat + (n - 10))

/-- One character of a string. Only quotes, backslashes and controls are escaped. -/
def escapeChar (c : Char) : List Char :=
  match c with
  | '"' => ['\\', '"']
  | '\\' => ['\\', '\\']
  | '\x08' => ['\\', 'b']
  | '\x0c' => ['\\', 'f']
  | '\n' => ['\\', 'n']
  | '\r' => ['\\', 'r']
  | '\t' => ['\\', 't']
  | c =>
    if c.toNat < 0x20 then
      ['\\', 'u', '0', '0', hexDigit (c.toNat / 16), hexDigit (c.toNat % 16)]
    else [c]

/-- The characters of a string between quotes. -/
def quoteChars (s : String) : List Char := '"' :: (s.toList.flatMap escapeChar ++ ['"'])

/-- A string between quotes. -/
def quote (s : String) : String := String.ofList (quoteChars s)

mutual

/-- The characters of a value without blanks. -/
def chars : Json → List Char
  | null => ['n', 'u', 'l', 'l']
  | bool true => ['t', 'r', 'u', 'e']
  | bool false => ['f', 'a', 'l', 's', 'e']
  | number t => t.toList
  | string s => quoteChars s
  | array [] => ['[', ']']
  | array (j :: js) => '[' :: (j.chars ++ itemChars js)
  | object [] => ['\x7b', '\x7d']
  | object ((k, j) :: fs) => '\x7b' :: (quoteChars k ++ ':' :: (j.chars ++ fieldChars fs))

/-- The items after the first one, and the closing bracket. -/
def itemChars : List Json → List Char
  | [] => [']']
  | j :: js => ',' :: (j.chars ++ itemChars js)

/-- The fields after the first one, and the closing brace. -/
def fieldChars : List (String × Json) → List Char
  | [] => ['\x7d']
  | (k, j) :: fs => ',' :: (quoteChars k ++ ':' :: (j.chars ++ fieldChars fs))

end

/-- A value on one line, without blanks. -/
def compact (j : Json) : String := String.ofList j.chars

/-- A new line at a level of indentation. -/
def newline (level : Nat) : String := "\n" ++ String.ofList (List.replicate (2 * level) ' ')

mutual

/-- A value over several lines, inside `level` open brackets. -/
def prettyAt (level : Nat) : Json → String
  | array [] => "[]"
  | array (j :: js) =>
    "[" ++ newline (level + 1) ++ j.prettyAt (level + 1) ++ prettyItems (level + 1) js ++
      newline level ++ "]"
  | object [] => "\x7b\x7d"
  | object ((k, j) :: fs) =>
    "\x7b" ++ newline (level + 1) ++ quote k ++ ": " ++ j.prettyAt (level + 1) ++
      prettyFields (level + 1) fs ++ newline level ++ "\x7d"
  | j => j.compact

/-- The items after the first one. -/
def prettyItems (level : Nat) : List Json → String
  | [] => ""
  | j :: js => "," ++ newline level ++ j.prettyAt level ++ prettyItems level js

/-- The fields after the first one. -/
def prettyFields (level : Nat) : List (String × Json) → String
  | [] => ""
  | (k, j) :: fs =>
    "," ++ newline level ++ quote k ++ ": " ++ j.prettyAt level ++ prettyFields level fs

end

/-- A value over several lines; empty arrays and objects stay on one. -/
def pretty (j : Json) : String := j.prettyAt 0

end TypedData.Json
