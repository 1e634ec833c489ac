import TypedData.Text.Unicode.Unprintable

/-!
# Quoted text in messages

Messages show a text between double quotes, with everything that would not be visible written
by number.

## Main definitions

* `quoted` — a text between double quotes
-/

namespace TypedData.Text

/-- Lower-case hexadecimal digits of a number. -/
def hex (n : Nat) : String := String.ofList (Nat.toDigits 16 n)

/-- Code points that are not shown as they are. -/
def isUnprintable (c : Char) : Bool :=
  Unicode.unprintableRanges.any fun (first, last) => first ≤ c.toNat && c.toNat ≤ last

/-- One character inside quotes. A single quote needs no escape. -/
def quotedChar (c : Char) : String :=
  match c with
  | '"' => "\\\""
  | '\\' => "\\\\"
  | '\n' => "\\n"
  | '\r' => "\\r"
  | '\t' => "\\t"
  | '\x00' => "\\0"
  | c => if isUnprintable c then "\\u\x7b" ++ hex c.toNat ++ "\x7d" else c.toString

/-- A text between double quotes. -/
def quoted (s : String) : String :=
  "\"" ++ String.join (s.toList.map quotedChar) ++ "\""

end TypedData.Text
