import TypedData.Toml.Scalar

/-!
# Reading TOML

A document is read line by line into statements, from which its table is made. Values may go
over several lines inside arrays and long strings.

## Main definitions

* `Toml.takeString?`, `Toml.takeKey?` — strings and keys at the front of a text
* `Toml.takeValue?` — the value at the front of a text
* `Toml.read?` — the table a document holds
-/

namespace TypedData.Toml

/-! ### Blanks and line ends -/

/-- The blanks within a line. -/
def isGap (c : Char) : Bool := c = ' ' || c = '\t'

/-- A text without the blanks at its front. -/
def skipGap (cs : List Char) : List Char := cs.dropWhile isGap

/-- Characters that may stand in a comment: all but control characters. -/
def mayComment (c : Char) : Bool := c = '\t' || (0x20 ≤ c.toNat && c.toNat ≠ 0x7F)

/-- What follows the end of a line, if only a comment comes before it. -/
def endLine? (cs : List Char) : Option (List Char) :=
  let rest :=
    match skipGap cs with
    | '#' :: comment => comment.dropWhile mayComment
    | rest => rest
  match rest with
  | [] => some []
  | '\n' :: rest => some rest
  | '\r' :: '\n' :: rest => some rest
  | _ => none

/-- What follows blanks, line ends and comments. -/
def skipLines? (inComment : Bool) : List Char → Option (List Char)
  | [] => some []
  | '\n' :: rest => skipLines? false rest
  | '\r' :: '\n' :: rest => skipLines? false rest
  | c :: rest =>
    if inComment then if mayComment c then skipLines? true rest else none
    else if isGap c then skipLines? false rest
    else if c = '#' then skipLines? true rest
    else some (c :: rest)

/-! ### Strings -/

/-- The character of a number, unless it is none of a text. -/
def charOf? (n : Nat) : Option Char :=
  if n.isValidChar then some (Char.ofNat n) else none

/-- The character of some hexadecimal digits. -/
def charOfHex? (ds : List Char) : Option Char :=
  if ds.all isHexDigit then charOf? (ofDigits 16 ds) else none

/-- The character that a letter stands for after a backslash. -/
def escaped? : Char → Option Char
  | 'b' => some '\x08'
  | 't' => some '\t'
  | 'n' => some '\n'
  | 'f' => some '\x0c'
  | 'r' => some '\r'
  | '"' => some '"'
  | '\\' => some '\\'
  | _ => none

/-- What a backslash and the characters after it stand for. -/
def takeEscape? : List Char → Option (Char × List Char)
  | 'u' :: a :: b :: c :: d :: rest => (charOfHex? [a, b, c, d]).map fun x => (x, rest)
  | 'U' :: a :: b :: c :: d :: e :: f :: g :: h :: rest =>
    (charOfHex? [a, b, c, d, e, f, g, h]).map fun x => (x, rest)
  | c :: rest => (escaped? c).map fun x => (x, rest)
  | [] => none

/-- The rest of a text in quotes on one line. The budget is at least the length of the text. -/
def takeQuoted? : Nat → List Char → Option (List Char × List Char)
  | 0, _ => none
  | budget + 1, cs =>
    match cs with
    | [] => none
    | '"' :: rest => some ([], rest)
    | '\\' :: rest =>
      (takeEscape? rest).bind fun (c, rest) =>
        (takeQuoted? budget rest).map fun (s, rest) => (c :: s, rest)
    | c :: rest =>
      if mayComment c then (takeQuoted? budget rest).map fun (s, rest) => (c :: s, rest)
      else none

/-- What follows a backslash at the end of a line: the next character that is no blank. -/
def skipContinued : List Char → List Char
  | '\r' :: '\n' :: rest => skipContinued rest
  | c :: rest => if c = '\n' || isGap c then skipContinued rest else c :: rest
  | [] => []

/-- The first line end of a text, if only blanks come before it. -/
def continues (cs : List Char) : Bool :=
  match skipGap cs with
  | '\n' :: _ => true
  | '\r' :: '\n' :: _ => true
  | _ => false

/-- How many quotes stand at the front of a text. -/
def countQuotes (quote : Char) (cs : List Char) : Nat := (cs.takeWhile (· == quote)).length

/-- Quotes in a text in triple quotes: with three or more the text ends, and up to two of them
still belong to it. -/
def closing? (quote : Char) (cs : List Char) : Option (List Char × List Char) :=
  let n := countQuotes quote cs
  if 3 ≤ n then
    let inside := min (n - 3) 2
    some (List.replicate inside quote, cs.drop (inside + 3))
  else none

/-- The rest of a text in triple quotes, with or without escapes. The budget is at least the
length of the text. -/
def takeLong? (quote : Char) : Nat → List Char → Option (List Char × List Char)
  | 0, _ => none
  | budget + 1, cs =>
    match closing? quote cs with
    | some found => some found
    | none =>
      match cs with
      | [] => none
      | '\n' :: rest => (takeLong? quote budget rest).map fun (s, rest) => ('\n' :: s, rest)
      | '\r' :: '\n' :: rest =>
        (takeLong? quote budget rest).map fun (s, rest) => ('\n' :: s, rest)
      | c :: rest =>
        if c = '\\' && quote = '"' then
          -- A backslash at the end of a line takes all blanks after it along.
          if continues rest then takeLong? quote budget (skipContinued rest)
          else
            (takeEscape? rest).bind fun (c, rest) =>
              (takeLong? quote budget rest).map fun (s, rest) => (c :: s, rest)
        else if mayComment c then
          (takeLong? quote budget rest).map fun (s, rest) => (c :: s, rest)
        else none

/-- A text without a line end at its front. -/
def dropLineEnd : List Char → List Char
  | '\n' :: rest => rest
  | '\r' :: '\n' :: rest => rest
  | cs => cs

/-- The rest of a text between apostrophes on one line. -/
def takeLiteral? (cs : List Char) : Option (List Char × List Char) :=
  let s := cs.takeWhile fun c => mayComment c && c != '\''
  match cs.drop s.length with
  | '\'' :: rest => some (s, rest)
  | _ => none

/-- A string at the front of a text, on one line or on several. -/
def takeString? : List Char → Option (String × List Char)
  | '"' :: '"' :: '"' :: rest =>
    (takeLong? '"' (rest.length + 1) (dropLineEnd rest)).map fun (s, rest) =>
      (String.ofList s, rest)
  | '\'' :: '\'' :: '\'' :: rest =>
    (takeLong? '\'' (rest.length + 1) (dropLineEnd rest)).map fun (s, rest) =>
      (String.ofList s, rest)
  | '"' :: rest =>
    (takeQuoted? (rest.length + 1) rest).map fun (s, rest) => (String.ofList s, rest)
  | '\'' :: rest => (takeLiteral? rest).map fun (s, rest) => (String.ofList s, rest)
  | _ => none

/-! ### Keys -/

/-- Characters of keys without quotes. -/
def mayStandBare (c : Char) : Bool :=
  c.isDigit || ('a' ≤ c && c ≤ 'z') || ('A' ≤ c && c ≤ 'Z') || c = '-' || c = '_'

/-- One part of a key. -/
def takePart? : List Char → Option (String × List Char)
  | '"' :: rest =>
    (takeQuoted? (rest.length + 1) rest).map fun (s, rest) => (String.ofList s, rest)
  | '\'' :: rest => (takeLiteral? rest).map fun (s, rest) => (String.ofList s, rest)
  | cs =>
    let bare := cs.takeWhile mayStandBare
    if bare.isEmpty then none else some (String.ofList bare, cs.dropWhile mayStandBare)

/-- A key: the parts before its last one, the last one, and what follows. Blanks may stand
around the dots. The budget is at least the length of the text. -/
def takeKey? : Nat → List Char → Option (List String × String × List Char)
  | 0, _ => none
  | budget + 1, cs =>
    (takePart? (skipGap cs)).bind fun (part, rest) =>
      match skipGap rest with
      | '.' :: rest =>
        (takeKey? budget rest).map fun (before, last, rest) => (part :: before, last, rest)
      | rest => some ([], part, rest)

/-- How many parts a key may have, and how many arrays and tables between braces may stand
inside one another. -/
def maxNesting : Nat := 80

/-- A key within the limit on its parts. -/
def takeShortKey? (cs : List Char) : Option (List String × String × List Char) :=
  (takeKey? (cs.length + 1) cs).filter fun (before, _) => before.length + 1 < maxNesting

/-! ### Values -/

mutual

/-- The value at the front of a text, inside arrays and tables of which `depth` more may
follow. The budget is at least twice the length of the text. -/
def takeValueAt? : Nat → Nat → List Char → Option (Toml × List Char)
  | 0, _, _ => none
  | budget + 1, depth, cs =>
    match cs with
    | '[' :: rest =>
      if depth = 0 then none
      else (takeItems? budget (depth - 1) rest).map fun (vs, rest) => (.array vs, rest)
    | '\x7b' :: rest =>
      if depth = 0 then none
      else
        match skipGap rest with
        | '\x7d' :: rest => some (.table [], rest)
        | rest =>
          (takePairs? budget (depth - 1) rest).bind fun (pairs, rest) =>
            (inlineTable? pairs).map fun t => (t, rest)
    | c :: rest =>
      if c = '"' || c = '\'' then
        (takeString? (c :: rest)).map fun (s, rest) => (.string s, rest)
      else takeWord? (c :: rest)
    | [] => none

/-- The items of an array up to its end; the last one may have a comma after it. -/
def takeItems? : Nat → Nat → List Char → Option (List Toml × List Char)
  | 0, _, _ => none
  | budget + 1, depth, cs =>
    match skipLines? false cs with
    | none => none
    -- Also after the last comma.
    | some (']' :: rest) => some ([], rest)
    | some cs =>
      (takeValueAt? budget depth cs).bind fun (v, rest) =>
        match skipLines? false rest with
        | some (']' :: rest) => some ([v], rest)
        | some (',' :: rest) => (takeItems? budget depth rest).map fun (vs, rest) => (v :: vs, rest)
        | _ => none

/-- The assignments between braces up to the closing one. -/
def takePairs? : Nat → Nat → List Char → Option (List Assignment × List Char)
  | 0, _, _ => none
  | budget + 1, depth, cs =>
    match takeShortKey? cs with
    | some (before, last, '=' :: rest) =>
      (takeValueAt? budget depth (skipGap rest)).bind fun (v, rest) =>
        match skipGap rest with
        | '\x7d' :: rest => some ([⟨before, last, v⟩], rest)
        | ',' :: rest =>
          (takePairs? budget depth rest).map fun (pairs, rest) => (⟨before, last, v⟩ :: pairs, rest)
        | _ => none
    | _ => none

end

/-- The value at the front of a text. -/
def takeValue? (cs : List Char) : Option (Toml × List Char) :=
  takeValueAt? (2 * cs.length + 2) (maxNesting - 1) cs

/-! ### Lines -/

/-- A statement at the front of a text, up to the end of its line. -/
def takeStatement? : List Char → Option (Statement × List Char)
  | '[' :: '[' :: cs =>
    match takeShortKey? cs with
    | some (before, last, ']' :: ']' :: rest) =>
      (endLine? rest).map fun rest => (.element before last, rest)
    | _ => none
  | '[' :: cs =>
    match takeShortKey? cs with
    | some (before, last, ']' :: rest) =>
      (endLine? rest).map fun rest => (.header before last, rest)
    | _ => none
  | cs =>
    match takeShortKey? cs with
    | some (before, last, '=' :: rest) =>
      (takeValue? (skipGap rest)).bind fun (v, rest) =>
        (endLine? rest).map fun rest => (.assign ⟨before, last, v⟩, rest)
    | _ => none

/-- The statements of a text. The budget is at least the length of the text. -/
def statements? : Nat → List Char → Option (List Statement)
  | 0, _ => none
  | budget + 1, cs =>
    match skipLines? false cs with
    | none => none
    | some [] => some []
    | some cs =>
      (takeStatement? cs).bind fun (s, rest) => (statements? budget rest).map (s :: ·)

/-- A text without a byte order mark. -/
def dropMark : List Char → List Char
  | '\uFEFF' :: rest => rest
  | cs => cs

/-- The table a document holds. -/
def read? (text : String) : Option (List (String × Toml)) :=
  let cs := dropMark text.toList
  (statements? (cs.length + 1) cs).bind ofStatements?

end TypedData.Toml
