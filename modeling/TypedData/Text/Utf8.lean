/-!
# UTF-8

Text as bytes. A character has exactly one encoding; overlong forms, surrogates and code
points past U+10FFFF are not text.

## Main definitions

* `Utf8.encode` — the bytes of a text
* `Utf8.split` — the longest readable beginning of some bytes, and the bytes left over
* `Utf8.decode?` — the text of some bytes, if all of them are readable
-/

namespace TypedData.Text.Utf8

/-- A continuation byte that carries the low six bits of `n`. -/
def tail (n : Nat) : UInt8 := UInt8.ofNat (0x80 + n % 64)

/-- The bytes of one character. -/
def encodeChar (c : Char) : List UInt8 :=
  let n := c.toNat
  if n < 0x80 then [UInt8.ofNat n]
  else if n < 0x800 then [UInt8.ofNat (0xC0 + n / 64), tail n]
  else if n < 0x10000 then [UInt8.ofNat (0xE0 + n / 4096), tail (n / 64), tail n]
  else [UInt8.ofNat (0xF0 + n / 262144), tail (n / 4096), tail (n / 64), tail n]

/-- The bytes of a text. -/
def encode (cs : List Char) : List UInt8 := cs.flatMap encodeChar

/-- The six bits of a continuation byte. -/
def tail? (b : UInt8) : Option Nat :=
  if 0x80 ≤ b.toNat ∧ b.toNat < 0xC0 then some (b.toNat - 0x80) else none

/-- The character with a code point, if it needs more than the code points below `least`. -/
def charFrom? (least n : Nat) : Option Char :=
  if least ≤ n ∧ n.isValidChar then some (Char.ofNat n) else none

/-- The character at the front of some bytes, and the bytes after it. -/
def next? : List UInt8 → Option (Char × List UInt8)
  | [] => none
  | a :: rest =>
    let lead := a.toNat
    if lead < 0x80 then some (Char.ofNat lead, rest)
    else if lead < 0xC0 then none
    else if lead < 0xE0 then
      match rest with
      | b :: rest => do
        let x ← tail? b
        let c ← charFrom? 0x80 ((lead - 0xC0) * 64 + x)
        some (c, rest)
      | _ => none
    else if lead < 0xF0 then
      match rest with
      | b :: c :: rest => do
        let x ← tail? b
        let y ← tail? c
        let c ← charFrom? 0x800 ((lead - 0xE0) * 4096 + x * 64 + y)
        some (c, rest)
      | _ => none
    else if lead < 0xF8 then
      match rest with
      | b :: c :: d :: rest => do
        let x ← tail? b
        let y ← tail? c
        let z ← tail? d
        let c ← charFrom? 0x10000 ((lead - 0xF0) * 262144 + x * 4096 + y * 64 + z)
        some (c, rest)
      | _ => none
    else none

/-- Reads at most `n` characters from the front of some bytes. -/
def splitWithin : Nat → List UInt8 → List Char → List Char × List UInt8
  | 0, bytes, done => (done.reverse, bytes)
  | n + 1, bytes, done =>
    match next? bytes with
    | some (c, rest) => splitWithin n rest (c :: done)
    | none => (done.reverse, bytes)

/-- The longest readable beginning of some bytes, and the bytes left over. -/
def split (bytes : List UInt8) : List Char × List UInt8 := splitWithin bytes.length bytes []

/-- The text of some bytes, if all of them are readable. -/
def decode? (bytes : List UInt8) : Option (List Char) :=
  match split bytes with
  | (cs, []) => some cs
  | _ => none

/-- The text of some bytes as a string. -/
def toString? (bytes : List UInt8) : Option String := (decode? bytes).map String.ofList

/-- The bytes of a string. -/
def ofString (s : String) : List UInt8 := encode s.toList

end TypedData.Text.Utf8
