import TypedData.Msgpack.Basic

/-!
# Writing MessagePack

Every value is written in its shortest form: integers in the fewest bytes, non-negative ones
unsigned, and lengths in the shortest header.

## Main definitions

* `Msgpack.bigEndian` — a number in a fixed count of bytes
* `Msgpack.write` — the bytes of a value
-/

namespace TypedData.Msgpack

/-- The last `count` bytes of a number, most significant first. -/
def bigEndian : Nat → Nat → List UInt8
  | 0, _ => []
  | count + 1, n => bigEndian count (n / 256) ++ [UInt8.ofNat n]

/-- A marker byte followed by a number in `count` bytes. -/
def marked (marker : UInt8) (count n : Nat) : List UInt8 := marker :: bigEndian count n

/-- An integer. -/
def writeInt (n : Int) : List UInt8 :=
  if 0 ≤ n then
    let n := n.toNat
    if n < 0x80 then [UInt8.ofNat n]
    else if n < 0x100 then marked 0xCC 1 n
    else if n < 0x10000 then marked 0xCD 2 n
    else if n < 0x100000000 then marked 0xCE 4 n
    else marked 0xCF 8 n
  -- Negative integers go in two's complement of their width.
  else if -0x20 ≤ n then [UInt8.ofNat (n + 0x100).toNat]
  else if -0x80 ≤ n then marked 0xD0 1 (n + 0x100).toNat
  else if -0x8000 ≤ n then marked 0xD1 2 (n + 0x10000).toNat
  else if -0x80000000 ≤ n then marked 0xD2 4 (n + 0x100000000).toNat
  else marked 0xD3 8 (n + 0x10000000000000000).toNat

/-- The header of a text. -/
def strHeader (n : Nat) : List UInt8 :=
  if n < 0x20 then [UInt8.ofNat (0xA0 + n)]
  else if n < 0x100 then marked 0xD9 1 n
  else if n < 0x10000 then marked 0xDA 2 n
  else marked 0xDB 4 n

/-- The header of plain bytes. -/
def binHeader (n : Nat) : List UInt8 :=
  if n < 0x100 then marked 0xC4 1 n
  else if n < 0x10000 then marked 0xC5 2 n
  else marked 0xC6 4 n

/-- The header of an array. -/
def arrayHeader (n : Nat) : List UInt8 :=
  if n < 0x10 then [UInt8.ofNat (0x90 + n)]
  else if n < 0x10000 then marked 0xDC 2 n
  else marked 0xDD 4 n

/-- The header of a map. -/
def mapHeader (n : Nat) : List UInt8 :=
  if n < 0x10 then [UInt8.ofNat (0x80 + n)]
  else if n < 0x10000 then marked 0xDE 2 n
  else marked 0xDF 4 n

/-- The header of tagged bytes, up to the tag. -/
def extHeader (n : Nat) : List UInt8 :=
  if n = 1 then [0xD4]
  else if n = 2 then [0xD5]
  else if n = 4 then [0xD6]
  else if n = 8 then [0xD7]
  else if n = 16 then [0xD8]
  else if n < 0x100 then marked 0xC7 1 n
  else if n < 0x10000 then marked 0xC8 2 n
  else marked 0xC9 4 n

mutual

/-- The bytes of a value. -/
def write : Msgpack → List UInt8
  | nil => [0xC0]
  | bool false => [0xC2]
  | bool true => [0xC3]
  | int n => writeInt n
  | float32 bits => marked 0xCA 4 bits.toNat
  | float64 f => marked 0xCB 8 f.bits.toNat
  | str bytes => strHeader bytes.length ++ bytes
  | bin bytes => binHeader bytes.length ++ bytes
  | array items => arrayHeader items.length ++ writeItems items
  | map entries => mapHeader entries.length ++ writeEntries entries
  | ext tag bytes =>
    extHeader bytes.length ++ UInt8.ofNat (tag % 0x100).toNat :: bytes

/-- The bytes of several values. -/
def writeItems : List Msgpack → List UInt8
  | [] => []
  | m :: ms => m.write ++ writeItems ms

/-- The bytes of several entries, keys and values in turn. -/
def writeEntries : List (Msgpack × Msgpack) → List UInt8
  | [] => []
  | (k, v) :: rest => k.write ++ (v.write ++ writeEntries rest)

end

end TypedData.Msgpack
