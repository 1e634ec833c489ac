import TypedData.Msgpack.Writer

/-!
# Reading MessagePack

A reader takes values off the front of some bytes under a budget that bounds nesting. A value
spends one unit, and the children of an array or map are read with one unit less than that
leaves. Texts and tagged bytes spend two further units, plain bytes one.

## Main definitions

* `Msgpack.Reading` — a step that takes bytes off the front
* `Msgpack.readValue` — one value under a budget
-/

namespace TypedData.Msgpack

/-- Why some bytes are not read. -/
inductive ReadError where
  /-- The bytes are not MessagePack. -/
  | malformed
  /-- The budget is spent. -/
  | tooDeep
deriving Repr, DecidableEq, Inhabited

/-- The wording of a read error. -/
def ReadError.message : ReadError → String
  | malformed => "<msgpack syntax>"
  | tooDeep => "depth limit exceeded"

/-- A step that takes bytes off the front, or fails. -/
abbrev Reading (α : Type) := List UInt8 → Except ReadError (α × List UInt8)

namespace Reading

/-- Takes nothing. -/
def pure {α : Type} (a : α) : Reading α := fun bytes => .ok (a, bytes)

/-- One step after another. -/
def bind {α β : Type} (r : Reading α) (f : α → Reading β) : Reading β := fun bytes =>
  match r bytes with
  | .ok (a, rest) => f a rest
  | .error e => .error e

instance : Monad Reading where
  pure := pure
  bind := bind

/-- Takes nothing and fails. -/
def fail {α : Type} (e : ReadError) : Reading α := fun _ => .error e

end Reading

/-- Splits off the first `n` bytes, if there are as many. -/
def splitBytes? : Nat → List UInt8 → Option (List UInt8 × List UInt8)
  | 0, bytes => some ([], bytes)
  | _ + 1, [] => none
  | n + 1, b :: bytes => (splitBytes? n bytes).map fun (front, rest) => (b :: front, rest)

/-- The next `n` bytes. -/
def takeBytes (n : Nat) : Reading (List UInt8) := fun bytes =>
  match splitBytes? n bytes with
  | some r => .ok r
  | none => .error .malformed

/-- The number some bytes denote, most significant first. -/
def natOfBytes (bytes : List UInt8) : Nat := bytes.foldl (fun n b => n * 256 + b.toNat) 0

/-- An unsigned number of `n` bytes. -/
def takeNat (n : Nat) : Reading Nat := do return natOfBytes (← takeBytes n)

/-- A signed number of `n` bytes, in two's complement. -/
def takeInt (n : Nat) : Reading Int := do
  let value ← takeNat n
  return if value < Nat.pow 2 (8 * n - 1) then value else (value : Int) - Nat.pow 2 (8 * n)

/-- Plain bytes, which spend a unit. -/
def takeBin (budget n : Nat) : Reading (List UInt8) :=
  if budget = 0 then .fail .tooDeep else takeBytes n

/-- The bytes of a text, which spend two units. -/
def takeStr (budget n : Nat) : Reading Msgpack :=
  if budget = 0 then .fail .tooDeep else do return str (← takeBin (budget - 1) n)

/-- Tagged bytes, which spend one unit before the tag and one after it. -/
def takeExt (budget n : Nat) : Reading Msgpack :=
  if budget = 0 then .fail .tooDeep else do
    let tag ← takeInt 1
    return ext tag (← takeBin (budget - 1) n)

/-- `n` values, one after another. -/
def takeItems (read : Reading Msgpack) : Nat → Reading (List Msgpack)
  | 0 => .pure []
  | n + 1 => do
    let m ← read
    let ms ← takeItems read n
    return m :: ms

/-- `n` keys and values in turn. -/
def takeEntries (read : Reading Msgpack) : Nat → Reading (List (Msgpack × Msgpack))
  | 0 => .pure []
  | n + 1 => do
    let k ← read
    let v ← read
    let rest ← takeEntries read n
    return (k, v) :: rest

/-- What a marker byte announces. -/
inductive Shape where
  | value (m : Msgpack)
  | nat (size : Nat)
  | int (size : Nat)
  | float32
  | float64
  | str (size : Nat)
  | bin (size : Nat)
  | array (size : Nat)
  | map (size : Nat)
  | ext (size : Nat)
deriving Inhabited

/-- The shape behind a marker byte, with its length where one follows. -/
def takeShape (marker : Nat) : Reading Shape :=
  -- Small integers, and short containers and texts, are told by the marker alone.
  if marker < 0x80 then .pure (.value (.int marker))
  else if marker < 0x90 then .pure (.map (marker - 0x80))
  else if marker < 0xA0 then .pure (.array (marker - 0x90))
  else if marker < 0xC0 then .pure (.str (marker - 0xA0))
  else if 0xE0 ≤ marker then .pure (.value (.int ((marker : Int) - 0x100)))
  else
    match marker with
    | 0xC2 => .pure (.value (.bool false))
    | 0xC3 => .pure (.value (.bool true))
    | 0xC4 => do return .bin (← takeNat 1)
    | 0xC5 => do return .bin (← takeNat 2)
    | 0xC6 => do return .bin (← takeNat 4)
    | 0xC7 => do return .ext (← takeNat 1)
    | 0xC8 => do return .ext (← takeNat 2)
    | 0xC9 => do return .ext (← takeNat 4)
    | 0xCA => .pure .float32
    | 0xCB => .pure .float64
    | 0xCC => .pure (.nat 1)
    | 0xCD => .pure (.nat 2)
    | 0xCE => .pure (.nat 4)
    | 0xCF => .pure (.nat 8)
    | 0xD0 => .pure (.int 1)
    | 0xD1 => .pure (.int 2)
    | 0xD2 => .pure (.int 4)
    | 0xD3 => .pure (.int 8)
    | 0xD4 => .pure (.ext 1)
    | 0xD5 => .pure (.ext 2)
    | 0xD6 => .pure (.ext 4)
    | 0xD7 => .pure (.ext 8)
    | 0xD8 => .pure (.ext 16)
    | 0xD9 => do return .str (← takeNat 1)
    | 0xDA => do return .str (← takeNat 2)
    | 0xDB => do return .str (← takeNat 4)
    | 0xDC => do return .array (← takeNat 2)
    | 0xDD => do return .array (← takeNat 4)
    | 0xDE => do return .map (← takeNat 2)
    | 0xDF => do return .map (← takeNat 4)
    | _ => .pure (.value .nil)

/-- The rest of a value without children. -/
def takeLeaf (budget : Nat) : Shape → Reading Msgpack
  | .value m => .pure m
  | .nat size => do return int (← takeNat size)
  | .int size => do return int (← takeInt size)
  | .float32 => do return float32 (UInt32.ofNat (← takeNat 4))
  | .float64 => do return float64 ⟨UInt64.ofNat (← takeNat 8)⟩
  | .str size => takeStr budget size
  | .bin size => do return bin (← takeBin budget size)
  | .ext size => takeExt budget size
  | .array _ | .map _ => .fail .tooDeep

/-- One value under a budget. The reserved marker `0xC1` reads as nil. -/
def readValue : Nat → Reading Msgpack
  | 0 => .fail .tooDeep
  -- The last unit pays for the value itself and leaves nothing for children.
  | 1 => do takeLeaf 0 (← takeShape (← takeNat 1))
  | budget + 2 => do
    match ← takeShape (← takeNat 1) with
    | .array size => do return array (← takeItems (readValue budget) size)
    | .map size => do return map (← takeEntries (readValue budget) size)
    | leaf => takeLeaf (budget + 1) leaf

end TypedData.Msgpack
