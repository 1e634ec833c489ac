import TypedData.Text.Unicode.Decomposition
import TypedData.Text.Unicode.CombiningClass

/-!
# Normalization form C

Canonically equivalent spellings of a text have one composed form. Names and keys are compared
in that form, so that a letter followed by a combining accent and the accented letter are the
same name.

A text is taken apart, its combining marks are put in canonical order, and marks are then
joined again with the starter before them wherever a primary composite exists.

## Main definitions

* `decompose` — the full canonical decomposition of a code point
* `reorder` — canonical ordering of combining marks
* `compose` — canonical composition
* `nfc` — the composed form of a text
-/

namespace TypedData.Text

/-- The canonical combining class of a code point; starters have class `0`. -/
def combiningClass (c : Nat) : Nat :=
  match Unicode.combiningClassRanges.find? fun (first, last, _) => first ≤ c && c ≤ last with
  | some (_, _, k) => k
  | none => 0

/-! ### Hangul syllables

Syllables are numbered by leading consonant, vowel and optional trailing consonant. -/

/-- The first of the 11172 Hangul syllables. -/
def firstSyllable : Nat := 0xAC00

/-- The jamo of a Hangul syllable, two or three of them. -/
def syllableParts? (c : Nat) : Option (List Nat) :=
  if firstSyllable ≤ c ∧ c < firstSyllable + 11172 then
    let i := c - firstSyllable
    let lv := [0x1100 + i / 588, 0x1161 + i % 588 / 28]
    some (if i % 28 = 0 then lv else lv ++ [0x11A7 + i % 28])
  else
    none

/-- The syllable made of a leading consonant and a vowel, or of an open syllable and a
trailing consonant. -/
def syllable? (a b : Nat) : Option Nat :=
  if 0x1100 ≤ a ∧ a < 0x1113 ∧ 0x1161 ≤ b ∧ b < 0x1176 then
    some (firstSyllable + ((a - 0x1100) * 21 + (b - 0x1161)) * 28)
  else if firstSyllable ≤ a ∧ a < firstSyllable + 11172 ∧ (a - firstSyllable) % 28 = 0 ∧
      0x11A7 < b ∧ b < 0x11C3 then
    some (a + (b - 0x11A7))
  else
    none

/-! ### Decomposition -/

/-- Follows the listed mappings at most `n` times. Only the first code point of a pair is ever
mapped further. -/
def decomposeWithin : Nat → Nat → List Nat
  | 0, c => [c]
  | n + 1, c =>
    match Unicode.singletonMappings.find? (·.1 == c) with
    | some (_, a) => decomposeWithin n a
    | none =>
      match Unicode.pairMappings.find? (·.1 == c) with
      | some (_, a, b) => decomposeWithin n a ++ [b]
      | none => [c]

/-- The full canonical decomposition of a code point. No chain of mappings is longer than
four. -/
def decompose (c : Nat) : List Nat :=
  match syllableParts? c with
  | some parts => parts
  | none => decomposeWithin 4 c

/-! ### Canonical order -/

/-- Puts a code point in front of a text in canonical order, moving it behind the marks of
smaller class that follow. -/
def place (c : Nat) : List Nat → List Nat
  | [] => [c]
  | d :: rest =>
    if 0 < combiningClass d ∧ combiningClass d < combiningClass c then d :: place c rest
    else c :: d :: rest

/-- Sorts every run of combining marks by class, keeping the order of equal classes. -/
def reorder (cs : List Nat) : List Nat := cs.foldr place []

/-! ### Composition -/

/-- The primary composite of a pair, if there is one. -/
def primaryComposite? (a b : Nat) : Option Nat :=
  match syllable? a b with
  | some c => some c
  | none =>
    match Unicode.pairMappings.find? (fun (c, x, y) =>
        x == a && y == b && !Unicode.compositionExclusions.contains c) with
    | some (c, _, _) => some c
    | none => none

/-- Composes what follows a starter. `between` holds, last first, the marks met since the
starter that did not join it; a later code point reaches the starter only past marks of
smaller class. -/
def composeFrom (starter : Nat) (between : List Nat) : List Nat → List Nat
  | [] => starter :: between.reverse
  | c :: rest =>
    -- Marks that did not join are in order of class, so the last one decides.
    let reaches := match between with
      | [] => true
      | d :: _ => decide (combiningClass d < combiningClass c)
    match if reaches then primaryComposite? starter c else none with
    | some p => composeFrom p between rest
    | none =>
      if combiningClass c = 0 then starter :: between.reverse ++ composeFrom c [] rest
      else composeFrom starter (c :: between) rest

/-- Canonical composition of a text in canonical order. Marks before the first starter stay
as they are. -/
def compose : List Nat → List Nat
  | [] => []
  | c :: rest => if combiningClass c = 0 then composeFrom c [] rest else c :: compose rest

/-- One run of decomposition, ordering and composition. -/
def recompose (s : String) : String :=
  String.ofList
    ((compose (reorder (s.toList.flatMap fun c => decompose c.toNat))).map Char.ofNat)

/-- Whether a text has no code point from U+0300 on: no mark is there to join, and whatever has a
decomposition is composed again. -/
def isPlain (s : String) : Bool := s.toList.all fun c => c.toNat < 0x300

/-- The composed form of a text. -/
def nfc (s : String) : String := if isPlain s then s else recompose s

/-- Plain text is its own composed form. -/
theorem nfc_of_isPlain {s : String} (h : isPlain s) : nfc s = s := by simp [nfc, h]

end TypedData.Text
