import TypedData.Text.Utf8

/-!
# Text from its own bytes

## Main results

* `Utf8.next?_encodeChar` — the bytes of a character are read as that character
* `Utf8.split_encode` — the bytes of a text are read as that text, and none are left over
* `Utf8.toString?_ofString` — the same for strings
-/

namespace TypedData.Text.Utf8

@[simp] theorem toNat_tail (n : Nat) : (tail n).toNat = 0x80 + n % 64 := by
  rw [tail, UInt8.toNat_ofNat']
  omega

@[simp] theorem tail?_tail (n : Nat) : tail? (tail n) = some (n % 64) := by
  rw [tail?, toNat_tail, if_pos (by omega), Nat.add_sub_cancel_left]

theorem charFrom?_toNat {least : Nat} {c : Char} (h : least ≤ c.toNat) :
    charFrom? least c.toNat = some c := by
  rw [charFrom?, if_pos ⟨h, c.valid⟩, Char.ofNat_toNat]

/-- Code points have at most 21 bits. -/
theorem toNat_lt (c : Char) : c.toNat < 0x110000 := by
  rcases c.valid with h | h
  · exact Nat.lt_trans h (by decide)
  · exact h.2

/-! ### Characters by the number of their bytes -/

section Lengths

variable {a b c d : UInt8} {rest : List UInt8} {x y z : Nat}

theorem next?_one (h : a.toNat < 0x80) : next? (a :: rest) = some (Char.ofNat a.toNat, rest) :=
  if_pos h

theorem next?_two (h : 0xC0 ≤ a.toNat) (h' : a.toNat < 0xE0) (hb : tail? b = some x) :
    next? (a :: b :: rest) =
      (charFrom? 0x80 ((a.toNat - 0xC0) * 64 + x)).bind fun c => some (c, rest) := by
  have hnext : next? (a :: b :: rest) = (tail? b).bind fun x =>
      (charFrom? 0x80 ((a.toNat - 0xC0) * 64 + x)).bind fun c => some (c, rest) :=
    (if_neg (by omega)).trans <| (if_neg (by omega)).trans (if_pos h')
  rw [hnext, hb, Option.bind_some]

theorem next?_three (h : 0xE0 ≤ a.toNat) (h' : a.toNat < 0xF0) (hb : tail? b = some x)
    (hc : tail? c = some y) :
    next? (a :: b :: c :: rest) =
      (charFrom? 0x800 ((a.toNat - 0xE0) * 4096 + x * 64 + y)).bind fun c => some (c, rest) := by
  have hnext : next? (a :: b :: c :: rest) = (tail? b).bind fun x => (tail? c).bind fun y =>
      (charFrom? 0x800 ((a.toNat - 0xE0) * 4096 + x * 64 + y)).bind fun c => some (c, rest) :=
    (if_neg (by omega)).trans <| (if_neg (by omega)).trans <| (if_neg (by omega)).trans (if_pos h')
  rw [hnext, hb, hc, Option.bind_some, Option.bind_some]

theorem next?_four (h : 0xF0 ≤ a.toNat) (h' : a.toNat < 0xF8) (hb : tail? b = some x)
    (hc : tail? c = some y) (hd : tail? d = some z) :
    next? (a :: b :: c :: d :: rest) =
      (charFrom? 0x10000 ((a.toNat - 0xF0) * 262144 + x * 4096 + y * 64 + z)).bind
        fun c => some (c, rest) := by
  -- Unfolding under the binders would have the kernel count up to the factors.
  have hnext : next? (a :: b :: c :: d :: rest) = (tail? b).bind fun x => (tail? c).bind fun y =>
      (tail? d).bind fun z =>
        (charFrom? 0x10000 ((a.toNat - 0xF0) * 262144 + x * 4096 + y * 64 + z)).bind
          fun c => some (c, rest) :=
    (if_neg (by omega)).trans <| (if_neg (by omega)).trans <| (if_neg (by omega)).trans <|
      (if_neg (by omega)).trans (if_pos h')
  rw [hnext, hb, hc, hd, Option.bind_some, Option.bind_some, Option.bind_some]

end Lengths

/-- The bytes of a character are read as that character, whatever follows. -/
theorem next?_encodeChar (c : Char) (rest : List UInt8) :
    next? (encodeChar c ++ rest) = some (c, rest) := by
  have hlt := toNat_lt c
  -- A case for each number of bytes: the leading byte tells it, and carries the highest bits.
  simp only [encodeChar]
  split
  · rename_i h
    have hlead : (UInt8.ofNat c.toNat).toNat = c.toNat := by
      rw [UInt8.toNat_ofNat']
      omega
    rw [List.singleton_append, next?_one (by omega), hlead, Char.ofNat_toNat]
  split
  · rename_i h₁ h₂
    have hlead : (UInt8.ofNat (0xC0 + c.toNat / 64)).toNat = 0xC0 + c.toNat / 64 := by
      rw [UInt8.toNat_ofNat']
      omega
    have hcode : (0xC0 + c.toNat / 64 - 0xC0) * 64 + c.toNat % 64 = c.toNat := by omega
    simp only [List.cons_append, List.nil_append]
    rw [next?_two (by omega) (by omega) (tail?_tail _), hlead, hcode, charFrom?_toNat (by omega),
      Option.bind_some]
  split
  · rename_i h₁ h₂ h₃
    have hlead : (UInt8.ofNat (0xE0 + c.toNat / 4096)).toNat = 0xE0 + c.toNat / 4096 := by
      rw [UInt8.toNat_ofNat']
      omega
    have hcode : (0xE0 + c.toNat / 4096 - 0xE0) * 4096 + c.toNat / 64 % 64 * 64 +
        c.toNat % 64 = c.toNat := by omega
    simp only [List.cons_append, List.nil_append]
    rw [next?_three (by omega) (by omega) (tail?_tail _) (tail?_tail _), hlead, hcode,
      charFrom?_toNat (by omega), Option.bind_some]
  · rename_i h₁ h₂ h₃
    have hlead : (UInt8.ofNat (0xF0 + c.toNat / 262144)).toNat = 0xF0 + c.toNat / 262144 := by
      rw [UInt8.toNat_ofNat']
      omega
    have hcode : (0xF0 + c.toNat / 262144 - 0xF0) * 262144 + c.toNat / 4096 % 64 * 4096 +
        c.toNat / 64 % 64 * 64 + c.toNat % 64 = c.toNat := by omega
    simp only [List.cons_append, List.nil_append]
    rw [next?_four (by omega) (by omega) (tail?_tail _) (tail?_tail _) (tail?_tail _), hlead, hcode,
      charFrom?_toNat (by omega), Option.bind_some]

/-! ### Whole texts -/

/-- A character takes one to four bytes. -/
theorem length_encodeChar (c : Char) :
    0 < (encodeChar c).length ∧ (encodeChar c).length ≤ 4 := by
  simp only [encodeChar]
  split
  · simp
  split
  · simp
  split <;> simp

theorem length_le_length_encode (cs : List Char) : cs.length ≤ (encode cs).length := by
  induction cs with
  | nil => simp
  | cons c cs ih =>
    have := (length_encodeChar c).1
    rw [encode, List.flatMap_cons, ← encode]
    simp only [List.length_append, List.length_cons]
    omega

theorem length_encode_le (cs : List Char) : (encode cs).length ≤ 4 * cs.length := by
  induction cs with
  | nil => exact Nat.zero_le _
  | cons c cs ih =>
    have := (length_encodeChar c).2
    rw [encode, List.flatMap_cons, ← encode]
    simp only [List.length_append, List.length_cons]
    omega

/-- Enough steps read all of a text. -/
theorem splitWithin_encode {n : Nat} {cs done : List Char} (h : cs.length ≤ n) :
    splitWithin n (encode cs) done = (done.reverse ++ cs, []) := by
  induction cs generalizing n done with
  | nil => cases n <;> simp [encode, splitWithin, next?]
  | cons c cs ih =>
    cases n with
    | zero => simp at h
    | succ n =>
      rw [encode, List.flatMap_cons, ← encode, splitWithin, next?_encodeChar]
      simp only
      rw [ih (by simpa using h), List.reverse_cons, List.append_assoc, List.singleton_append]

/-- The bytes of a text are read as that text. -/
@[simp] theorem split_encode (cs : List Char) : split (encode cs) = (cs, []) := by
  rw [split, splitWithin_encode (length_le_length_encode cs), List.reverse_nil, List.nil_append]

@[simp] theorem decode?_encode (cs : List Char) : decode? (encode cs) = some cs := by
  rw [decode?, split_encode]

@[simp] theorem toString?_ofString (s : String) : toString? (ofString s) = some s := by
  rw [toString?, ofString, decode?_encode, Option.map_some, String.ofList_toList]

end TypedData.Text.Utf8
