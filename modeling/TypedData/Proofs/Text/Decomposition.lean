import Mathlib.Data.List.Chain
import TypedData.Text.NormalForm

/-!
# Canonical decomposition

A code point is decomposed by following the tables of canonical mappings, or the arithmetic of
Hangul syllables. The tables are sorted, no mapping starts in Hangul, the second half of a pair is
never mapped again, and no chain is longer than four. So what a decomposition yields is not
decomposed any further, and the decomposition of a composite is that of its first half followed by
the second half.

Each fact about the tables is checked in one pass over them. A pass asks whether code points are
mapped, so a list of code points is turned into the bits of one number first.

## Main definitions

* `bitsOf` — the code points of a list as the bits of a number
* `Unmapped` — no listed mapping takes a code point further
* `EndsWithin` — a chain of mappings ends after so many steps

## Main results

* `decompose_of_mem_decompose` — what a decomposition yields is not decomposed further
* `decompose_of_primaryComposite?` — the decomposition of a composite
* `isValidChar_of_mem_decompose`, `isValidChar_of_primaryComposite?` — both yield characters
-/

namespace TypedData.Text

open Unicode

variable {a b c d n : Nat}

/-! ### Lists of code points as bits -/

/-- The code points of a list as the bits of a number. -/
def bitsOf (cs : List Nat) : Nat := cs.foldl (fun bits c => bits ||| 1 <<< c) 0

theorem testBit_bitsOf {cs : List Nat} : (bitsOf cs).testBit c ↔ c ∈ cs := by
  have hfold (bits : Nat) : (cs.foldl (fun bits c => bits ||| 1 <<< c) bits).testBit c ↔
      bits.testBit c ∨ c ∈ cs := by
    induction cs generalizing bits with
    | nil => simp
    | cons d cs ih =>
      rw [List.foldl_cons, ih, Nat.testBit_or, Nat.one_shiftLeft, Nat.testBit_two_pow,
        Bool.or_eq_true, decide_eq_true_eq, List.mem_cons, or_assoc, eq_comm (a := d)]
  rw [bitsOf, hfold, Nat.zero_testBit]
  simp

/-! ### The tables -/

/-- A scalar value outside of Hangul. -/
def isOrdinary (c : Nat) : Bool :=
  c < 0x1100 || 0x11C3 ≤ c && c < firstSyllable || 0xE000 ≤ c && c < 0x110000

theorem isOrdinary_iff : isOrdinary c ↔
    c < 0x1100 ∨ (0x11C3 ≤ c ∧ c < 0xAC00) ∨ (0xE000 ≤ c ∧ c < 0x110000) := by
  have hfirst : firstSyllable = 0xAC00 := rfl
  simp only [isOrdinary, hfirst, Bool.or_eq_true, Bool.and_eq_true, decide_eq_true_eq, or_assoc]

/-- Each listed mapping as a step to the first code point it stands for. -/
def steps : List (Nat × Nat) := singletonMappings ++ pairMappings.map fun m => (m.1, m.2.1)

/-- The code points with a listed mapping, as bits. -/
def mappedBits : Nat := bitsOf (steps.map (·.1))

/-- The code points whose listed mappings end after at most `n` steps, as bits. -/
def bitsWithin : Nat → Nat
  | 0 => 0
  | n + 1 =>
    bitsOf ((steps.filter fun s => !mappedBits.testBit s.2 || (bitsWithin n).testBit s.2).map (·.1))

/-- No listed mapping takes a code point further. -/
def Unmapped (c : Nat) : Prop := c ∉ steps.map (·.1)

theorem testBit_mappedBits : mappedBits.testBit c = false ↔ Unmapped c := by
  rw [← Bool.not_eq_true, mappedBits, testBit_bitsOf, Unmapped]

theorem singletonMappings_sorted : List.IsChain (· < ·) (singletonMappings.map (·.1)) := by
  decide +kernel

theorem pairMappings_sorted : List.IsChain (· < ·) (pairMappings.map (·.1)) := by decide +kernel

/-- What the tables say of one pair. -/
private theorem pairMappings_checked : pairMappings.all fun m =>
    !(bitsOf (singletonMappings.map (·.1))).testBit m.1 && !mappedBits.testBit m.2.2 &&
      isOrdinary m.2.2 := by
  decide +kernel

/-- What the tables say of one step. -/
private theorem steps_checked : steps.all fun s =>
    isOrdinary s.1 && isOrdinary s.2 &&
      (!mappedBits.testBit s.2 || (bitsWithin 3).testBit s.2) := by
  decide +kernel

theorem isOrdinary_of_mem_steps (h : (c, a) ∈ steps) : isOrdinary c ∧ isOrdinary a := by
  have := List.all_eq_true.mp steps_checked _ h
  simp only [Bool.and_eq_true] at this
  exact this.1

/-- The second half of a pair is not mapped again. -/
theorem unmapped_of_mem_pairMappings (h : (c, a, b) ∈ pairMappings) :
    Unmapped b ∧ isOrdinary b := by
  have := List.all_eq_true.mp pairMappings_checked _ h
  simp only [Bool.and_eq_true, Bool.not_eq_true'] at this
  exact ⟨testBit_mappedBits.mp this.1.2, this.2⟩

theorem mem_steps_of_mem_pairMappings (h : (c, a, b) ∈ pairMappings) : (c, a) ∈ steps :=
  List.mem_append_right _ (List.mem_map.mpr ⟨_, h, rfl⟩)

/-- In a table with sorted keys, an entry is what its key finds. -/
theorem find?_of_sorted {β : Type} {table : List (Nat × β)}
    (hsorted : List.IsChain (· < ·) (table.map (·.1))) {e : Nat × β} (he : e ∈ table) :
    table.find? (·.1 == e.1) = some e := by
  have hdistinct : table.Pairwise fun x y => x.1 < y.1 := List.pairwise_map.mp hsorted.pairwise
  obtain ⟨before, after, rfl⟩ := List.append_of_mem he
  rw [List.pairwise_append] at hdistinct
  rw [List.find?_eq_some_iff_append]
  refine ⟨beq_self_eq_true _, before, after, rfl, fun x hx => ?_⟩
  have := hdistinct.2.2 x hx e List.mem_cons_self
  simp only [Bool.not_eq_true', beq_eq_false_iff_ne]
  omega

/-- A code point stands for one other code point, for a pair, or for itself. -/
theorem find?_singletonMappings_of_pair (h : (c, a, b) ∈ pairMappings) :
    singletonMappings.find? (·.1 == c) = none := by
  have hchecked := List.all_eq_true.mp pairMappings_checked _ h
  simp only [Bool.and_eq_true, Bool.not_eq_true'] at hchecked
  have hnot : c ∉ singletonMappings.map (·.1) := by
    rw [← testBit_bitsOf, hchecked.1.1]
    exact Bool.false_ne_true
  rw [List.find?_eq_none]
  intro e he heq
  exact hnot (List.mem_map.mpr ⟨e, he, beq_iff_eq.mp heq⟩)

theorem decomposeWithin_of_unmapped (h : Unmapped c) : decomposeWithin n c = [c] := by
  have hsingle : singletonMappings.find? (·.1 == c) = none := by
    rw [List.find?_eq_none]
    intro e he heq
    exact h (List.mem_map.mpr ⟨e, List.mem_append_left _ he, beq_iff_eq.mp heq⟩)
  have hpair : pairMappings.find? (·.1 == c) = none := by
    rw [List.find?_eq_none]
    intro e he heq
    exact h (List.mem_map.mpr ⟨_, mem_steps_of_mem_pairMappings he, beq_iff_eq.mp heq⟩)
  cases n with
  | zero => rfl
  | succ n => rw [decomposeWithin, hsingle, hpair]

theorem decomposeWithin_of_singleton (h : (c, a) ∈ singletonMappings) :
    decomposeWithin (n + 1) c = decomposeWithin n a := by
  rw [decomposeWithin, find?_of_sorted singletonMappings_sorted h]

theorem decomposeWithin_of_pair (h : (c, a, b) ∈ pairMappings) :
    decomposeWithin (n + 1) c = decomposeWithin n a ++ [b] := by
  rw [decomposeWithin, find?_singletonMappings_of_pair h, find?_of_sorted pairMappings_sorted h]

/-! ### Chains of mappings -/

/-- The chain of mappings from a code point ends after at most so many steps. -/
inductive EndsWithin : Nat → Nat → Prop where
  | unmapped {n c : Nat} (h : Unmapped c) : EndsWithin n c
  | singleton {n c a : Nat} (h : (c, a) ∈ singletonMappings) (hrest : EndsWithin n a) :
    EndsWithin (n + 1) c
  | pair {n c a b : Nat} (h : (c, a, b) ∈ pairMappings) (hrest : EndsWithin n a) :
    EndsWithin (n + 1) c

theorem EndsWithin.of_step (h : (c, a) ∈ steps) (hrest : EndsWithin n a) :
    EndsWithin (n + 1) c := by
  rcases List.mem_append.mp h with h | h
  · exact .singleton h hrest
  · obtain ⟨⟨c, a, b⟩, hm, heq⟩ := List.mem_map.mp h
    cases heq
    exact .pair hm hrest

theorem EndsWithin.of_testBit (h : (bitsWithin n).testBit c) : EndsWithin n c := by
  induction n generalizing c with
  | zero => rw [bitsWithin, Nat.zero_testBit] at h; cases h
  | succ n ih =>
    rw [bitsWithin, testBit_bitsOf] at h
    obtain ⟨⟨c, a⟩, hs, rfl⟩ := List.mem_map.mp h
    obtain ⟨hmem, hend⟩ := List.mem_filter.mp hs
    rw [Bool.or_eq_true, Bool.not_eq_true', testBit_mappedBits] at hend
    exact .of_step hmem (hend.elim .unmapped ih)

/-- Chains of mappings end after three further steps. -/
theorem EndsWithin.of_mem_steps (h : (c, a) ∈ steps) : EndsWithin 3 a := by
  have := List.all_eq_true.mp steps_checked _ h
  simp only [Bool.and_eq_true, Bool.or_eq_true, Bool.not_eq_true', testBit_mappedBits] at this
  exact this.2.elim .unmapped .of_testBit

theorem endsWithin_four (c : Nat) : EndsWithin 4 c := by
  by_cases h : Unmapped c
  · exact .unmapped h
  · obtain ⟨⟨c, a⟩, hs, rfl⟩ := List.mem_map.mp (not_not.mp h)
    exact .of_step hs (.of_mem_steps hs)

/-- A chain that has ended is not changed by further steps. -/
theorem EndsWithin.decomposeWithin_succ (h : EndsWithin n c) :
    decomposeWithin (n + 1) c = decomposeWithin n c := by
  induction h with
  | unmapped h => rw [decomposeWithin_of_unmapped h, decomposeWithin_of_unmapped h]
  | singleton h _ ih => rw [decomposeWithin_of_singleton h, decomposeWithin_of_singleton h, ih]
  | pair h _ ih => rw [decomposeWithin_of_pair h, decomposeWithin_of_pair h, ih]

/-- What a chain that has ended yields is not mapped further, and it is scalar values outside of
Hangul unless it is the code point itself. -/
theorem EndsWithin.unmapped_of_mem (h : EndsWithin n c) (hd : d ∈ decomposeWithin n c) :
    Unmapped d ∧ (d = c ∨ isOrdinary d) := by
  induction h with
  | unmapped h =>
    rw [decomposeWithin_of_unmapped h, List.mem_singleton] at hd
    exact ⟨hd ▸ h, .inl hd⟩
  | singleton h _ ih =>
    rw [decomposeWithin_of_singleton h] at hd
    obtain ⟨hunmapped, hd⟩ := ih hd
    refine ⟨hunmapped, .inr (hd.elim (fun hd => ?_) id)⟩
    exact hd ▸ (isOrdinary_of_mem_steps (List.mem_append_left _ h)).2
  | pair h _ ih =>
    rw [decomposeWithin_of_pair h, List.mem_append, List.mem_singleton] at hd
    rcases hd with hd | rfl
    · obtain ⟨hunmapped, hd⟩ := ih hd
      refine ⟨hunmapped, .inr (hd.elim (fun hd => ?_) id)⟩
      exact hd ▸ (isOrdinary_of_mem_steps (mem_steps_of_mem_pairMappings h)).2
    · exact (unmapped_of_mem_pairMappings h).imp_right .inr

/-! ### Hangul -/

theorem firstSyllable_eq : firstSyllable = 0xAC00 := rfl

/-- A leading consonant, a vowel or a trailing consonant, or what lies between them. -/
def IsJamo (c : Nat) : Prop := 0x1100 ≤ c ∧ c < 0x11C3

theorem syllableParts?_of_not_syllable (h : c < firstSyllable ∨ firstSyllable + 11172 ≤ c) :
    syllableParts? c = none :=
  if_neg (by omega)

/-- The parts of the syllable of a number. -/
theorem syllableParts?_syllable {i : Nat} (h : i < 11172) : syllableParts? (firstSyllable + i) =
    some ([0x1100 + i / 588, 0x1161 + i % 588 / 28] ++
      if i % 28 = 0 then [] else [0x11A7 + i % 28]) := by
  rw [syllableParts?, if_pos (by omega), Nat.add_sub_cancel_left]
  by_cases hopen : i % 28 = 0 <;> simp [hopen]

theorem syllableParts?_of_isOrdinary (h : isOrdinary c) : syllableParts? c = none := by
  rw [isOrdinary_iff] at h
  exact syllableParts?_of_not_syllable (by rw [firstSyllable_eq]; omega)

theorem exists_syllable {parts : List Nat} (h : syllableParts? c = some parts) :
    ∃ i < 11172, c = firstSyllable + i := by
  by_cases hc : c < firstSyllable ∨ firstSyllable + 11172 ≤ c
  · rw [syllableParts?_of_not_syllable hc] at h
    cases h
  · exact ⟨c - firstSyllable, by omega, by omega⟩

theorem isJamo_of_mem_syllableParts? {parts : List Nat} (h : syllableParts? c = some parts)
    (hd : d ∈ parts) : IsJamo d := by
  obtain ⟨i, hi, rfl⟩ := exists_syllable h
  rw [syllableParts?_syllable hi, Option.some.injEq] at h
  subst h
  have hlast : d ∈ (if i % 28 = 0 then [] else [0x11A7 + i % 28]) → d = 0x11A7 + i % 28 := by
    split <;> simp
  simp only [List.mem_append, List.mem_cons, List.not_mem_nil, or_false] at hd
  rw [IsJamo]
  rcases hd with (rfl | rfl) | hd
  · omega
  · omega
  · have := hlast hd
    omega

theorem isValidChar_of_isJamo (h : IsJamo c) : c.isValidChar := .inl (by have := h.2; omega)

theorem isValidChar_of_isOrdinary (h : isOrdinary c) : c.isValidChar := by
  rw [isOrdinary_iff] at h
  rw [Nat.isValidChar]
  omega

/-- No mapping starts in Hangul. -/
theorem unmapped_of_isJamo (h : IsJamo c) : Unmapped c := by
  intro hmem
  obtain ⟨⟨c, a⟩, hs, rfl⟩ := List.mem_map.mp hmem
  have hordinary := isOrdinary_iff.mp (isOrdinary_of_mem_steps hs).1
  rw [IsJamo] at h
  omega

/-! ### Full decompositions -/

theorem decompose_of_unmapped (hsyllable : syllableParts? c = none) (h : Unmapped c) :
    decompose c = [c] := by
  rw [decompose, hsyllable]
  exact decomposeWithin_of_unmapped h

theorem decompose_of_isJamo (h : IsJamo c) : decompose c = [c] := by
  refine decompose_of_unmapped (syllableParts?_of_not_syllable (.inl ?_)) (unmapped_of_isJamo h)
  have := h.2
  rw [firstSyllable_eq]
  omega

theorem decompose_syllable {i : Nat} (h : i < 11172) : decompose (firstSyllable + i) =
    [0x1100 + i / 588, 0x1161 + i % 588 / 28] ++
      if i % 28 = 0 then [] else [0x11A7 + i % 28] := by
  rw [decompose, syllableParts?_syllable h]

theorem decompose_of_isOrdinary (h : isOrdinary c) : decompose c = decomposeWithin 4 c := by
  rw [decompose, syllableParts?_of_isOrdinary h]

/-- What a decomposition yields is not decomposed further. -/
theorem decompose_of_mem_decompose (h : d ∈ decompose c) : decompose d = [d] := by
  rw [decompose] at h
  split at h
  · exact decompose_of_isJamo (isJamo_of_mem_syllableParts? ‹_› h)
  · obtain ⟨hunmapped, rfl | hd⟩ := (endsWithin_four c).unmapped_of_mem h
    · exact decompose_of_unmapped ‹_› hunmapped
    · exact decompose_of_unmapped (syllableParts?_of_isOrdinary hd) hunmapped

theorem isValidChar_of_mem_decompose (hc : c.isValidChar) (h : d ∈ decompose c) :
    d.isValidChar := by
  rw [decompose] at h
  split at h
  · exact isValidChar_of_isJamo (isJamo_of_mem_syllableParts? ‹_› h)
  · obtain ⟨-, rfl | hd⟩ := (endsWithin_four c).unmapped_of_mem h
    · exact hc
    · exact isValidChar_of_isOrdinary hd

theorem decompose_of_mem_pairMappings (h : (c, a, b) ∈ pairMappings) :
    decompose c = decompose a ++ [b] := by
  have hstep := mem_steps_of_mem_pairMappings h
  obtain ⟨hc, ha⟩ := isOrdinary_of_mem_steps hstep
  rw [decompose_of_isOrdinary hc, decompose_of_isOrdinary ha, decomposeWithin_of_pair h,
    (EndsWithin.of_mem_steps hstep).decomposeWithin_succ]

/-! ### Composites -/

theorem decompose_of_syllable? (h : syllable? a b = some c) : decompose c = decompose a ++ [b] := by
  rw [syllable?] at h
  split at h
  · -- An open syllable stands for a consonant and a vowel.
    rename_i hab
    obtain rfl := Option.some.inj h
    rw [decompose_of_isJamo ⟨hab.1, by omega⟩, decompose_syllable (by omega), if_pos (by omega)]
    simp only [List.cons_append, List.nil_append, List.cons.injEq, and_true]
    omega
  · -- A closed syllable stands for an open one and a trailing consonant.
    simp only [Option.ite_none_right_eq_some, Option.some.injEq] at h
    obtain ⟨⟨hfirst, hlast, hopen, hb⟩, rfl⟩ := h
    obtain ⟨i, rfl⟩ := Nat.exists_eq_add_of_le hfirst
    rw [Nat.add_sub_cancel_left] at hopen
    rw [Nat.add_assoc, decompose_syllable (by omega), decompose_syllable (by omega),
      if_neg (by omega), if_pos hopen]
    simp only [List.cons_append, List.nil_append, List.cons.injEq, and_true]
    omega

theorem primaryComposite?_eq_some (h : primaryComposite? a b = some c) :
    syllable? a b = some c ∨ (c, a, b) ∈ pairMappings := by
  rw [primaryComposite?] at h
  split at h
  · exact .inl (h ▸ ‹_›)
  · split at h
    · rename_i hfind
      obtain rfl := Option.some.inj h
      have hmatch := List.find?_some hfind
      simp only [Bool.and_eq_true, beq_iff_eq] at hmatch
      obtain ⟨⟨rfl, rfl⟩, -⟩ := hmatch
      exact .inr (List.mem_of_find?_eq_some hfind)
    · cases h

/-- The decomposition of a composite is that of its first half, and then the second half. -/
theorem decompose_of_primaryComposite? (h : primaryComposite? a b = some c) :
    decompose c = decompose a ++ [b] :=
  (primaryComposite?_eq_some h).elim decompose_of_syllable? decompose_of_mem_pairMappings

theorem isValidChar_of_primaryComposite? (h : primaryComposite? a b = some c) :
    c.isValidChar := by
  rcases primaryComposite?_eq_some h with h | h
  · refine .inl ?_
    rw [syllable?, firstSyllable_eq] at h
    split at h
    · obtain rfl := Option.some.inj h
      omega
    · simp only [Option.ite_none_right_eq_some, Option.some.injEq] at h
      omega
  · exact isValidChar_of_isOrdinary (isOrdinary_of_mem_steps (mem_steps_of_mem_pairMappings h)).1

end TypedData.Text
