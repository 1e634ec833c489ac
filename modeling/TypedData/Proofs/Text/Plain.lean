import Mathlib.Data.List.Nodup
import TypedData.Proofs.Text.NormalForm

/-!
# Plain texts

The composed form of a text without code points from U+0300 on is the text itself, so that nothing
has to be looked up for it. Each of its code points comes apart into a starter and marks that are in
canonical order already; the marks join the starter one by one until the code point is there again,
and the next starter does not join it.

## Main definitions

* `PlainParts` — the parts of a plain code point, which compose it again

## Main results

* `recompose_of_isPlain` — a plain text is its own composed form
* `nfc_eq_recompose` — the composed form of every text, without the case of plain ones
* `nfc_nfc` — the composed form of a text is in composed form
-/

namespace TypedData.Text

open Unicode

variable {a b c d n : Nat} {cs : List Nat}

/-! ### The tables below U+0300 -/

/-- Whether no number of a list is repeated, or is a bit of the given number. -/
def distinctFrom (bits : Nat) : List Nat → Bool
  | [] => true
  | k :: ks => !bits.testBit k && distinctFrom (bits ||| 1 <<< k) ks

theorem nodup_of_distinctFrom {bits : Nat} {ks : List Nat} (h : distinctFrom bits ks) :
    ks.Nodup ∧ ∀ k ∈ ks, bits.testBit k = false := by
  induction ks generalizing bits with
  | nil => exact ⟨.nil, nofun⟩
  | cons k ks ih =>
    simp only [distinctFrom, Bool.and_eq_true, Bool.not_eq_true'] at h
    obtain ⟨hnodup, hbits⟩ := ih h.2
    simp only [Nat.testBit_or, Nat.one_shiftLeft, Nat.testBit_two_pow, Bool.or_eq_false_iff,
      decide_eq_false_iff_not] at hbits
    refine ⟨List.nodup_cons.mpr ⟨fun hk => (hbits k hk).2 rfl, hnodup⟩, ?_⟩
    exact List.forall_mem_cons.mpr ⟨h.1, fun k' hk' => (hbits k' hk').1⟩

/-- The pairs that start below U+0300, with their composites. -/
def plainPairs : List (Nat × Nat × Nat) := pairMappings.filter fun m => m.2.1 < 0x300

/-- The two halves of a pair that starts below U+0300, as one number. -/
def pairCode (m : Nat × Nat × Nat) : Nat := m.2.1 * 0x100 + (m.2.2 - 0x300)

private theorem plainPairs_distinct : distinctFrom 0 (plainPairs.map pairCode) := by
  decide +kernel

/-- The second half of a pair is no plain code point. A pair with a plain composite starts with a
plain code point; it is composed again, and its mark comes after those of the first half. -/
private theorem pairMappings_plain : pairMappings.all fun m =>
    0x300 ≤ m.2.2 && (0x300 ≤ m.2.1 || m.2.2 < 0x400) &&
      (0x300 ≤ m.1 || m.2.1 < 0x300 && !compositionExclusions.contains m.1 &&
        combiningClass m.2.2 ≤ 230 &&
        (!mappedBits.testBit m.2.1 || combiningClass m.2.2 == 230)) := by
  decide +kernel

private theorem singletonMappings_plain : singletonMappings.all fun m => 0x300 ≤ m.1 := by
  decide +kernel

private theorem combiningClassRanges_plain : combiningClassRanges.all fun r => 0x300 ≤ r.1 := by
  decide +kernel

/-- Plain code points are starters. -/
theorem combiningClass_of_plain (h : c < 0x300) : combiningClass c = 0 := by
  rw [combiningClass, List.find?_eq_none.mpr]
  intro r hr
  have hbelow := List.all_eq_true.mp combiningClassRanges_plain r hr
  simp only [decide_eq_true_eq, Bool.and_eq_true] at hbelow ⊢
  omega

/-- What a pair whose composite is plain consists of. -/
theorem plain_of_mem_pairMappings (h : (c, a, b) ∈ pairMappings) (hc : c < 0x300) :
    a < 0x300 ∧ c ∉ compositionExclusions ∧ combiningClass b ≤ 230 ∧
      (Unmapped a ∨ combiningClass b = 230) := by
  have := List.all_eq_true.mp pairMappings_plain _ h
  simp only [Bool.and_eq_true, Bool.or_eq_true, Bool.not_eq_true', decide_eq_true_eq, beq_iff_eq,
    List.contains_eq_mem, decide_eq_false_iff_not, testBit_mappedBits] at this
  obtain ⟨⟨⟨ha, hexcluded⟩, hclass⟩, hmapped⟩ := this.2.resolve_left (by omega)
  exact ⟨ha, hexcluded, hclass, hmapped⟩

/-- No composite ends with a plain code point. -/
theorem primaryComposite?_of_plain (hb : b < 0x300) : primaryComposite? a b = none := by
  rw [Option.eq_none_iff_forall_ne_some]
  intro c hc
  rcases primaryComposite?_eq_some hc with hsyllable | hpair
  · rw [syllable?, if_neg (by omega), if_neg (by omega)] at hsyllable
    cases hsyllable
  · have := List.all_eq_true.mp pairMappings_plain _ hpair
    simp only [Bool.and_eq_true, decide_eq_true_eq] at this
    omega

/-- Pairs that start with a plain code point have one composite. -/
theorem eq_of_mem_pairMappings (h : (c, a, b) ∈ pairMappings) (h' : (d, a, b) ∈ pairMappings)
    (ha : a < 0x300) : c = d := by
  have hmem {e : Nat} (he : (e, a, b) ∈ pairMappings) : (e, a, b) ∈ plainPairs :=
    List.mem_filter.mpr ⟨he, decide_eq_true ha⟩
  have hinj := List.inj_on_of_nodup_map (nodup_of_distinctFrom plainPairs_distinct).1
  exact congrArg Prod.fst (hinj (hmem h) (hmem h') rfl)

/-- A plain composite is composed again of its halves. -/
theorem primaryComposite?_of_mem_pairMappings (h : (c, a, b) ∈ pairMappings) (hc : c < 0x300) :
    primaryComposite? a b = some c := by
  obtain ⟨ha, hexcluded, -⟩ := plain_of_mem_pairMappings h hc
  have hsyllable : syllable? a b = none := by
    rw [syllable?, if_neg (by omega), if_neg (by rw [firstSyllable_eq]; omega)]
  rw [primaryComposite?, hsyllable]
  generalize hfind : pairMappings.find? _ = found
  cases found with
  | none =>
    have := List.find?_eq_none.mp hfind _ h
    simp [hexcluded] at this
  | some m =>
    obtain ⟨d, x, y⟩ := m
    have hmatch := List.find?_some hfind
    simp only [Bool.and_eq_true, beq_iff_eq] at hmatch
    obtain ⟨⟨rfl, rfl⟩, -⟩ := hmatch
    rw [eq_of_mem_pairMappings h (List.mem_of_find?_eq_some hfind) ha]

/-! ### Parts of plain code points -/

/-- The parts of a plain code point: a plain starter, and marks in order that join it one by one
until the code point is there again. -/
structure PlainParts (c starter : Nat) (marks : List Nat) : Prop where
  plain : starter < 0x300
  ordered : Ordered (starter :: marks)
  classes : ∀ d ∈ marks, combiningClass d ≤ 230
  composes : ∀ rest, composeFrom starter [] (marks ++ rest) = composeFrom c [] rest

theorem PlainParts.self (hc : c < 0x300) : PlainParts c c [] :=
  ⟨hc, .singleton c, nofun, fun _ => rfl⟩

/-- One more mark joins. -/
theorem PlainParts.concat {starter : Nat} {marks : List Nat} (hparts : PlainParts a starter marks)
    (hcomposite : primaryComposite? a b = some c) (hclass : combiningClass b ≤ 230)
    (hlast : marks = [] ∨ combiningClass b = 230) : PlainParts c starter (marks ++ [b]) := by
  have hstarter := combiningClass_of_plain hparts.plain
  refine ⟨hparts.plain, ?_, ?_, fun rest => ?_⟩
  · refine List.isChain_append.mpr ⟨hparts.ordered, .singleton b, fun d hd e he => ?_⟩
    obtain rfl := Option.some.inj he
    have hle : combiningClass d ≤ combiningClass b := by
      rcases List.mem_cons.mp (List.mem_of_mem_getLast? hd) with rfl | hd
      · omega
      · rcases hlast with rfl | hb
        · cases hd
        · exact hb ▸ hparts.classes d hd
    exact .inr hle
  · exact List.forall_mem_append.mpr ⟨hparts.classes, by simpa using hclass⟩
  · rw [List.append_assoc, List.singleton_append, hparts.composes]
    rw [composeFrom.eq_def]
    simp [hcomposite]

/-- Every plain code point comes apart into such parts. -/
theorem EndsWithin.exists_plainParts (h : EndsWithin n c) (hc : c < 0x300) :
    ∃ starter marks, decomposeWithin n c = starter :: marks ∧ PlainParts c starter marks := by
  induction h with
  | unmapped h => exact ⟨_, [], decomposeWithin_of_unmapped h, .self hc⟩
  | singleton h =>
    have := List.all_eq_true.mp singletonMappings_plain _ h
    simp only [decide_eq_true_eq] at this
    omega
  | @pair n c a b h hrest ih =>
    obtain ⟨ha, -, hclass, hmapped⟩ := plain_of_mem_pairMappings h hc
    obtain ⟨starter, marks, heq, hparts⟩ := ih ha
    have hlast : marks = [] ∨ combiningClass b = 230 := by
      refine hmapped.imp_left fun hunmapped => ?_
      rw [decomposeWithin_of_unmapped hunmapped] at heq
      exact (List.cons.inj heq).2.symm
    have hcomposite := primaryComposite?_of_mem_pairMappings h hc
    refine ⟨starter, marks ++ [b], ?_, hparts.concat hcomposite hclass hlast⟩
    rw [decomposeWithin_of_pair h, heq, List.cons_append]

theorem exists_plainParts (hc : c < 0x300) :
    ∃ starter marks, decompose c = starter :: marks ∧ PlainParts c starter marks := by
  have hordinary : isOrdinary c := isOrdinary_iff.mpr (.inl (by omega))
  rw [decompose_of_isOrdinary hordinary]
  exact (endsWithin_four c).exists_plainParts hc

/-! ### Plain texts -/

theorem ordered_of_plain (h : ∀ c ∈ cs, c < 0x300) : Ordered (cs.flatMap decompose) := by
  induction cs with
  | nil => exact .nil
  | cons c cs ih =>
    obtain ⟨hc, hrest⟩ := List.forall_mem_cons.mp h
    obtain ⟨starter, marks, heq, hparts⟩ := exists_plainParts hc
    rw [List.flatMap_cons, heq]
    refine List.isChain_append.mpr ⟨hparts.ordered, ih hrest, fun _ _ d hd => .inl ?_⟩
    cases cs with
    | nil => cases hd
    | cons c' cs =>
      have hc' := (List.forall_mem_cons.mp hrest).1
      obtain ⟨starter', marks', heq', hparts'⟩ := exists_plainParts hc'
      rw [List.flatMap_cons, heq'] at hd
      obtain rfl := Option.some.inj hd
      exact combiningClass_of_plain hparts'.plain

/-- The parts of plain code points are composed again one code point at a time. -/
theorem composeFrom_of_plain (h : ∀ c ∈ cs, c < 0x300) :
    composeFrom c [] (cs.flatMap decompose) = c :: cs := by
  induction cs generalizing c with
  | nil => rfl
  | cons c' cs ih =>
    obtain ⟨hc', hrest⟩ := List.forall_mem_cons.mp h
    obtain ⟨starter, marks, heq, hparts⟩ := exists_plainParts hc'
    have hnone : primaryComposite? c starter = none := primaryComposite?_of_plain hparts.plain
    have hstarter := combiningClass_of_plain hparts.plain
    rw [List.flatMap_cons, heq, List.cons_append, composeFrom.eq_def]
    simp [hnone, hstarter, hparts.composes, ih hrest]

/-- A plain text is composed again of its parts. -/
theorem compose_of_plain (h : ∀ c ∈ cs, c < 0x300) : compose (decomposed cs) = cs := by
  rw [decomposed, reorder_of_ordered (ordered_of_plain h)]
  cases cs with
  | nil => rfl
  | cons c cs =>
    obtain ⟨hc, hrest⟩ := List.forall_mem_cons.mp h
    obtain ⟨starter, marks, heq, hparts⟩ := exists_plainParts hc
    rw [List.flatMap_cons, heq, List.cons_append, compose,
      if_pos (combiningClass_of_plain hparts.plain), hparts.composes, composeFrom_of_plain hrest]

/-- A plain text is its own composed form. -/
theorem recompose_of_isPlain {s : String} (h : isPlain s) : recompose s = s := by
  have hplain : ∀ c ∈ s.toList.map Char.toNat, c < 0x300 := by
    rw [List.forall_mem_map]
    simpa [isPlain] using h
  rw [recompose_eq, compose_of_plain hplain, List.map_map]
  simp [Function.comp_def]

/-- The composed form of a text is what decomposition, ordering and composition yield. -/
theorem nfc_eq_recompose (s : String) : nfc s = recompose s := by
  rw [nfc]
  split
  · exact (recompose_of_isPlain ‹_›).symm
  · rfl

/-- The composed form of a text is in composed form. -/
theorem nfc_nfc (s : String) : nfc (nfc s) = nfc s := by
  rw [nfc_eq_recompose s, nfc_eq_recompose, recompose_recompose]

end TypedData.Text
