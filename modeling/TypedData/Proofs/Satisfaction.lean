import TypedData.Proofs.Conversion
import TypedData.Proofs.Value.Slots
import TypedData.Proofs.Value.WhollyKnown

/-!
# Refinements under conversion

A refinement says what is certain of an unknown value. When the unknown converts, so does what it
stands for, and what is still said of the one has to hold of the other. It does in all respects
but one: elements of a set may turn out equal as another type, so that there are fewer of them,
and the least length that is carried over from set to set takes no account of this.

## Main definitions

* `Value.Satisfies` — values that are as a refinement says

## Main results

* `Value.isWhollyKnown_convertAt` — what is known at every depth converts to such a value
* `Value.satisfies_convert` — what a value converts to is as the converted refinement says, with
  a least length of at most one between sets
-/

namespace TypedData

/-! ### Values under a refinement -/

/-- Whether a number is above a bound, or on it where the bound itself is allowed. -/
def NumberBound.isBelow (b : NumberBound) (n : Decimal) : Bool :=
  b.value.compare n == .lt || b.inclusive && b.value.compare n == .eq

/-- Whether a number is below a bound, or on it where the bound itself is allowed. -/
def NumberBound.isAbove (b : NumberBound) (n : Decimal) : Bool :=
  n.compare b.value == .lt || b.inclusive && n.compare b.value == .eq

namespace Value

/-- A value that is as a refinement says: what is certain of an unknown value holds of it. -/
structure Satisfies (v : Value) (r : Refinement) : Prop where
  known : v.isUnknown = false
  notNull : r.notNull → v.isNull = false
  start : ∀ p, r.startsWith = some p → ∀ s, v.asString? = some s → p.toList <+: s.toList
  lower : ∀ b, r.lower = some b → ∀ n, v.asNumber? = some n → b.isBelow n
  upper : ∀ b, r.upper = some b → ∀ n, v.asNumber? = some n → b.isAbove n
  lengthLower : ∀ k, r.lengthLower = some k → ∀ n, v.length? = some n → k ≤ n
  lengthUpper : ∀ k, r.lengthUpper = some k → ∀ n, v.length? = some n → n ≤ k

variable {limits : Limits} {depth : Nat} {T : Ty} {r : Refinement} {v w : Value}

/-- A lower least length asks for less. -/
theorem Satisfies.capLengthLower (h : v.Satisfies r) (cap : Nat) :
    v.Satisfies (r.capLengthLower cap) where
  known := h.known
  notNull := h.notNull
  start := h.start
  lower := h.lower
  upper := h.upper
  lengthLower k hk n hn := by
    obtain ⟨l, hl, rfl⟩ := Option.map_eq_some_iff.mp hk
    exact (Nat.min_le_left l cap).trans (h.lengthLower l hl n hn)
  lengthUpper := h.lengthUpper

/-! ### Conversion keeps values known -/

/-- A step of conversion keeps what is known at every depth so, if conversion of what is directly
inside does. -/
theorem ConversionStep.isWhollyKnown (hstep : ConversionStep limits depth T v w)
    (hv : v.isWhollyKnown)
    (inside : ∀ x ∈ parts v.content, ∀ t u, x.convertAt limits (depth + 1) t = .ok u →
      u.isWhollyKnown) : w.isWhollyKnown := by
  cases hstep with
  | keep => exact hv
  | retyped hw =>
    obtain ⟨own, content, m⟩ := v
    cases content <;> cases hw <;> first | rfl | cases hv
  | scalar hw => cases primitive_of_convertScalar hw <;> rfl
  | sequence _ _ hws =>
    refine isWhollyKnown_of_sameData (.withMarks _ _) (isWhollyKnown_sequence fun w hw => ?_)
    obtain ⟨x, hx, t, ht⟩ := (forall₂_of_convertItems hws).exists_of_mem_right hw
    exact inside x hx t w ht
  | map _ hfs =>
    refine isWhollyKnown_of_sameData (.withMarks _ _) (isWhollyKnown_mapping fun f hf => ?_)
    obtain ⟨e, he, -, hef⟩ := (forall₂_of_convertEntries hfs).exists_of_mem_right hf
    exact inside e.2 (List.mem_map_of_mem he) _ f.2 hef
  | object _ _ hfs =>
    obtain ⟨check, hchecks, hcheck⟩ := exists_checks_of_convertedAttributes hfs
    rw [Ty.firstError_map_eq_ok_iff] at hchecks
    refine isWhollyKnown_of_sameData (.withMarks _ _) (isWhollyKnown_mapping fun f hf => ?_)
    obtain ⟨a, ha, -, hr⟩ := hchecks.exists_of_mem_right (mem_sortEntries.mp hf)
    obtain ⟨-, hnull, -⟩ | ⟨x, t, hx, -, hw⟩ := hcheck a ha f.2 hr
    · rw [hnull]
      rfl
    · exact inside x (List.mem_map_of_mem hx) t f.2 hw

/-- What is known at every depth converts to a value that is. -/
theorem isWhollyKnown_convertAt (hv : v.isWhollyKnown) (h : v.convertAt limits depth T = .ok w) :
    w.isWhollyKnown := by
  induction v using Value.induction_parts generalizing depth T w with
  | _ v ih =>
    exact (conversionStep_of_convertAt h).isWhollyKnown hv fun x hx t u hu =>
      ih x hx (isWhollyKnown_of_mem_parts hv hx) hu

/-! ### Lengths -/

/-- Merging leaves at least one of several elements. -/
private theorem length_mergeEqual (kept : Value) (vs : List Value) :
    1 ≤ (mergeEqual kept vs).length ∧ (mergeEqual kept vs).length ≤ vs.length + 1 := by
  induction vs generalizing kept with
  | nil => simp [mergeEqual]
  | cons v vs ih =>
    rw [mergeEqual]
    split
    · have h := ih (kept.withMarks v.marks)
      simp only [List.length_cons]
      omega
    · have h := ih v
      simp only [List.length_cons]
      omega

theorem length_canonicalSet (vs : List Value) :
    min vs.length 1 ≤ (canonicalSet vs).length ∧ (canonicalSet vs).length ≤ vs.length := by
  have hlength : (vs.mergeSort fun a b => (a.compare b).isLE).length = vs.length :=
    List.length_mergeSort vs
  rw [canonicalSet, ← hlength]
  split
  · rename_i heq
    simp [heq]
  · rename_i v rest heq
    have h := length_mergeEqual v rest
    rw [heq, List.length_cons]
    omega

/-- A known list, set or tuple has as many elements as it was given, but sets may have fewer. -/
theorem length_sequence {vs : List Value} (hknown : vs.any isUnknown = false) :
    ∃ n, (sequence T vs).length? = some n ∧ n ≤ vs.length ∧ min vs.length 1 ≤ n ∧
      (T.isSet = false → n = vs.length) := by
  unfold sequence
  split
  · rw [hknown]
    exact ⟨_, rfl, le_rfl, Nat.min_le_left _ _, fun _ => rfl⟩
  · rw [hknown]
    have h := length_canonicalSet vs
    exact ⟨_, rfl, h.2, h.1, fun hset => by cases hset⟩
  · exact ⟨_, rfl, le_rfl, Nat.min_le_left _ _, fun _ => rfl⟩

/-- What becomes a collection had at least as many members. Those of a set may merge, but not
all of them go. -/
theorem length_of_convertAt {n : Nat} (hv : v.isWhollyKnown) (hT : T.isCollection)
    (h : v.convertAt limits depth T = .ok w) (hn : w.length? = some n) :
    ∃ k, v.length? = some k ∧ n ≤ k ∧ min k 1 ≤ n ∧ (T.isSet = false → n = k) := by
  have hw := isWhollyKnown_convertAt hv h
  cases conversionStep_of_convertAt h with
  | keep => exact ⟨n, hn, le_rfl, Nat.min_le_left _ _, fun _ => rfl⟩
  | retyped hretype _ =>
    obtain ⟨t, c, m⟩ := v
    cases c <;> cases hretype <;> cases hn
  | @sequence _ vs ws m _ _ _ hws =>
    -- Elements merge only where they become elements of a set.
    have hlength := (forall₂_of_convertItems hws).length_eq
    have hknown : ws.any isUnknown = false :=
      any_isUnknown_eq_false fun w hw => by
        obtain ⟨v, hmem, t, ht⟩ := (forall₂_of_convertItems hws).exists_of_mem_right hw
        exact isWhollyKnown_convertAt (isWhollyKnown_items.mp hv v hmem) ht
    obtain ⟨k, hk, hle, hleast, heq⟩ := length_sequence (T := T) hknown
    obtain rfl := Option.some.inj (hk.symm.trans hn)
    rw [← hlength] at hle hleast heq
    exact ⟨vs.length, rfl, hle, hleast, heq⟩
  | @map _ t es fs m hT hfs =>
    have hlength : fs.length = es.length := (forall₂_of_convertEntries hfs).length_eq.symm
    have hn' : n = fs.length := by
      subst hT
      rw [mapping] at hn
      split at hn
      · cases hn
      · exact (Option.some.inj hn).symm
    rw [hn', hlength]
    exact ⟨es.length, rfl, le_rfl, Nat.min_le_left _ _, fun _ => rfl⟩
  | object htarget =>
    subst htarget
    cases hT
  | scalar hscalar =>
    cases primitive_of_convertScalar hscalar <;> cases hn

/-! ### Nulls -/

/-- Only nulls become null. -/
theorem isNull_convertAt (h : v.convertAt limits depth T = .ok w) (hv : v.isNull = false) :
    w.isNull = false := by
  cases conversionStep_of_convertAt h with
  | keep => exact hv
  | retyped hw _ =>
    obtain ⟨t, c, m⟩ := v
    cases c <;> cases hw <;> first | rfl | cases hv
  | sequence =>
    unfold sequence
    split
    · split <;> rfl
    · split <;> rfl
    · rfl
  | map | object =>
    rw [mapping]
    split <;> rfl
  | scalar hw => cases primitive_of_convertScalar hw <;> rfl

end Value

/-! ### What is carried over -/

namespace Refinement

variable {S T : Ty}

/-- From one type to another nothing but lengths is carried over, and that a value is not
null. -/
theorem retainFor_apart (r : Refinement) (h : ¬ S.same T) :
    ((r.retainFor S).retainFor T).startsWith = .none ∧
      ((r.retainFor S).retainFor T).lower = .none ∧
      ((r.retainFor S).retainFor T).upper = .none := by
  cases S <;> cases T <;> first | exact ⟨rfl, rfl, rfl⟩ | exact absurd rfl h

theorem retainFor_notNull (r : Refinement) (t : Ty) : (r.retainFor t).notNull = r.notNull := by
  cases t <;> rfl

theorem retainFor_lengthLower (r : Refinement) (t : Ty) :
    (r.retainFor t).lengthLower = if t.isCollection then r.lengthLower else .none := by
  cases t <;> rfl

theorem retainFor_lengthUpper (r : Refinement) (t : Ty) :
    (r.retainFor t).lengthUpper = if t.isCollection then r.lengthUpper else .none := by
  cases t <;> rfl

theorem capLengthLower_capLengthLower (r : Refinement) (cap : Nat) :
    (r.capLengthLower cap).capLengthLower cap = r.capLengthLower cap := by
  simp [capLengthLower, Option.map_map, Function.comp_def]

end Refinement

namespace Value

variable {limits : Limits} {depth : Nat} {S T : Ty} {R r : Refinement} {v w u : Value}

/-- What is carried over to another type holds of what a value converts to, up to the least
length of sets. -/
theorem satisfies_retainFor (hknown : v.isWhollyKnown) (hsat : v.Satisfies r)
    (h : v.convertAt limits depth T = .ok w)
    (hapart : (r.retainFor T).startsWith = .none ∧ (r.retainFor T).lower = .none ∧
      (r.retainFor T).upper = .none) :
    w.Satisfies ((r.retainFor T).capLengthLower 1) ∧
      (T.isSet = false → w.Satisfies (r.retainFor T)) := by
  obtain ⟨hstart, hlower, hupper⟩ := hapart
  -- The members of `w` are those of `v`, apart from what has merged.
  have hlength {k n : Nat} (hk : (r.retainFor T).lengthLower = some k) (hn : w.length? = some n) :
      min k 1 ≤ n ∧ (T.isSet = false → k ≤ n) := by
    rw [Refinement.retainFor_lengthLower] at hk
    split at hk
    · rename_i hT
      obtain ⟨l, hl, -, hleast, heq⟩ := length_of_convertAt hknown hT h hn
      have hkl := hsat.lengthLower k hk l hl
      exact ⟨by omega, fun hset => by rw [heq hset]; exact hkl⟩
    · cases hk
  have hmost {k n : Nat} (hk : (r.retainFor T).lengthUpper = some k) (hn : w.length? = some n) :
      n ≤ k := by
    rw [Refinement.retainFor_lengthUpper] at hk
    split at hk
    · rename_i hT
      obtain ⟨l, hl, hle, -, -⟩ := length_of_convertAt hknown hT h hn
      exact hle.trans (hsat.lengthUpper k hk l hl)
    · cases hk
  have hwknown := isUnknown_of_isWhollyKnown (isWhollyKnown_convertAt hknown h)
  have hnotNull (hr : (r.retainFor T).notNull) : w.isNull = false := by
    rw [Refinement.retainFor_notNull] at hr
    exact isNull_convertAt h (hsat.notNull hr)
  constructor
  · refine ⟨hwknown, hnotNull, fun p hp => ?_, fun b hb => ?_, fun b hb => ?_,
      fun k hk n hn => ?_, fun k hk n => hmost hk⟩
    · cases hstart.symm.trans hp
    · cases hlower.symm.trans hb
    · cases hupper.symm.trans hb
    · obtain ⟨l, hl, rfl⟩ := Option.map_eq_some_iff.mp hk
      exact (hlength hl hn).1
  · intro hset
    refine ⟨hwknown, hnotNull, fun p hp => ?_, fun b hb => ?_, fun b hb => ?_,
      fun k hk n hn => (hlength hk hn).2 hset, fun k hk n => hmost hk⟩
    · cases hstart.symm.trans hp
    · cases hlower.symm.trans hb
    · cases hupper.symm.trans hb

/-- The unknown of one type as another: it is unknown under what is carried over, and the least
length is capped where another collection becomes a set. -/
theorem refinement?_of_convertAt (hne : ¬ (T.isDynamic ∨ S.same T))
    (h : (unknownRefined S R).convertAt limits depth T = .ok u) :
    u.refinement? = some (if T.isSet && !S.isSet
      then ((R.retainFor S).retainFor T).capLengthLower 1
      else (R.retainFor S).retainFor T) := by
  generalize hv : unknownRefined S R = v at h
  cases conversionStep_of_convertAt h with
  | keep hslot =>
    subst hv
    exact absurd hslot hne
  | retyped hu _ =>
    subst hv
    cases hu
    rfl
  | scalar hw =>
    cases hv
    cases hw
  | _ => cases hv

/-- What a value converts to is as the converted refinement says, with a least length of at most
one. From set to set that is the best there is, as elements may turn out equal; between all other
types the converted refinement holds as it is. -/
theorem satisfies_convert (hv : v.WellFormed) (hslot : v.InSlot S) (hknown : v.isWhollyKnown)
    (hsat : v.Satisfies (R.retainFor S)) (hu : (unknownRefined S R).convert limits T = .ok u)
    (hw : v.convert limits T = .ok w) :
    ∃ r, u.refinement? = some r ∧ w.Satisfies (r.capLengthLower 1) ∧
      (S.isSet = false ∨ T.isSet = false ∨ S.same T → w.Satisfies r) := by
  by_cases hkeep : T.isDynamic ∨ S.same T
  · -- Both the unknown and the value are left as they are.
    have hslotT : v.InSlot T :=
      hkeep.elim .of_isDynamic fun hST => hslot.trans_same hv.type_wellFormed hST
    have hsame := (convertAt_of_inSlot (v := unknownRefined S R) hkeep).symm.trans hu
    obtain rfl := Except.ok.inj hsame
    obtain rfl := Except.ok.inj ((convertAt_of_inSlot hslotT).symm.trans hw)
    exact ⟨_, rfl, hsat.capLengthLower 1, fun _ => hsat⟩
  · have hapart := R.retainFor_apart fun hST => hkeep (.inr hST)
    obtain ⟨hcapped, hfull⟩ := satisfies_retainFor hknown hsat hw hapart
    refine ⟨_, refinement?_of_convertAt hkeep hu, ?_, ?_⟩
    · split
      · rwa [Refinement.capLengthLower_capLengthLower]
      · exact hcapped
    · rintro (hS | hT | hST)
      · -- Towards a set the least length was capped.
        by_cases hT : T.isSet
        · simpa [hS, hT] using hcapped
        · simpa [hT] using hfull (by simpa using hT)
      · simpa [hT] using hfull hT
      · exact absurd (.inr hST) hkeep

/-- Two equal texts. -/
def exampleRepeated : Value := ⟨.list .string, .items [string "a", string "a"], .empty⟩

/-- Of a list of two elements at least one stays in a set. -/
theorem satisfies_convert_repeated :
    ∃ u w r, (unknownRefined (.list .string) (Refinement.none.withLength 2)).convert .default
        (.set .string) = .ok u ∧
      exampleRepeated.convert .default (.set .string) = .ok w ∧ u.refinement? = some r ∧
      w.Satisfies r := by
  have hwell : exampleRepeated.WellFormed := by
    refine .list .string (fun v hv => ?_) (fun v hv => ?_) (fun v hv => ?_)
    all_goals obtain rfl : v = string "a" := by simpa using hv
    · exact .string
    · exact .of_same rfl
    · rfl
  have hsat : exampleRepeated.Satisfies (Refinement.none.withLength 2) := by
    refine ⟨rfl, nofun, nofun, nofun, nofun, ?_, ?_⟩
    all_goals
      intro k hk n hn
      cases hk
      cases hn
      exact le_rfl
  have hmerged : canonicalSet [string "a", string "a"] = [(string "a").withMarks .empty] :=
    canonicalSet_pair_of_same rfl rfl
  have hw : exampleRepeated.convert .default (.set .string) =
      .ok ⟨.set .string, .items [(string "a").withMarks .empty], .empty⟩ := by
    refine congrArg Except.ok (?_ : (sequence _ [string "a", string "a"]).withMarks .empty = _)
    rw [sequence, hmerged]
    rfl
  obtain ⟨r, hr, -, hfull⟩ := satisfies_convert (S := .list .string)
    (R := Refinement.none.withLength 2) hwell (.of_same rfl) rfl hsat rfl hw
  exact ⟨_, _, r, rfl, hw, hr, hfull (.inl rfl)⟩

/-- Two texts that stand for one number. -/
def numerals : Value := ⟨.set .string, .items [string "1", string "1.0"], .empty⟩

/-- Of a set of two texts only one number is left, though the unknown number set still has two
elements. -/
theorem satisfies_convert_numerals :
    numerals.WellFormed ∧ numerals.isWhollyKnown ∧
      numerals.Satisfies ((Refinement.none.withLengthLower 2).retainFor (.set .string)) ∧
      ∃ u w r, (unknownRefined (.set .string) (Refinement.none.withLengthLower 2)).convert .default
          (.set .number) = .ok u ∧
        numerals.convert .default (.set .number) = .ok w ∧ u.refinement? = some r ∧
        ¬ w.Satisfies r := by
  -- The texts differ, but the numbers they spell are one.
  have hmerged : canonicalSet [number ⟨1, 0⟩, number ⟨10, 1⟩] =
      [(number ⟨1, 0⟩).withMarks .empty] :=
    canonicalSet_pair_of_same (by decide +kernel) (by decide +kernel)
  have hw : numerals.convert .default (.set .number) =
      .ok ⟨.set .number, .items [(number ⟨1, 0⟩).withMarks .empty], .empty⟩ := by
    refine congrArg Except.ok
      (?_ : (sequence _ [number ⟨1, 0⟩, number ⟨10, 1⟩]).withMarks .empty = _)
    rw [sequence, hmerged]
    rfl
  refine ⟨?_, rfl, ?_, _, _, _, rfl, hw, rfl, fun h => ?_⟩
  · have hmem {v : Value} (hv : v ∈ [string "1", string "1.0"]) :
        ∃ s, string s = v := by
      obtain ⟨s, -, hs⟩ : ∃ s ∈ ["1", "1.0"], string s = v := List.mem_map.mp hv
      exact ⟨s, hs⟩
    refine .set .string (fun v hv => ?_) (fun v hv => ?_) (fun v hv => ?_) ⟨?_, ?_⟩
    · obtain ⟨s, rfl⟩ := hmem hv
      exact .string
    · obtain ⟨s, rfl⟩ := hmem hv
      exact .of_same rfl
    · obtain ⟨s, rfl⟩ := hmem hv
      rfl
    · simpa using (by decide : ((string "1").compare (string "1.0")).isLE)
    · simpa using (by decide : (string "1.0" == string "1") = false)
  · constructor
    case lengthLower =>
      intro k hk n hn
      cases hk
      cases hn
      exact le_rfl
    case known => rfl
    case notNull =>
      intro _
      rfl
    all_goals
      intro k hk
      cases hk
  · exact absurd (h.lengthLower 2 rfl 1 rfl) (by decide)

end Value

end TypedData
