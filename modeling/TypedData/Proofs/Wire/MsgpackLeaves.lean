import TypedData.Proofs.Binary64.Exact
import TypedData.Proofs.Msgpack.RoundTrip
import TypedData.Proofs.Text.Utf8
import TypedData.Proofs.Ty.RoundTrip
import TypedData.Proofs.Wire.OfMsgpack
import TypedData.Proofs.Wire.ReadBack
import TypedData.Wire.ToMsgpack

/-!
# Numbers, unknowns and types in MessagePack

What is written without members is read again: texts as they are, numbers in the form that
their place on the wire has, the refinement of an unknown with bounds in written form, and the
text of a type as the type with its attributes in order.

## Main definitions

* `Msgpack.numberBack`, `Msgpack.typeBack?` — the form in which a number or a type comes back
* `Msgpack.echo` — what MessagePack makes of numbers and types

## Main results

* `Msgpack.asNumber?_ofNumber` — numbers come back in that form
* `Msgpack.toValue_ofUnknown` — unknowns come back with their refinements
-/

namespace TypedData

namespace Decimal

/-- A number that is a machine word is written as that word. -/
theorem ofInt_of_toInt64? {n : Decimal} {i : Int} (h : n.toInt64? = some i) :
    ofInt i = n.written := by
  obtain ⟨hsmall, -⟩ := Option.filter_eq_some_iff.mp h
  rw [toSmallInt?] at hsmall
  split at hsmall
  · rename_i hscale
    obtain rfl := Option.some.inj hsmall
    rw [written, if_pos hscale.1, ofInt]
  · cases hsmall

theorem within_ofInt (i : Int) (limit : Nat) : (ofInt i).withinExponent limit := by
  simp [withinExponent, ofInt]

end Decimal

namespace Binary64

theorem value?_of_ofDecimal? {n : Decimal} {f : Binary64} (h : ofDecimal? n = some f) :
    ∃ v, f.value? = some v ∧ v.same n := by
  rw [ofDecimal?] at h
  split at h
  · rename_i v hv
    split at h
    · rename_i hsame
      obtain rfl := Option.some.inj h
      exact ⟨v, hv, hsame⟩
    · cases h
  · cases h

end Binary64

namespace Msgpack

variable {limit : Nat}

/-! ### Texts and numbers -/

@[simp] theorem asText?_ofText (s : String) : (ofText s).asText? = some s := by
  rw [ofText, asText?, Text.Utf8.toString?_ofString]

/-- The form in which a number comes back. -/
def numberBack (n : Decimal) : Decimal :=
  match n.toInt64? with
  | some i => .ofInt i
  | none =>
    match Binary64.ofDecimal? n with
    | some f => f.value?.getD n.written
    | none => n.written

theorem same_numberBack (n : Decimal) : (numberBack n).same n := by
  rw [numberBack]
  split
  · rename_i h
    rw [Decimal.ofInt_of_toInt64? h]
    exact Decimal.same_written n
  split
  · rename_i h
    obtain ⟨v, hv, hsame⟩ := Binary64.value?_of_ofDecimal? h
    rwa [hv, Option.getD_some]
  · exact Decimal.same_written n

/-- The notation of a number within the bound is read, be it a text or plain bytes. -/
theorem asNumber?_plain {n : Decimal} (hlimit : limit < Word.signedBound)
    (h : n.withinExponent limit) :
    (bin (Text.Utf8.ofString n.plain)).asNumber? limit = some n.written ∧
      (ofText n.plain).asNumber? limit = some n.written := by
  simp only [ofText, asNumber?, asText?, Text.Utf8.toString?_ofString, Option.bind_some,
    Decimal.ofText_plain h hlimit, Except.toOption, and_self]

/-- Under a limit that every double meets, a number that is within it comes back within it. -/
theorem within_numberBack {n : Decimal} (hlower : 1074 ≤ limit) (h : n.withinExponent limit) :
    (numberBack n).withinExponent limit := by
  rw [numberBack]
  split
  · exact Decimal.within_ofInt _ limit
  split
  · rename_i f hfloat
    obtain ⟨v, hv, -⟩ := Binary64.value?_of_ofDecimal? hfloat
    rw [hv, Option.getD_some]
    exact Binary64.within_value? hv hlower
  · exact (Decimal.within_written h).1

/-- A number comes back in no other form. -/
theorem eq_numberBack_of_asNumber? {n k : Decimal} (h : (ofNumber n).asNumber? limit = some k) :
    k = numberBack n := by
  rw [ofNumber] at h
  rw [numberBack]
  cases hint : n.toInt64? with
  | some i =>
    simp only [hint, asNumber?] at h
    exact (Option.some.inj (Option.filter_eq_some_iff.mp h).1).symm
  | none =>
    cases hfloat : Binary64.ofDecimal? n with
    | some f =>
      simp only [hint, hfloat, asNumber?] at h
      simp only [(Option.filter_eq_some_iff.mp h).1, Option.getD_some]
    | none =>
      simp only [hint, hfloat, ofText, asNumber?, asText?, Text.Utf8.toString?_ofString,
        Option.bind_some] at h
      exact Decimal.eq_written_of_ofText_plain (Except.toOption_eq_some_iff.mp h)

/-- A number comes back exactly if it is within the limit in the form in which it does. -/
theorem asNumber?_ofNumber {n : Decimal} (hupper : limit < Word.signedBound) :
    (ofNumber n).asNumber? limit = (some (numberBack n)).filter (·.withinExponent limit) := by
  cases hread : (ofNumber n).asNumber? limit with
  | some k =>
    have hwithin := within_of_asNumber? hread
    obtain rfl := eq_numberBack_of_asNumber? hread
    rw [Option.filter_some, if_pos hwithin]
  | none =>
    rw [Option.filter_some]
    split
    swap
    · rfl
    -- Words and doubles are read whatever they are, and notations within the limit.
    rename_i hwithin
    rw [ofNumber] at hread
    rw [numberBack] at hwithin
    cases hint : n.toInt64? with
    | some i => simp_all [asNumber?]
    | none =>
      cases hfloat : Binary64.ofDecimal? n with
      | some f =>
        obtain ⟨v, hv, -⟩ := Binary64.value?_of_ofDecimal? hfloat
        simp_all [asNumber?]
      | none =>
        simp only [hint, hfloat] at hread hwithin
        have hplain : n.plain = n.written.plain :=
          (Decimal.plain_eq_of_same (Decimal.same_written n)).symm
        rw [hplain, (asNumber?_plain hupper hwithin).2] at hread
        cases hread

theorem fits_ofNumber {n : Decimal} (h : (Text.Utf8.ofString n.plain).length < 0x100000000) :
    (ofNumber n).Fits := by
  rw [ofNumber]
  split
  · rename_i i hi
    obtain ⟨-, hi⟩ := Option.filter_eq_some_iff.mp hi
    obtain ⟨hlower, hupper⟩ := Bool.and_eq_true_iff.mp hi
    have hbound : ((Word.signedBound : Nat) : Int) = 0x8000000000000000 := by decide
    have hlower := hbound ▸ of_decide_eq_true hlower
    have hupper := hbound ▸ of_decide_eq_true hupper
    exact .int hlower (by omega)
  split
  · exact .float64 _
  · exact .str h

theorem cost_ofNumber_le (n : Decimal) : (ofNumber n).cost ≤ 3 := by
  rw [ofNumber]
  split
  · simp [cost]
  split <;> simp [ofText, cost]

/-! ### Refinements -/

theorem asBound?_ofBound {b : NumberBound} (hlimit : limit < Word.signedBound)
    (h : b.value.withinExponent limit) : (ofBound b).asBound? limit = some b.written := by
  simp only [ofBound, asBound?, (asNumber?_plain hlimit h).1, asBool?]
  rfl

theorem refineAll_append (r : Refinement) (xs ys : List (Msgpack × Msgpack)) :
    refineAll limit r (xs ++ ys) = (refineAll limit r xs).bind (refineAll limit · ys) := by
  induction xs generalizing r with
  | nil => rfl
  | cons x xs ih =>
    rw [List.cons_append, refineAll, refineAll]
    cases refine limit r x.1 x.2 with
    | error e => rfl
    | ok q => exact ih q

/-- The entries of a refinement say again what it says. -/
theorem refineAll_refinementEntries {r : Refinement} (hlimit : limit < Word.signedBound)
    (hr : r.Writable limit) (hstart : r.StartKept) :
    refineAll limit .none (refinementEntries r) = .ok r.written := by
  obtain ⟨notNull, start, lower, upper, lengthLower, lengthUpper⟩ := r
  obtain ⟨hlower, hupper, -, -⟩ := hr
  -- What has been said after each of the entries in turn.
  have h₁ : refineAll limit .none
      (refinementEntry 1 (if notNull then some (.bool false) else none)) =
      .ok ⟨notNull, none, none, none, none, none⟩ := by
    cases notNull <;> rfl
  have h₂ : refineAll limit ⟨notNull, none, none, none, none, none⟩
      (refinementEntry 2 (start.map ofText)) = .ok ⟨notNull, start, none, none, none, none⟩ := by
    cases start with
    | none => rfl
    | some s =>
      simp [refinementEntry, refineAll, refine, asNat?, hstart.withStart_eq rfl]
  have h₃ : refineAll limit ⟨notNull, start, none, none, none, none⟩
      (refinementEntry 3 (lower.map ofBound)) =
      .ok ⟨notNull, start, lower.map (·.written), none, none, none⟩ := by
    cases lower with
    | none => rfl
    | some b =>
      simp [refinementEntry, refineAll, refine, asNat?, asBound?_ofBound hlimit (hlower b rfl),
        Refinement.withLower]
  have h₄ : refineAll limit ⟨notNull, start, lower.map (·.written), none, none, none⟩
      (refinementEntry 4 (upper.map ofBound)) =
      .ok ⟨notNull, start, lower.map (·.written), upper.map (·.written), none, none⟩ := by
    cases upper with
    | none => rfl
    | some b =>
      simp [refinementEntry, refineAll, refine, asNat?, asBound?_ofBound hlimit (hupper b rfl),
        Refinement.withUpper]
  have h₅ : refineAll limit
      ⟨notNull, start, lower.map (·.written), upper.map (·.written), none, none⟩
      (refinementEntry 5 (lengthLower.map fun n => .int n)) =
      .ok ⟨notNull, start, lower.map (·.written), upper.map (·.written), lengthLower, none⟩ := by
    cases lengthLower <;>
      simp [refinementEntry, refineAll, refine, asNat?, Refinement.withLengthLower]
  have h₆ : refineAll limit
      ⟨notNull, start, lower.map (·.written), upper.map (·.written), lengthLower, none⟩
      (refinementEntry 6 (lengthUpper.map fun n => .int n)) =
      .ok ⟨notNull, start, lower.map (·.written), upper.map (·.written), lengthLower,
        lengthUpper⟩ := by
    cases lengthUpper <;>
      simp [refinementEntry, refineAll, refine, asNat?, Refinement.withLengthUpper]
  simp only [refinementEntries, refineAll_append, h₁, h₂, h₃, h₄, h₅, h₆, Except.bind]
  rfl

theorem length_write_le_of_mem_items {m : Msgpack} {ms : List Msgpack} (h : m ∈ ms) :
    m.write.length ≤ (writeItems ms).length := by
  induction h with
  | head ms => simp [writeItems]
  | tail m' _ ih => exact ih.trans (by simp [writeItems])

theorem length_write_le_of_mem_entries {e : Msgpack × Msgpack} {es : List (Msgpack × Msgpack)}
    (h : e ∈ es) : e.2.write.length ≤ (writeEntries es).length := by
  induction h with
  | head es =>
    simp only [writeEntries, List.length_append]
    omega
  | tail e' _ ih =>
    refine ih.trans ?_
    simp only [writeEntries, List.length_append]
    omega

theorem mem_refinementEntry {key : Int} {o : Option Msgpack} {e : Msgpack × Msgpack} :
    e ∈ refinementEntry key o ↔ ∃ m, o = some m ∧ e = (.int key, m) := by
  cases o <;> simp [refinementEntry]

/-- What can stand in the entries of a refinement. -/
theorem exists_of_mem_refinementEntries {r : Refinement} {e : Msgpack × Msgpack}
    (h : e ∈ refinementEntries r) : ∃ key : Int, (0 < key ∧ key ≤ 6) ∧ e.1 = .int key ∧
      (e.2 = .bool false ∨ (∃ s, e.2 = ofText s) ∨ (∃ b, e.2 = ofBound b) ∨
        ∃ n, (r.lengthLower = some n ∨ r.lengthUpper = some n) ∧ e.2 = .int n) := by
  have hlength {o : Option Nat} {n : Int} (hn : (do let a ← o; pure (a : Int)) = some n) :
      ∃ a, o = some a ∧ (a : Int) = n := by
    cases o with
    | none => cases hn
    | some a => exact ⟨a, rfl, Option.some.inj hn⟩
  simp only [refinementEntries, List.mem_append, mem_refinementEntry, Option.map_eq_some_iff] at h
  obtain ((((⟨_, hm, rfl⟩ | ⟨_, ⟨s, -, rfl⟩, rfl⟩) | ⟨_, ⟨b, -, rfl⟩, rfl⟩) |
    ⟨_, ⟨b, -, rfl⟩, rfl⟩) | ⟨_, ⟨n, hn, rfl⟩, rfl⟩) | ⟨_, ⟨n, hn, rfl⟩, rfl⟩ := h
  · split at hm
    · obtain rfl := Option.some.inj hm
      exact ⟨1, by decide, rfl, .inl rfl⟩
    · cases hm
  · exact ⟨2, by decide, rfl, .inr (.inl ⟨s, rfl⟩)⟩
  · exact ⟨3, by decide, rfl, .inr (.inr (.inl ⟨b, rfl⟩))⟩
  · exact ⟨4, by decide, rfl, .inr (.inr (.inl ⟨b, rfl⟩))⟩
  · obtain ⟨a, ha, rfl⟩ := hlength hn
    exact ⟨5, by decide, rfl, .inr (.inr (.inr ⟨a, .inl ha, rfl⟩))⟩
  · obtain ⟨a, ha, rfl⟩ := hlength hn
    exact ⟨6, by decide, rfl, .inr (.inr (.inr ⟨a, .inr ha, rfl⟩))⟩

theorem length_refinementEntries_le (r : Refinement) : (refinementEntries r).length ≤ 6 := by
  have hentry (key : Int) (o : Option Msgpack) : (refinementEntry key o).length ≤ 1 := by
    cases o <;> simp [refinementEntry]
  simp only [refinementEntries, List.length_append]
  have h₁ := hentry 1 (if r.notNull then some (.bool false) else none)
  have h₂ := hentry 2 (r.startsWith.map ofText)
  have h₃ := hentry 3 (r.lower.map ofBound)
  have h₄ := hentry 4 (r.upper.map ofBound)
  have h₅ := hentry 5 (r.lengthLower.map fun n => .int n)
  have h₆ := hentry 6 (r.lengthUpper.map fun n => .int n)
  omega

/-- A bound fits the format if it is short enough. -/
theorem fits_ofBound {b : NumberBound} (h : (ofBound b).write.length < 0x100000000) :
    (ofBound b).Fits := by
  have hparts : ∀ m ∈ [bin (Text.Utf8.ofString b.value.plain), bool b.inclusive], m.Fits := by
    rw [ofBound, write, List.length_append] at h
    have hpart := length_write_le_of_mem_items (List.mem_cons_self
      (a := bin (Text.Utf8.ofString b.value.plain)) (l := [bool b.inclusive]))
    rw [write, List.length_append] at hpart
    simp only [List.forall_mem_cons, List.not_mem_nil, false_imp_iff, implies_true, and_true]
    exact ⟨.bin (by omega), .bool _⟩
  exact .array (show 2 < 0x100000000 by decide) hparts

/-- The payload of a refined unknown fits the format if it is short enough. -/
theorem fits_refinementEntries {r : Refinement} (hr : r.Counted)
    (hlength : (write (.map (refinementEntries r))).length < 0x100000000) :
    (Msgpack.map (refinementEntries r)).Fits := by
  rw [write, List.length_append] at hlength
  refine .map ((length_refinementEntries_le r).trans_lt (by decide)) (fun e he => ?_)
    fun e he => ?_
  · obtain ⟨key, ⟨hlower, hupper⟩, hkey, -⟩ := exists_of_mem_refinementEntries he
    rw [hkey]
    exact .int (by omega) (by omega)
  · have hpart := length_write_le_of_mem_entries he
    obtain ⟨-, -, -, h | ⟨s, h⟩ | ⟨b, h⟩ | ⟨n, hn, h⟩⟩ := exists_of_mem_refinementEntries he <;>
      rw [h] at hpart ⊢
    · exact .bool false
    · rw [ofText, write, List.length_append] at hpart
      exact .str (by omega)
    · exact fits_ofBound (by omega)
    · have hbound : n < Word.unsignedBound := hr n hn
      have hword : Word.unsignedBound = 0x10000000000000000 := by decide
      exact .int (by omega) (by omega)

theorem costOfEntries_le {es : List (Msgpack × Msgpack)} {n : Nat}
    (h : ∀ e ∈ es, e.1.cost ≤ n ∧ e.2.cost ≤ n) : costOfEntries es ≤ n := by
  induction es with
  | nil => exact Nat.zero_le n
  | cons e es ih =>
    rw [List.forall_mem_cons] at h
    have := ih h.2
    rw [costOfEntries]
    omega

theorem cost_refinementEntries_le (r : Refinement) :
    (Msgpack.map (refinementEntries r)).cost ≤ 6 := by
  have hentries : costOfEntries (refinementEntries r) ≤ 4 := by
    refine costOfEntries_le fun e he => ?_
    obtain ⟨_, -, hkey, h⟩ := exists_of_mem_refinementEntries he
    rw [hkey]
    refine ⟨by simp [cost], ?_⟩
    obtain h | ⟨s, h⟩ | ⟨b, h⟩ | ⟨n, -, h⟩ := h <;> rw [h] <;>
      simp [ofText, ofBound, cost, costOfItems]
  rw [cost]
  omega

/-- What is read of the payload of a refined unknown is what its entries say. -/
theorem readRefinement_write_eq {r : Refinement} (hr : r.Counted)
    (hlength : (write (.map (refinementEntries r))).length < 0x100000000) :
    readRefinement limit (write (.map (refinementEntries r))) =
      refineAll limit .none (refinementEntries r) := by
  have hread := readValue_write (fits_refinementEntries hr hlength) payloadBudget []
  rw [List.append_nil, outcome_of_le ((cost_refinementEntries_le r).trans (by decide))] at hread
  rw [readRefinement, hread]

/-- The payload of a refined unknown is read back. -/
theorem readRefinement_write {r : Refinement} (hlimit : limit < Word.signedBound)
    (hr : r.Writable limit) (hstart : r.StartKept)
    (hlength : (write (.map (refinementEntries r))).length < 0x100000000) :
    readRefinement limit (write (.map (refinementEntries r))) = .ok r.written :=
  (readRefinement_write_eq hr.counted hlength).trans (refineAll_refinementEntries hlimit hr hstart)

/-- An unknown comes back with its refinement. -/
theorem toValue_ofUnknown {limits : Limits} {depth : Nat} {r : Refinement} (ty : Ty)
    (hlimit : limits.maxNumberExponent < Word.signedBound)
    (hr : r.Writable limits.maxNumberExponent) (hstart : r.StartKept)
    (hfits : (ofUnknown r).Fits) (hdepth : depth ≤ limits.maxDepth) :
    toValue limits depth ty (ofUnknown r) = .ok (.unknownRefined ty r.written) := by
  have hentries := refineAll_refinementEntries hlimit hr hstart
  rw [ofUnknown] at hfits ⊢
  split at hfits
  · rename_i hnone
    rw [hnone] at hentries
    obtain heq := Except.ok.inj hentries
    have hnothing : Refinement.none.retainFor ty = .none := by cases ty <;> rfl
    rw [toValue, if_neg (by omega), ← heq, Value.unknownRefined, hnothing]
    rfl
  · cases hfits with
    | ext _ _ hlength =>
      have hread := readRefinement_write hlimit hr hstart hlength
      rw [toValue, if_neg (by omega)]
      simp only [↓reduceIte, hread]

/-- A bound that was written is read in written form, if it is read. -/
theorem within_of_asBound?_ofBound {b x : NumberBound} (h : (ofBound b).asBound? limit = some x) :
    b.written.value.withinExponent limit := by
  have hx := within_of_asBound? h
  simp only [ofBound, asBound?, asNumber?, asText?, Text.Utf8.toString?_ofString,
    Option.bind_eq_bind, Option.bind_some, Option.bind_eq_some_iff, asBool?, Option.some.injEq] at h
  obtain ⟨value, hvalue, -, -, rfl⟩ := h
  rwa [Decimal.eq_written_of_ofText_plain (Except.toOption_eq_some_iff.mp hvalue)] at hx

/-- Each entry of a refinement that is read was read. -/
theorem exists_refine_of_refineAll {r q : Refinement} {entries : List (Msgpack × Msgpack)}
    (h : refineAll limit r entries = .ok q) :
    ∀ e ∈ entries, ∃ r' q', refine limit r' e.1 e.2 = .ok q' := by
  induction entries generalizing r with
  | nil => exact List.forall_mem_nil _
  | cons e rest ih =>
    rw [refineAll] at h
    split at h
    · cases h
    · rename_i q' hq
      exact List.forall_mem_cons.mpr ⟨⟨r, q', hq⟩, ih h⟩

/-- If the entries that were written of a refinement are read, it can be written in the form that is
read. -/
theorem writable_of_refineAll_refinementEntries {r q : Refinement} (hr : r.Counted)
    (h : refineAll limit .none (refinementEntries r) = .ok q) : r.written.Writable limit := by
  have hentries := exists_refine_of_refineAll h
  refine ⟨fun b hb => ?_, fun b hb => ?_, fun n hn => hr n (.inl hn), fun n hn => hr n (.inr hn)⟩
  · obtain ⟨own, hown, rfl⟩ := Option.map_eq_some_iff.mp hb
    obtain ⟨r', q', hread⟩ := hentries (.int 3, ofBound own) (by
      simp [refinementEntries, mem_refinementEntry, hown])
    simp only [refine, asNat?, Int.reduceLE, if_true, Int.reduceToNat] at hread
    split at hread
    · exact within_of_asBound?_ofBound ‹_›
    · cases hread
  · obtain ⟨own, hown, rfl⟩ := Option.map_eq_some_iff.mp hb
    obtain ⟨r', q', hread⟩ := hentries (.int 4, ofBound own) (by
      simp [refinementEntries, mem_refinementEntry, hown])
    simp only [refine, asNat?, Int.reduceLE, if_true, Int.reduceToNat] at hread
    split at hread
    · exact within_of_asBound?_ofBound ‹_›
    · cases hread

/-- If what an unknown was written as is read, its refinement can be written in the form that is
read. -/
theorem writable_of_toValue_ofUnknown {limits : Limits} {depth : Nat} {r : Refinement} {ty : Ty}
    {w : Value} (hr : r.Counted) (hfits : (ofUnknown r).Fits)
    (h : toValue limits depth ty (ofUnknown r) = .ok w) :
    r.written.Writable limits.maxNumberExponent := by
  have hdepth := depth_le_of_toValue h
  cases hentries : refinementEntries r with
  | nil =>
    refine writable_of_refineAll_refinementEntries (q := .none) hr ?_
    rw [hentries]
    rfl
  | cons e es =>
    rw [ofUnknown, hentries] at hfits h
    simp only [← hentries] at hfits h
    cases hfits with
    | ext _ _ hlength =>
      unfold toValue at h
      rw [if_neg (by omega)] at h
      simp only [if_true, readRefinement_write_eq hr hlength] at h
      split at h
      · exact writable_of_refineAll_refinementEntries hr ‹_›
      · simp only [failAt, reduceCtorEq] at h

/-- Bounds are written alike in the form in which they are read. -/
theorem ofUnknown_written (r : Refinement) : ofUnknown r.written = ofUnknown r := by
  have hbound (b : NumberBound) : ofBound b.written = ofBound b := by
    rw [ofBound, ofBound, NumberBound.written, Decimal.plain_eq_of_same (Decimal.same_written _)]
  have hentries : refinementEntries r.written = refinementEntries r := by
    simp [refinementEntries, Refinement.written, Function.comp_def, hbound]
    rfl
  rw [ofUnknown, ofUnknown, hentries]

/-! ### Types beside values -/

/-- The type that is read where the text of a type was written. -/
def typeBack? (t : Ty) : Option Ty :=
  t.toJson.toOption.bind fun j => (wrappedType (.bin (Text.Utf8.ofString j.compact))).toOption

theorem wrappedType_of_typeBack? {t u : Ty} {j : Json} (hj : t.toJson = .ok j)
    (h : typeBack? t = some u) : wrappedType (.bin (Text.Utf8.ofString j.compact)) = .ok u := by
  rw [typeBack?, hj] at h
  exact Except.toOption_eq_some_iff.mp h

theorem typeBack?_of_wrappedType {t u : Ty} {j : Json} (hj : t.toJson = .ok j)
    (h : wrappedType (.bin (Text.Utf8.ofString j.compact)) = .ok u) : typeBack? t = some u := by
  rw [typeBack?, hj]
  exact Except.toOption_eq_some_iff.mpr h

theorem eq_inKeyOrder_of_typeBack? {t u : Ty} (ht : t.WellFormed) (h : typeBack? t = some u) :
    u = t.inKeyOrder := by
  obtain ⟨j, hj, hu⟩ := Option.bind_eq_some_iff.mp h
  have hu := Except.toOption_eq_some_iff.mp hu
  have hj := Except.toOption_eq_some_iff.mp hj
  rw [wrappedType, asText?, Text.Utf8.toString?_ofString] at hu
  simp only at hu
  split at hu
  · cases hu
  rename_i w hw
  split at hu
  · cases hu
  · obtain rfl := Except.ok.inj hu
    exact Ty.eq_inKeyOrder_of_ofText ht hj hw

/-- The text of a known type is read beside a value if it does not nest too deep and no reserved
name is misused in it, and only then. -/
theorem isSome_typeBack?_iff {t : Ty} {j : Json} (ht : t.WellFormed)
    (hconcrete : t.isDynamic = false) (hj : t.toJson = .ok j) :
    (typeBack? t).isSome ↔ j.nesting ≤ Json.maxOpen ∧ ¬ j.Refused := by
  have hdescribes := Ty.describes_of_toJson ht hj
  rw [← Json.exists_read_chars_iff hdescribes.spelled]
  simp only [typeBack?, hj, Except.toOption, Option.bind_some, wrappedType, asText?,
    Text.Utf8.toString?_ofString, Ty.ofText, Json.compact, String.toList_ofList]
  cases hread : Json.read j.chars with
  | error e => simp [Ty.ofRead]
  | ok k =>
    -- What is read is the type itself, which is not `dynamic`.
    rw [Json.eq_of_read_chars hdescribes.spelled hread, Ty.ofRead, hdescribes.read]
    simp [hconcrete]

theorem isDynamic_wrappedType {spec : Msgpack} {u : Ty} (h : wrappedType spec = .ok u) :
    u.isDynamic = false := by
  rw [wrappedType] at h
  split at h
  · cases h
  split at h
  · cases h
  split at h
  · cases h
  · rename_i hconcrete
    obtain rfl := Except.ok.inj h
    simpa using hconcrete

/-- What MessagePack makes of numbers, and of types beside values. -/
def echo : Wire.Echo where
  number := numberBack
  type? := typeBack?
  same_number := same_numberBack
  type_spec t u h := by
    obtain ⟨j, -, hu⟩ := Option.bind_eq_some_iff.mp h
    have hu := Except.toOption_eq_some_iff.mp hu
    exact ⟨(describable_wrappedType hu).wellFormed, isDynamic_wrappedType hu⟩

theorem keepsTypes_echo : echo.KeepsTypes where
  type_eq _ _ := eq_inKeyOrder_of_typeBack?
  noCapsule t _ ht hu := by
    obtain ⟨j, hj, -⟩ := Option.bind_eq_some_iff.mp hu
    exact Ty.hasCapsule_of_toJson ht (Except.toOption_eq_some_iff.mp hj)

end Msgpack

end TypedData
