import TypedData.Proofs.Checks
import TypedData.Proofs.Decimal.Rational
import TypedData.Proofs.Value.Equality
import TypedData.Proofs.Value.WellFormed
import TypedData.Proofs.Value.WhollyKnown

/-!
# Equality as data is an equivalence

Among well-formed values equality as data is symmetric and transitive. Since unknowns equal
nothing, it is reflexive just for values that are known at every depth.

## Main results

* `Value.WellFormed.identical_refl` — a value is identical to itself
* `Value.same_refl` — a value that is known at every depth equals itself
* `Value.same_symm` — equality as data looks the same from both sides
* `Value.same_trans` — what equals the same value is equal
* `Value.isWhollyKnown_of_same` — what equals something is known at every depth
* `Value.same_of_isWhollyKnown` — what is identical and known at every depth is equal as data
-/

namespace TypedData

/-- A refinement is the same as itself. -/
theorem Refinement.same_refl (r : Refinement) : r.same r := by
  obtain ⟨_, _, lower, upper, _, _⟩ := r
  cases lower <;> cases upper <;> simp [same, sameBound, NumberBound.same, Decimal.same]

namespace Value

variable {v w x : Value}

/-- A value is identical to itself. -/
theorem WellFormed.identical_refl (hv : v.WellFormed) : v.identical v := by
  induction v using Value.induction with
  | null | bool | number | string | capsule =>
    refine identical_iff.mpr ⟨hv.type_wellFormed.same_refl, rfl, ?_⟩
    simp [identicalContent, Decimal.same, CapsuleHandle.same, CapsuleType.same]
  | unknown ty r m =>
    exact identical_iff.mpr ⟨hv.type_wellFormed.same_refl, rfl, r.same_refl⟩
  | items own vs m ih =>
    refine identical_iff.mpr ⟨hv.type_wellFormed.same_refl, rfl, identicalEach_iff.mpr ?_⟩
    exact List.forall₂_same.mpr fun v hmem => ih v hmem (hv.of_mem_items hmem)
  | entries own es m ih =>
    refine identical_iff.mpr ⟨hv.type_wellFormed.same_refl, rfl, identicalEntries_iff.mpr ?_⟩
    exact List.forall₂_same.mpr fun e he => ⟨rfl, ih e he (hv.of_mem_entries he)⟩

/-- Equality as data looks the same from both sides. -/
theorem same_symm (hv : v.WellFormed) (hw : w.WellFormed) (h : v.same w) : w.same v := by
  induction v, w, h using same_induction with
  | null h | bool h | string h =>
    have hty := hv.type_wellFormed.same_symm hw.type_wellFormed (same_iff.mp h).1
    exact same_iff.mpr ⟨hty, (same_iff.mp h).2⟩
  | number h hnumber =>
    have hty := hv.type_wellFormed.same_symm hw.type_wellFormed (same_iff.mp h).1
    exact same_iff.mpr ⟨hty, Decimal.same_iff.mpr (Decimal.same_iff.mp hnumber).symm⟩
  | capsule h hcapsule =>
    have hty := hv.type_wellFormed.same_symm hw.type_wellFormed (same_iff.mp h).1
    refine same_iff.mpr ⟨hty, ?_⟩
    simp_all [sameContent, CapsuleHandle.same, CapsuleType.same]
  | items h ih =>
    have hty := hv.type_wellFormed.same_symm hw.type_wellFormed (same_iff.mp h).1
    refine same_iff.mpr ⟨hty, sameEach_iff.mpr (List.Forall₂.flip (ih.imp_of_mem ?_))⟩
    rintro v hv' w hw' ⟨-, h⟩
    exact h (hv.of_mem_items hv') (hw.of_mem_items hw')
  | entries h ih =>
    have hty := hv.type_wellFormed.same_symm hw.type_wellFormed (same_iff.mp h).1
    refine same_iff.mpr ⟨hty, sameEntries_iff.mpr (List.Forall₂.flip (ih.imp_of_mem ?_))⟩
    rintro e he f hf ⟨hkey, -, h⟩
    exact ⟨hkey.symm, h (hv.of_mem_entries he) (hw.of_mem_entries hf)⟩

/-- What equals something is known at every depth. -/
theorem isWhollyKnown_of_same (h : v.same w) : v.isWhollyKnown := by
  induction v, w, h using same_induction with
  | null | bool | number | string | capsule => rfl
  | items _ ih =>
    refine isWhollyKnown_items.mpr fun v hv => ?_
    obtain ⟨w, -, -, hknown⟩ := ih.exists_of_mem_left hv
    exact hknown
  | entries _ ih =>
    refine isWhollyKnown_entries.mpr fun e he => ?_
    obtain ⟨f, -, -, -, hknown⟩ := ih.exists_of_mem_left he
    exact hknown

/-- A value that is known at every depth equals itself. -/
theorem same_refl (hv : v.WellFormed) (hknown : v.isWhollyKnown) : v.same v := by
  induction v using Value.induction with
  | unknown => cases hknown
  | null | bool | number | string | capsule =>
    refine same_iff.mpr ⟨hv.type_wellFormed.same_refl, ?_⟩
    simp [sameContent, Decimal.same_iff, CapsuleHandle.same, CapsuleType.same]
  | items own vs m ih =>
    refine same_iff.mpr ⟨hv.type_wellFormed.same_refl, sameEach_iff.mpr (List.forall₂_same.mpr ?_)⟩
    exact fun v hmem => ih v hmem (hv.of_mem_items hmem) (isWhollyKnown_items.mp hknown v hmem)
  | entries own es m ih =>
    refine same_iff.mpr
      ⟨hv.type_wellFormed.same_refl, sameEntries_iff.mpr (List.forall₂_same.mpr ?_)⟩
    exact fun e he => ⟨rfl, ih e he (hv.of_mem_entries he) (isWhollyKnown_entries.mp hknown e he)⟩

/-- What is identical to a value is equal to it, if it is known at every depth. -/
theorem same_of_isWhollyKnown (hknown : v.isWhollyKnown) (h : v.identical w) : v.same w := by
  induction v using Value.induction generalizing w with
  | unknown => cases hknown
  | null | bool | number | string | capsule =>
    obtain ⟨hty, -, hcontent⟩ := identical_iff.mp h
    refine same_iff.mpr ⟨hty, ?_⟩
    obtain ⟨u, content, n⟩ := w
    cases content <;> exact hcontent
  | items own vs m ih =>
    obtain ⟨hty, -, hcontent⟩ := identical_iff.mp h
    refine same_iff.mpr ⟨hty, ?_⟩
    obtain ⟨u, content, n⟩ := w
    cases content <;> first | cases hcontent | skip
    refine sameEach_iff.mpr ((identicalEach_iff.mp hcontent).imp_of_mem fun v hv w _ h => ?_)
    exact ih v hv (isWhollyKnown_items.mp hknown v hv) h
  | entries own es m ih =>
    obtain ⟨hty, -, hcontent⟩ := identical_iff.mp h
    refine same_iff.mpr ⟨hty, ?_⟩
    obtain ⟨u, content, n⟩ := w
    cases content <;> first | cases hcontent | skip
    refine sameEntries_iff.mpr ((identicalEntries_iff.mp hcontent).imp_of_mem fun e he f _ h => ?_)
    exact ⟨h.1, ih e he (isWhollyKnown_entries.mp hknown e he) h.2⟩

/-- What equals the same value is equal. -/
theorem same_trans (hv : v.WellFormed) (h : v.same w) (h' : w.same x) : v.same x := by
  induction v, w, h using same_induction generalizing x with
  | null h | bool h | number h hnumber | string h | capsule h hcapsule =>
    obtain ⟨hty', hcontent'⟩ := same_iff.mp h'
    refine same_iff.mpr ⟨hv.type_wellFormed.same_trans (same_iff.mp h).1 hty', ?_⟩
    obtain ⟨u, d, n⟩ := x
    cases d <;> first | (cases hcontent'; done) | skip
    simp_all [sameContent, Decimal.same_iff, CapsuleHandle.same, CapsuleType.same]
  | items h ih =>
    obtain ⟨hty', hcontent'⟩ := same_iff.mp h'
    refine same_iff.mpr ⟨hv.type_wellFormed.same_trans (same_iff.mp h).1 hty', ?_⟩
    obtain ⟨u, d, n⟩ := x
    cases d <;> first | cases hcontent' | skip
    refine sameEach_iff.mpr (ih.trans_of_mem (sameEach_iff.mp hcontent') ?_)
    rintro v hmem _ _ _ ⟨-, hvw⟩ hwx
    exact hvw (hv.of_mem_items hmem) hwx
  | entries h ih =>
    obtain ⟨hty', hcontent'⟩ := same_iff.mp h'
    refine same_iff.mpr ⟨hv.type_wellFormed.same_trans (same_iff.mp h).1 hty', ?_⟩
    obtain ⟨u, d, n⟩ := x
    cases d <;> first | cases hcontent' | skip
    refine sameEntries_iff.mpr (ih.trans_of_mem (sameEntries_iff.mp hcontent') ?_)
    rintro e he f _ g ⟨hkey, -, hsame⟩ ⟨hkey', hsame'⟩
    exact ⟨hkey.trans hkey', hsame (hv.of_mem_entries he) hsame'⟩

end Value

end TypedData
