import TypedData.Conversion
import TypedData.Proofs.Checks
import TypedData.Proofs.Ty.WellFormed

/-!
# Assignable types

An object type may ask for fewer attributes than there are, and may do without optional ones.
Assignability respects equality of types on the left, and what is assignable is convertible.

## Main results

* `Ty.WellFormed.usableAs_of_same` — equal types are assignable to the same types
* `Ty.WellFormed.usableAs_refl` — a type is assignable to itself
* `Ty.convertible_of_usableAs` — assignable types are convertible
-/

namespace TypedData.Ty

variable {s t u : Ty}

/-! ### Assignability of the parts -/

theorem usableEach_iff {ts us : List Ty} :
    usableEach ts us ↔ List.Forall₂ (fun t u => t.usableAs u) ts us := by
  induction us generalizing ts with
  | nil => cases ts <;> simp [usableEach]
  | cons u us ih => cases ts <;> simp [usableEach, ih]

theorem usableAttrs_iff {as bs : List (Attr Ty)} :
    usableAttrs as bs ↔ ∀ b ∈ bs,
      (∃ a, Attr.find? as b.name = some a ∧ a.ty.usableAs b.ty) ∨
        (Attr.find? as b.name = none ∧ b.isOptional) := by
  induction bs with
  | nil => simp [usableAttrs]
  | cons b bs ih =>
    obtain ⟨name, u, o⟩ := b
    cases ha : Attr.find? as name <;> simp [usableAttrs, ih, ha]

@[simp] theorem usableAs_dynamic (t : Ty) : t.usableAs .dynamic := by
  cases t <;> rfl

theorem usableAs_of_isDynamic (h : u.isDynamic) : t.usableAs u := by
  cases u with
  | dynamic => exact usableAs_dynamic t
  | _ => cases h

/-- Only `dynamic` asks for as little as `dynamic`. -/
theorem isDynamic_of_usableAs (h : t.usableAs u) (ht : t.isDynamic) : u.isDynamic := by
  cases t <;> cases ht
  cases u <;> first | rfl | cases h

/-! ### Equal types -/

/-- Equal types are assignable to the same types. -/
theorem WellFormed.usableAs_of_same (hs : s.WellFormed) (ht : t.WellFormed) (h : s.same t)
    (huse : t.usableAs u) : s.usableAs u := by
  induction hs generalizing t u with
  | bool | number | string | dynamic =>
    cases t <;> cases h
    exact huse
  | capsule =>
    cases t <;> simp only [same, CapsuleType.same, Bool.false_eq_true, beq_iff_eq] at h
    cases u <;> simp_all [usableAs, CapsuleType.same]
  | list _ ih | set _ ih | map _ ih =>
    cases ht <;> simp only [same, Bool.false_eq_true] at h
    cases u <;> simp only [usableAs, Bool.false_eq_true] at huse ⊢
    exact ih ‹_› h huse
  | @tuple ss _ ih =>
    cases ht with
    | @tuple ts hts =>
      cases u <;> simp only [same, usableAs, Bool.false_eq_true] at h huse ⊢
      rw [sameEach_iff, List.forall₂_iff_get] at h
      rw [usableEach_iff, List.forall₂_iff_get] at huse ⊢
      refine ⟨h.1.trans huse.1, fun i hi hi' => ?_⟩
      have hit : i < ts.length := h.1 ▸ hi
      exact ih _ (List.get_mem _ _) (hts _ (List.get_mem _ _)) (h.2 i hi hit) (huse.2 i hit hi')
    | _ => cases h
  | @object as names _ _ ih =>
    cases ht with
    | @object bs names' _ hbs =>
      cases u <;> simp only [same, usableAs, Bool.false_eq_true, Bool.and_eq_true, beq_iff_eq]
        at h huse ⊢
      rename_i cs
      rw [usableAttrs_iff] at huse ⊢
      intro c hc
      rcases huse c hc with ⟨b, hb, hbc⟩ | ⟨hb, hc⟩
      · -- What is found on the right is on the left too, under an equal type.
        obtain ⟨a, ha, hfind, hab, -⟩ :=
          exists_of_sameAttrs names names' h.1 h.2 (Attr.mem_of_find? hb)
        rw [Attr.name_of_find? hb] at hfind
        exact .inl ⟨a, hfind, ih a ha (hbs b (Attr.mem_of_find? hb)) hab hbc⟩
      · refine .inr ⟨?_, hc⟩
        rw [Option.eq_none_iff_forall_ne_some]
        intro a ha
        obtain ⟨b, hb', -⟩ := sameAttrs_iff.mp h.2 a (Attr.mem_of_find? ha)
        rw [Attr.name_of_find? ha, hb] at hb'
        cases hb'
    | _ => cases h

/-- A type is assignable to itself. -/
theorem WellFormed.usableAs_refl (ht : t.WellFormed) : t.usableAs t := by
  induction ht with
  | bool | number | string | dynamic => rfl
  | capsule => simp [usableAs, CapsuleType.same]
  | list _ ih | set _ ih | map _ ih => simpa [usableAs] using ih
  | tuple _ ih =>
    rw [usableAs, usableEach_iff, List.forall₂_same]
    exact ih
  | object names _ _ ih =>
    rw [usableAs, usableAttrs_iff]
    exact fun a ha => .inl ⟨a, Attr.find?_eq_some_of_mem names ha, ih a ha⟩

/-! ### Conversion -/

theorem convertibleEach_iff {ss ts : List Ty} (hlength : ss.length = ts.length) :
    convertibleEach ss ts ↔ List.Forall₂ (fun s t => s.convertible t) ss ts := by
  induction ts generalizing ss with
  | nil =>
    obtain rfl := List.eq_nil_of_length_eq_zero hlength
    simp [convertibleEach]
  | cons t ts ih =>
    cases ss with
    | nil => cases hlength
    | cons s ss => simp [convertibleEach, ih (by simpa using hlength)]

theorem convertibleAttrs_iff {sourceOf : String → Option Ty} {bs : List (Attr Ty)} :
    convertibleAttrs sourceOf bs ↔ ∀ b ∈ bs,
      (∃ s, sourceOf b.name = some s ∧ s.convertible b.ty) ∨
        (sourceOf b.name = none ∧ b.isOptional) := by
  induction bs with
  | nil => simp [convertibleAttrs]
  | cons b bs ih =>
    obtain ⟨name, t, o⟩ := b
    cases hs : sourceOf name <;> simp [convertibleAttrs, ih, hs]

theorem convertible_of_same (h : s.same t) : s.convertible t := by
  have heq : (s == t) = true := h
  unfold convertible
  rw [heq, Bool.true_or, Bool.true_or, Bool.true_or]

/-- Assignable types are convertible. -/
theorem convertible_of_usableAs (hs : s.WellFormed) (h : s.usableAs t) : s.convertible t := by
  induction hs generalizing t with
  | bool | number | string | dynamic =>
    cases t <;> first | exact convertible_dynamic _ | exact convertible_of_same rfl | cases h
  | capsule =>
    cases t <;> first | exact convertible_dynamic _ | exact convertible_of_same h
  | list _ ih | set _ ih | map _ ih =>
    cases t <;> simp only [usableAs, Bool.false_eq_true, convertible_dynamic] at h ⊢
    rw [convertible, ih h, Bool.or_true]
  | tuple _ ih =>
    cases t <;> simp only [usableAs, Bool.false_eq_true, convertible_dynamic] at h ⊢
    rw [usableEach_iff] at h
    have heach := (convertibleEach_iff h.length_eq).mpr
      (h.imp_of_mem fun s hs t _ hst => ih s hs hst)
    simp [convertible, h.length_eq, heach]
  | object _ _ _ ih =>
    cases t <;> simp only [usableAs, Bool.false_eq_true, convertible_dynamic] at h ⊢
    rename_i as _ _ _ bs
    have hattrs : convertibleAttrs (fun name => (Attr.find? as name).map (·.ty)) bs := by
      refine convertibleAttrs_iff.mpr fun b hb => ?_
      rcases usableAttrs_iff.mp h b hb with ⟨a, ha, hab⟩ | ⟨hnone, ho⟩
      · exact .inl ⟨a.ty, by rw [ha, Option.map_some], ih a (Attr.mem_of_find? ha) hab⟩
      · exact .inr ⟨by rw [hnone, Option.map_none], ho⟩
    rw [convertible, hattrs, Bool.or_true]

end TypedData.Ty
