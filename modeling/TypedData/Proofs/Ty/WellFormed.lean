import Mathlib.Data.List.Perm.Subperm
import TypedData.Ty.Basic

/-!
# Well-formed types

Object types declare each attribute once, under a name in composed form. Among such types
equality is an equivalence relation, although it looks attributes up by name and does not
care about the order of declaration.

## Main definitions

* `Ty.WellFormed` — types whose attributes have distinct names in composed form
* `Ty.hasCapsule` — whether a capsule type appears anywhere

## Main results

* `Ty.WellFormed.same_refl`, `Ty.WellFormed.same_symm`, `Ty.WellFormed.same_trans` — equality
  of types is an equivalence relation
* `Ty.WellFormed.hasDynamic_of_same`, `Ty.WellFormed.hasCapsule_of_same` — equal types have the same
  leaves
-/

namespace TypedData

namespace Attr

variable {α : Type} {attrs : List (Attr α)} {a b : Attr α} {name : String}

theorem name_of_find? (h : find? attrs name = some a) : a.name = name := by
  simpa using List.find?_some h

theorem mem_of_find? (h : find? attrs name = some a) : a ∈ attrs :=
  List.mem_of_find?_eq_some h

theorem find?_isSome_iff : (find? attrs name).isSome ↔ name ∈ attrs.map (·.name) := by
  simp only [find?, List.find?_isSome, beq_iff_eq, List.mem_map]

/-- Distinct names make each attribute the one found under its name. -/
theorem find?_eq_some_of_mem (names : (attrs.map (·.name)).Nodup) (h : a ∈ attrs) :
    find? attrs a.name = some a := by
  induction attrs with
  | nil => simp at h
  | cons b bs ih =>
    rw [List.map_cons, List.nodup_cons] at names
    rcases List.mem_cons.mp h with rfl | h
    · simp [find?]
    · have hne : ¬ b.name = a.name := fun heq =>
        names.1 (heq ▸ List.mem_map_of_mem h)
      have := ih names.2 h
      simpa [find?, List.find?_cons, hne] using this

end Attr

namespace Ty

/-! ### Well-formed types -/

/-- A type whose attributes have distinct names in composed form, at every depth. -/
inductive WellFormed : Ty → Prop
  | bool : WellFormed bool
  | number : WellFormed number
  | string : WellFormed string
  | dynamic : WellFormed dynamic
  | capsule {kind : CapsuleType} : WellFormed (capsule kind)
  | list {t : Ty} (elem : WellFormed t) : WellFormed (list t)
  | set {t : Ty} (elem : WellFormed t) : WellFormed (set t)
  | map {t : Ty} (elem : WellFormed t) : WellFormed (map t)
  | tuple {ts : List Ty} (elems : ∀ t ∈ ts, WellFormed t) : WellFormed (tuple ts)
  | object {attrs : List (Attr Ty)} (names : (attrs.map (·.name)).Nodup)
      (composed : ∀ a ∈ attrs, Text.nfc a.name = a.name)
      (types : ∀ a ∈ attrs, WellFormed a.ty) : WellFormed (object attrs)

mutual

/-- Whether a capsule type appears anywhere. -/
def hasCapsule : Ty → Bool
  | capsule _ => true
  | list t | set t | map t => t.hasCapsule
  | tuple ts => anyCapsule ts
  | object attrs => anyCapsuleAttr attrs
  | bool | number | string | dynamic => false

/-- Whether a capsule type appears in one of several types. -/
def anyCapsule : List Ty → Bool
  | [] => false
  | t :: ts => t.hasCapsule || anyCapsule ts

/-- Whether a capsule type appears in one of several attributes. -/
def anyCapsuleAttr : List (Attr Ty) → Bool
  | [] => false
  | ⟨_, t, _⟩ :: as => t.hasCapsule || anyCapsuleAttr as

end

theorem anyDynamic_eq_any (ts : List Ty) : anyDynamic ts = ts.any hasDynamic := by
  induction ts with
  | nil => rfl
  | cons t ts ih => simp [anyDynamic, ih]

theorem anyDynamicAttr_eq_any (attrs : List (Attr Ty)) :
    anyDynamicAttr attrs = attrs.any fun a => a.ty.hasDynamic := by
  induction attrs with
  | nil => rfl
  | cons a as ih => simp [anyDynamicAttr, ih]

theorem anyCapsule_eq_any (ts : List Ty) : anyCapsule ts = ts.any hasCapsule := by
  induction ts with
  | nil => rfl
  | cons t ts ih => simp [anyCapsule, ih]

theorem anyCapsuleAttr_eq_any (attrs : List (Attr Ty)) :
    anyCapsuleAttr attrs = attrs.any fun a => a.ty.hasCapsule := by
  induction attrs with
  | nil => rfl
  | cons a as ih => simp [anyCapsuleAttr, ih]

/-! ### Equality of the parts -/

theorem sameEach_iff {ts us : List Ty} :
    sameEach ts us ↔ List.Forall₂ (fun t u => t.same u) ts us := by
  induction ts generalizing us with
  | nil => cases us <;> simp [sameEach]
  | cons t ts ih => cases us <;> simp [sameEach, ih]

theorem sameAttrs_iff {as bs : List (Attr Ty)} :
    sameAttrs as bs ↔ ∀ a ∈ as, ∃ b, Attr.find? bs a.name = some b ∧ a.ty.same b.ty ∧
      a.isOptional = b.isOptional := by
  induction as with
  | nil => simp [sameAttrs]
  | cons a as ih =>
    obtain ⟨name, t, o⟩ := a
    cases hb : Attr.find? bs name <;> simp [sameAttrs, ih, hb]

/-- Names on the left that all occur among as many distinct names on the right are all of
them. -/
theorem mem_names_of_sameAttrs {as bs : List (Attr Ty)} {name : String}
    (names : (as.map (·.name)).Nodup) (hlength : as.length = bs.length)
    (hsame : sameAttrs as bs) (h : name ∈ bs.map (·.name)) : name ∈ as.map (·.name) := by
  have hsubset : as.map (·.name) ⊆ bs.map (·.name) := by
    intro n hn
    obtain ⟨a, ha, rfl⟩ := List.mem_map.mp hn
    obtain ⟨b, hb, -⟩ := sameAttrs_iff.mp hsame a ha
    exact List.mem_map.mpr ⟨b, Attr.mem_of_find? hb, Attr.name_of_find? hb⟩
  have hperm := (names.subperm hsubset).perm_of_length_le (by simp [hlength])
  exact hperm.mem_iff.mpr h

/-- Each attribute on the right has an equal one on the left. -/
theorem exists_of_sameAttrs {as bs : List (Attr Ty)} {b : Attr Ty}
    (names : (as.map (·.name)).Nodup) (names' : (bs.map (·.name)).Nodup)
    (hlength : as.length = bs.length) (hsame : sameAttrs as bs) (hb : b ∈ bs) :
    ∃ a ∈ as, Attr.find? as b.name = some a ∧ a.ty.same b.ty ∧ a.isOptional = b.isOptional := by
  have hmem := mem_names_of_sameAttrs names hlength hsame (List.mem_map_of_mem hb)
  obtain ⟨a, ha⟩ := Option.isSome_iff_exists.mp (Attr.find?_isSome_iff.mpr hmem)
  obtain ⟨b', hb', hty, hopt⟩ := sameAttrs_iff.mp hsame a (Attr.mem_of_find? ha)
  -- The attribute of that name on the right is `b` itself.
  rw [Attr.name_of_find? ha, Attr.find?_eq_some_of_mem names' hb] at hb'
  obtain rfl := Option.some.inj hb'
  exact ⟨a, Attr.mem_of_find? ha, ha, hty, hopt⟩

/-- What equal types have in common holds of some type on the left if of one on the right. -/
private theorem any_eq_of_sameEach {ts us : List Ty} {p : Ty → Bool} (h : sameEach ts us)
    (hp : ∀ t ∈ ts, ∀ u ∈ us, t.same u → p t = p u) : ts.any p = us.any p := by
  rw [sameEach_iff] at h
  induction h with
  | nil => rfl
  | cons hsame _ ih =>
    rw [List.any_cons, List.any_cons, hp _ (by simp) _ (by simp) hsame,
      ih fun t ht u hu => hp t (by simp [ht]) u (by simp [hu])]

/-- What equal types have in common holds of some attribute's type on the left if of one on the
right. -/
private theorem any_eq_of_sameAttrs {as bs : List (Attr Ty)} {p : Ty → Bool}
    (names : (as.map (·.name)).Nodup) (names' : (bs.map (·.name)).Nodup)
    (hlength : as.length = bs.length) (h : sameAttrs as bs)
    (hp : ∀ a ∈ as, ∀ b ∈ bs, a.ty.same b.ty → p a.ty = p b.ty) :
    (as.any fun a => p a.ty) = bs.any fun b => p b.ty := by
  rw [Bool.eq_iff_iff, List.any_eq_true, List.any_eq_true]
  constructor
  · rintro ⟨a, ha, hpa⟩
    obtain ⟨b, hb, hsame, -⟩ := sameAttrs_iff.mp h a ha
    have hb := Attr.mem_of_find? hb
    exact ⟨b, hb, by rwa [← hp a ha b hb hsame]⟩
  · rintro ⟨b, hb, hpb⟩
    obtain ⟨a, ha, -, hsame, -⟩ := exists_of_sameAttrs names names' hlength h hb
    exact ⟨a, ha, by rwa [hp a ha b hb hsame]⟩

/-! ### Equality is an equivalence relation -/

namespace WellFormed

variable {t u v : Ty}

/-- A well-formed type equals itself. -/
theorem same_refl (ht : t.WellFormed) : t.same t := by
  induction ht with
  | bool | number | string | dynamic => rfl
  | capsule => simp [same, CapsuleType.same]
  | list _ ih | set _ ih | map _ ih => simpa [same] using ih
  | tuple _ ih =>
    rw [same, sameEach_iff, List.forall₂_same]
    exact ih
  | object names _ _ ih =>
    rw [same, Bool.and_eq_true, sameAttrs_iff]
    refine ⟨by simp, fun a ha => ⟨a, Attr.find?_eq_some_of_mem names ha, ih a ha, rfl⟩⟩

/-- Equality of well-formed types is symmetric. -/
theorem same_symm (ht : t.WellFormed) (hu : u.WellFormed) (h : t.same u) : u.same t := by
  induction ht generalizing u with
  | bool | number | string | dynamic => cases hu <;> simp [same] at h ⊢
  | capsule =>
    cases hu <;> simp only [same, CapsuleType.same, Bool.false_eq_true, beq_iff_eq] at h ⊢
    exact h.symm
  | list _ ih | set _ ih | map _ ih =>
    cases hu <;> simp only [same, Bool.false_eq_true] at h ⊢
    exact ih ‹_› h
  | tuple _ ih =>
    cases hu with
    | tuple hus =>
      rw [same, sameEach_iff] at h ⊢
      refine List.Forall₂.flip ?_
      rw [List.forall₂_iff_get] at h ⊢
      refine ⟨h.1, fun i hi hi' => ?_⟩
      exact ih _ (List.get_mem _ _) (hus _ (List.get_mem _ _)) (h.2 i hi hi')
    | _ => simp [same] at h
  | @object as names _ _ ih =>
    cases hu with
    | @object bs names' _ hus =>
      simp only [same, Bool.and_eq_true, beq_iff_eq] at h ⊢
      refine ⟨h.1.symm, sameAttrs_iff.mpr fun b hb => ?_⟩
      obtain ⟨a, ha, hfind, hsame, hopt⟩ := exists_of_sameAttrs names names' h.1 h.2 hb
      exact ⟨a, hfind, ih a ha (hus b hb) hsame, hopt.symm⟩
    | _ => simp [same] at h

/-- Equality of well-formed types is transitive. -/
theorem same_trans (ht : t.WellFormed) (h : t.same u) (h' : u.same v) : t.same v := by
  induction ht generalizing u v with
  | bool | number | string | dynamic => cases u <;> simp_all [same]
  | capsule =>
    cases u <;> cases v <;> simp_all [same, CapsuleType.same]
  | list _ ih | set _ ih | map _ ih =>
    cases u <;> cases v <;> simp only [same, Bool.false_eq_true] at h h' ⊢
    exact ih h h'
  | tuple _ ih =>
    cases u <;> cases v <;> simp only [same, Bool.false_eq_true] at h h' ⊢
    rw [sameEach_iff, List.forall₂_iff_get] at h h' ⊢
    refine ⟨h.1.trans h'.1, fun i hi hi' => ?_⟩
    exact ih _ (List.get_mem _ _) (h.2 i hi (h.1 ▸ hi)) (h'.2 i (h.1 ▸ hi) hi')
  | object _ _ _ ih =>
    cases u <;> cases v <;>
      simp only [same, Bool.false_eq_true, Bool.and_eq_true, beq_iff_eq] at h h' ⊢
    refine ⟨h.1.trans h'.1, sameAttrs_iff.mpr fun a ha => ?_⟩
    obtain ⟨b, hb, hsame, hopt⟩ := sameAttrs_iff.mp h.2 a ha
    obtain ⟨c, hc, hsame', hopt'⟩ := sameAttrs_iff.mp h'.2 b (Attr.mem_of_find? hb)
    rw [Attr.name_of_find? hb] at hc
    exact ⟨c, hc, ih a ha hsame hsame', hopt.trans hopt'⟩

/-- Equal types have `dynamic` inside alike. -/
theorem hasDynamic_of_same (ht : t.WellFormed) (hu : u.WellFormed) (h : t.same u) :
    t.hasDynamic = u.hasDynamic := by
  induction ht generalizing u with
  | bool | number | string | dynamic | capsule => cases hu <;> simp_all [same, hasDynamic]
  | list _ ih | set _ ih | map _ ih =>
    cases hu <;> simp only [same, Bool.false_eq_true] at h
    rw [hasDynamic, hasDynamic]
    exact ih ‹_› h
  | tuple _ ih =>
    cases hu <;> simp only [same, Bool.false_eq_true] at h
    rename_i hus
    rw [hasDynamic, hasDynamic, anyDynamic_eq_any, anyDynamic_eq_any]
    exact any_eq_of_sameEach h fun t ht u hu hsame => ih t ht (hus u hu) hsame
  | object names _ _ ih =>
    cases hu <;> simp only [same, Bool.false_eq_true, Bool.and_eq_true, beq_iff_eq] at h
    rename_i names' _ hus
    rw [hasDynamic, hasDynamic, anyDynamicAttr_eq_any, anyDynamicAttr_eq_any]
    exact any_eq_of_sameAttrs names names' h.1 h.2 fun a ha b hb hsame =>
      ih a ha (hus b hb) hsame

/-- Equal types have capsule types inside alike. -/
theorem hasCapsule_of_same (ht : t.WellFormed) (hu : u.WellFormed) (h : t.same u) :
    t.hasCapsule = u.hasCapsule := by
  induction ht generalizing u with
  | bool | number | string | dynamic | capsule => cases hu <;> simp_all [same, hasCapsule]
  | list _ ih | set _ ih | map _ ih =>
    cases hu <;> simp only [same, Bool.false_eq_true] at h
    rw [hasCapsule, hasCapsule]
    exact ih ‹_› h
  | tuple _ ih =>
    cases hu <;> simp only [same, Bool.false_eq_true] at h
    rename_i hus
    rw [hasCapsule, hasCapsule, anyCapsule_eq_any, anyCapsule_eq_any]
    exact any_eq_of_sameEach h fun t ht u hu hsame => ih t ht (hus u hu) hsame
  | object names _ _ ih =>
    cases hu <;> simp only [same, Bool.false_eq_true, Bool.and_eq_true, beq_iff_eq] at h
    rename_i names' _ hus
    rw [hasCapsule, hasCapsule, anyCapsuleAttr_eq_any, anyCapsuleAttr_eq_any]
    exact any_eq_of_sameAttrs names names' h.1 h.2 fun a ha b hb hsame =>
      ih a ha (hus b hb) hsame

end WellFormed

end Ty

end TypedData
