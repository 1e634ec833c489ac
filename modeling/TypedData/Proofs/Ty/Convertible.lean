import TypedData.Proofs.Ty.Objects
import TypedData.Proofs.Ty.Usable

/-!
# Convertible types

Collections and tuples are convertible if their element types are, and maps and objects if the
types of what the target asks for are. Equal types are convertible to the same types.

## Main results

* `Ty.convertible_iff_of_element?` and those after it — convertibility by the kinds of the types
* `Ty.WellFormed.convertible_of_same` — equal types are convertible to the same types
-/

namespace List

variable {α β : Type} {R : α → β → Prop}

/-- A list is related to copies of one element if each of its members is related to it. -/
theorem forall₂_replicate_left_iff {n : Nat} {a : α} {bs : List β} :
    Forall₂ R (replicate n a) bs ↔ n = bs.length ∧ ∀ b ∈ bs, R a b := by
  induction bs generalizing n with
  | nil => cases n <;> simp [replicate_succ]
  | cons b bs ih => cases n <;> simp [replicate_succ, ih, and_left_comm]

theorem forall₂_replicate_right_iff {n : Nat} {as : List α} {b : β} :
    Forall₂ R as (replicate n b) ↔ n = as.length ∧ ∀ a ∈ as, R a b := by
  exact (⟨.flip, .flip⟩ : Forall₂ R as _ ↔ Forall₂ (flip R) _ as).trans forall₂_replicate_left_iff

end List

namespace TypedData.Ty

variable {s t u a b : Ty} {ss ts : List Ty} {as bs : List (Attr Ty)}

/-! ### Lists, sets and tuples -/

/-- Collections are convertible if their element types are. -/
theorem convertible_iff_of_element? (hs : s.element? = some a) (ht : t.element? = some b)
    (hkind : s.isMap = t.isMap) : s.convertible t ↔ a.convertible b := by
  have hsame (h : s == t) : a.convertible b := by
    refine convertible_of_same (t := b) ?_
    cases s <;> cases t <;> cases hs <;> cases ht <;> first | exact h | cases h
  have hconcrete : s.isDynamic = false ∧ t.isDynamic = false := by
    cases s <;> cases hs <;> cases t <;> cases ht <;> exact ⟨rfl, rfl⟩
  refine ⟨fun h => ?_, fun h => ?_⟩
  · unfold convertible at h
    simp only [hconcrete, Bool.or_false, Bool.or_eq_true] at h
    refine h.elim hsame fun h => ?_
    cases s <;> cases hs <;> cases t <;> cases ht <;> first | exact h | cases hkind
  · cases s <;> cases hs <;> cases t <;> cases ht <;>
      first | rw [convertible, h, Bool.or_true] | cases hkind

/-- A tuple is convertible to a collection if each of its element types is. -/
theorem convertible_tuple_iff (ht : t.element? = some b) (hkind : t.isMap = false) :
    (tuple ss).convertible t ↔ ∀ s ∈ ss, s.convertible b := by
  cases t <;> cases ht <;> cases hkind
  all_goals
    rw [convertible]
    simp only [isDynamic, Bool.or_false, Bool.or_eq_true, List.all_eq_true]
    exact or_iff_right fun h => by cases h

/-- A collection is convertible to a tuple if its element type is to each of the tuple's. -/
theorem convertible_iff_of_tuple (hs : s.element? = some a) (hkind : s.isMap = false) :
    s.convertible (tuple ts) ↔ ∀ t ∈ ts, a.convertible t := by
  have heach : convertibleEach (List.replicate ts.length a) ts ↔ ∀ t ∈ ts, a.convertible t := by
    rw [convertibleEach_iff (by simp), List.forall₂_replicate_left_iff]
    exact and_iff_right rfl
  cases s <;> cases hs <;> cases hkind
  all_goals
    rw [convertible]
    simp only [isDynamic, Bool.or_false, Bool.or_eq_true, heach]
    exact or_iff_right fun h => by cases h

/-- Tuples are convertible if they are place by place. -/
theorem convertible_tuple_tuple :
    (tuple ss).convertible (tuple ts) ↔ List.Forall₂ (fun s t => s.convertible t) ss ts := by
  refine ⟨fun h => ?_, fun h => ?_⟩
  · unfold convertible at h
    simp only [isDynamic, Bool.or_false, Bool.or_eq_true, Bool.and_eq_true, beq_iff_eq] at h
    rcases h with h | ⟨hlength, h⟩
    · exact (sameEach_iff.mp h).imp fun _ _ => convertible_of_same
    · exact (convertibleEach_iff hlength).mp h
  · rw [convertible, (convertibleEach_iff h.length_eq).mpr h]
    simp [h.length_eq]

/-! ### Maps and objects -/

/-- An object is convertible to a map if the type of each attribute is. -/
theorem convertible_object_map :
    (object as).convertible (map t) ↔ ∀ a ∈ as, a.ty.convertible t := by
  rw [convertible]
  simp only [isDynamic, Bool.or_false, Bool.or_eq_true, List.all_eq_true]
  exact or_iff_right fun h => by cases h

/-- A map is convertible to an object if its element type is to the type of each attribute, whether
or not it may be left out. -/
theorem convertible_map_object :
    (map s).convertible (object bs) ↔ ∀ b ∈ bs, s.convertible b.ty := by
  rw [convertible]
  simp only [isDynamic, Bool.or_false, Bool.or_eq_true, convertibleAttrs_iff]
  refine (or_iff_right fun h => by cases h).trans (forall₂_congr fun b _ => ?_)
  simp

/-- An object is convertible to another if the type of each attribute asked for is, and the others
may be left out. -/
theorem convertible_object_object (has : Attr.WellFormed as) (hbs : Attr.WellFormed bs) :
    (object as).convertible (object bs) ↔ ∀ b ∈ bs,
      (∃ a, Attr.find? as b.name = some a ∧ a.ty.convertible b.ty) ∨
        (Attr.find? as b.name = none ∧ b.isOptional) := by
  have hattrs : convertibleAttrs (fun name => (Attr.find? as name).map (·.ty)) bs ↔ ∀ b ∈ bs,
      (∃ a, Attr.find? as b.name = some a ∧ a.ty.convertible b.ty) ∨
        (Attr.find? as b.name = none ∧ b.isOptional) := by
    rw [convertibleAttrs_iff]
    refine forall₂_congr fun b _ => ?_
    cases Attr.find? as b.name <;> simp
  refine ⟨fun h => ?_, fun h => by rw [convertible, hattrs.mpr h, Bool.or_true]⟩
  unfold convertible at h
  simp only [isDynamic, Bool.or_false, Bool.or_eq_true, hattrs] at h
  refine h.elim (fun h => ?_) id
  -- Equal objects have equal attributes.
  have hsame : (object as).same (object bs) := h
  rw [same, Bool.and_eq_true, beq_iff_eq] at hsame
  intro b hb
  obtain ⟨a, -, hfind, hty, -⟩ := exists_of_sameAttrs has.names hbs.names hsame.1 hsame.2 hb
  exact .inl ⟨a, hfind, convertible_of_same hty⟩

/-! ### Equal types -/

/-- Equal objects are convertible to the same objects, if the types of their attributes are
convertible to the same types. -/
theorem convertible_object_of_sameAttrs {cs : List (Attr Ty)} (has : Attr.WellFormed as)
    (hbs : Attr.WellFormed bs) (hcs : Attr.WellFormed cs) (h : (object as).same (object bs))
    (hattrs : ∀ a ∈ as, ∀ b ∈ bs, ∀ c ∈ cs, a.ty.same b.ty → b.ty.convertible c.ty →
      a.ty.convertible c.ty)
    (hconv : (object bs).convertible (object cs)) : (object as).convertible (object cs) := by
  rw [same, Bool.and_eq_true, beq_iff_eq] at h
  rw [convertible_object_object hbs hcs] at hconv
  rw [convertible_object_object has hcs]
  intro c hc
  rcases hconv c hc with ⟨b, hfind, hbc⟩ | ⟨hnone, ho⟩
  · have hb := Attr.mem_of_find? hfind
    obtain ⟨a, ha, hfind', hab, -⟩ := exists_of_sameAttrs has.names hbs.names h.1 h.2 hb
    rw [Attr.name_of_find? hfind] at hfind'
    exact .inl ⟨a, hfind', hattrs a ha b hb c hc hab hbc⟩
  · refine .inr ⟨Option.eq_none_iff_forall_ne_some.mpr fun a ha => ?_, ho⟩
    obtain ⟨b, hb, -⟩ := sameAttrs_iff.mp h.2 a (Attr.mem_of_find? ha)
    rw [Attr.name_of_find? ha, hnone] at hb
    cases hb

/-- Equal types are convertible to the same types. -/
theorem WellFormed.convertible_of_same (hs : s.WellFormed) (ht : t.WellFormed) (hu : u.WellFormed)
    (h : s.same t) (hconv : t.convertible u) : s.convertible u := by
  -- The first type is taken apart; the second has its form, and the target tells the cases apart.
  induction hs generalizing t u with
  | bool | number | string | dynamic =>
    cases t <;> cases h
    exact hconv
  | @capsule kind =>
    cases t <;> simp only [same, CapsuleType.same, Bool.false_eq_true, beq_iff_eq] at h
    cases u <;> simp_all [convertible, isDynamic, BEq.beq, same, CapsuleType.same]
  | list _ ih | set _ ih =>
    cases ht <;> simp only [same, Bool.false_eq_true] at h
    rename_i b hb
    cases hu with
    | dynamic => exact convertible_dynamic _
    | list hu | set hu =>
      exact (convertible_iff_of_element? (by rfl) (by rfl) (by rfl)).mpr
        (ih hb hu h ((convertible_iff_of_element? (by rfl) (by rfl) (by rfl)).mp hconv))
    | tuple hus =>
      have hconv := (convertible_iff_of_tuple (by rfl) (by rfl)).mp hconv
      exact (convertible_iff_of_tuple (by rfl) (by rfl)).mpr fun u hu =>
        ih hb (hus u hu) h (hconv u hu)
    | _ => simp [convertible, isDynamic, BEq.beq, same] at hconv
  | map _ ih =>
    cases ht <;> simp only [same, Bool.false_eq_true] at h
    rename_i b hb
    cases hu with
    | dynamic => exact convertible_dynamic _
    | map hu =>
      exact (convertible_iff_of_element? (by rfl) (by rfl) (by rfl)).mpr
        (ih hb hu h ((convertible_iff_of_element? (by rfl) (by rfl) (by rfl)).mp hconv))
    | object _ _ types =>
      rw [convertible_map_object] at hconv ⊢
      exact fun c hc => ih hb (types c hc) h (hconv c hc)
    | _ => simp [convertible, isDynamic, BEq.beq, same] at hconv
  | @tuple ss _ ih =>
    cases ht <;> simp only [same, Bool.false_eq_true] at h
    rename_i ts hts
    rw [sameEach_iff] at h
    cases hu with
    | dynamic => exact convertible_dynamic _
    | list hu | set hu =>
      have hconv := (convertible_tuple_iff (by rfl) (by rfl)).mp hconv
      refine (convertible_tuple_iff (by rfl) (by rfl)).mpr fun s hs => ?_
      obtain ⟨t, ht, hst⟩ := h.exists_of_mem_left hs
      exact ih s hs (hts t ht) hu hst (hconv t ht)
    | tuple hus =>
      rw [convertible_tuple_tuple] at hconv ⊢
      rw [List.forall₂_iff_get] at h hconv ⊢
      refine ⟨h.1.trans hconv.1, fun i hs hu => ?_⟩
      have ht : i < ts.length := h.1 ▸ hs
      exact ih _ (List.get_mem _ _) (hts _ (List.get_mem _ _)) (hus _ (List.get_mem _ _))
        (h.2 i hs ht) (hconv.2 i ht hu)
    | _ => simp [convertible, isDynamic, BEq.beq, same] at hconv
  | @object as names composed types ih =>
    cases ht <;> try cases h
    rename_i bs names' composed' types'
    cases hu with
    | dynamic => exact convertible_dynamic _
    | map hu =>
      rw [convertible_object_map] at hconv ⊢
      rw [same, Bool.and_eq_true, beq_iff_eq] at h
      intro a ha
      obtain ⟨b, hb, hab, -⟩ := sameAttrs_iff.mp h.2 a ha
      have hb := Attr.mem_of_find? hb
      exact ih a ha (types' b hb) hu hab (hconv b hb)
    | object cnames ccomposed ctypes =>
      refine convertible_object_of_sameAttrs ⟨names, composed, types⟩ ⟨names', composed', types'⟩
        ⟨cnames, ccomposed, ctypes⟩ h (fun a ha b hb c hc hab hbc => ?_) hconv
      exact ih a ha (types' b hb) (ctypes c hc) hab hbc
    | _ => simp [convertible, isDynamic, BEq.beq, same] at hconv

end TypedData.Ty
