import TypedData.Proofs.Ty.Unify

/-!
# Unification does not depend on order or repetition

Unification starts from the first type that it is given, but what it gives is decided by which types
there are: two lists with the same types in them share equal types. Everything that it reads off
several types is read off two such lists alike, and the types that count are as many in both.

## Main definitions

* `Ty.SameTypes` — lists of types with the same members, up to equality
* `Ty.Differ` — whether there are several types that count

## Main results

* `Ty.SameTypes.distinct`, `Ty.SameTypes.differ` — the types that count are the same
* `Ty.SameTypes.same_unify` — the same types share equal types
-/

namespace TypedData.Ty

/-! ### Lists with related members -/

/-- Whether each member of either list is related to one of the other. -/
structure Alike {α : Type} (R : α → α → Prop) (as bs : List α) : Prop where
  left : ∀ a ∈ as, ∃ b ∈ bs, R a b
  right : ∀ b ∈ bs, ∃ a ∈ as, R a b

section Alike

variable {α : Type} {R : α → α → Prop} {as bs : List α}

theorem Alike.symm (h : Alike R as bs) (hR : ∀ a ∈ as, ∀ b ∈ bs, R a b → R b a) :
    Alike R bs as where
  left b hb := by
    obtain ⟨a, ha, hab⟩ := h.right b hb
    exact ⟨a, ha, hR a ha b hb hab⟩
  right a ha := by
    obtain ⟨b, hb, hab⟩ := h.left a ha
    exact ⟨b, hb, hR a ha b hb hab⟩

/-- What related members have in common holds of all on one side if of all on the other. -/
theorem Alike.forall_iff {P : α → Prop} (h : Alike R as bs) (hP : ∀ a b, R a b → (P a ↔ P b)) :
    (∀ a ∈ as, P a) ↔ ∀ b ∈ bs, P b := by
  constructor
  · intro has b hb
    obtain ⟨a, ha, hab⟩ := h.right b hb
    exact (hP a b hab).mp (has a ha)
  · intro hbs a ha
    obtain ⟨b, hb, hab⟩ := h.left a ha
    exact (hP a b hab).mpr (hbs b hb)

end Alike

variable {ts us : List Ty}

/-- Lists of types with the same members, in any order and any number. -/
abbrev SameTypes (ts us : List Ty) : Prop := Alike (fun t u => t.same u) ts us

theorem SameTypes.symm (h : SameTypes ts us) (ht : ∀ t ∈ ts, t.WellFormed)
    (hu : ∀ u ∈ us, u.WellFormed) : SameTypes us ts :=
  Alike.symm h fun t htmem u humem hsame => (ht t htmem).same_symm (hu u humem) hsame

/-! ### The types that count -/

theorem forall_distinct {P : Ty → Prop} (h : ∀ t ∈ ts, P t) : ∀ t ∈ distinct ts, P t :=
  fun t ht => h t (mem_of_mem_distinct ht)

/-- No two of the types that count are equal. -/
theorem pairwise_distinct (ts : List Ty) : (distinct ts).Pairwise fun t u => ¬ t.same u := by
  induction ts with
  | nil => exact .nil
  | cons t ts ih =>
    refine .cons (fun u hu => ?_) (ih.filter _)
    obtain ⟨-, hne⟩ := List.mem_filter.mp hu
    rw [Bool.not_eq_true'] at hne
    exact Bool.eq_false_iff.mp hne

/-- The same types are the same types once each of them is counted once. -/
theorem SameTypes.distinct (h : SameTypes ts us) (ht : ∀ t ∈ ts, t.WellFormed)
    (hu : ∀ u ∈ us, u.WellFormed) : SameTypes (distinct ts) (distinct us) where
  left t htmem := by
    have htmem := mem_of_mem_distinct htmem
    obtain ⟨u, humem, htu⟩ := h.left t htmem
    obtain ⟨v, hv, huv⟩ := exists_mem_distinct hu humem
    exact ⟨v, hv, (ht t htmem).same_trans htu huv⟩
  right u humem := by
    have humem := mem_of_mem_distinct humem
    obtain ⟨t, htmem, htu⟩ := h.right u humem
    obtain ⟨v, hv, htv⟩ := exists_mem_distinct ht htmem
    have hvt := (ht t htmem).same_symm (ht v (mem_of_mem_distinct hv)) htv
    exact ⟨v, hv, (ht v (mem_of_mem_distinct hv)).same_trans hvt htu⟩

/-- Whether there are several types that count. -/
def Differ (ts : List Ty) : Prop := ∃ t ∈ ts, ∃ u ∈ ts, ¬ t.same u

theorem differ_distinct {t : Ty} {rest : List Ty} (hd : Ty.distinct ts = t :: rest)
    (hrest : rest ≠ []) : Differ (Ty.distinct ts) := by
  obtain ⟨u, hu⟩ := List.exists_mem_of_ne_nil rest hrest
  have hne := List.rel_of_pairwise_cons (hd ▸ pairwise_distinct ts) hu
  exact ⟨t, hd ▸ List.mem_cons_self, u, hd ▸ List.mem_cons_of_mem t hu, hne⟩

theorem differ_of_cons {t : Ty} {rest : List Ty} (hd : Ty.distinct ts = t :: rest)
    (hrest : rest ≠ []) : Differ ts := by
  obtain ⟨t, ht, u, hu, hne⟩ := differ_distinct hd hrest
  exact ⟨t, mem_of_mem_distinct ht, u, mem_of_mem_distinct hu, hne⟩

/-- Types that differ do not all equal the only one that counts. -/
theorem Differ.exists_cons (h : Differ ts) (ht : ∀ t ∈ ts, t.WellFormed) :
    ∃ t rest, Ty.distinct ts = t :: rest ∧ rest ≠ [] := by
  obtain ⟨t, htmem, u, humem, hne⟩ := h
  obtain ⟨t', ht', htt'⟩ := exists_mem_distinct ht htmem
  obtain ⟨u', hu', huu'⟩ := exists_mem_distinct ht humem
  match hd : Ty.distinct ts with
  | [] => simp [hd] at ht'
  | [v] =>
    obtain rfl : t' = v := by simpa [hd] using ht'
    obtain rfl : u' = t' := by simpa [hd] using hu'
    have hut := (ht u humem).same_symm (ht u' (mem_of_mem_distinct hu')) huu'
    exact absurd ((ht t htmem).same_trans htt' hut) hne
  | v :: w :: rest => exact ⟨v, w :: rest, rfl, nofun⟩

theorem SameTypes.differ (h : SameTypes ts us) (ht : ∀ t ∈ ts, t.WellFormed)
    (hu : ∀ u ∈ us, u.WellFormed) (hdiffer : Differ ts) : Differ us := by
  obtain ⟨t, htmem, t', htmem', hne⟩ := hdiffer
  obtain ⟨u, humem, htu⟩ := h.left t htmem
  obtain ⟨u', humem', htu'⟩ := h.left t' htmem'
  refine ⟨u, humem, u', humem', fun huu' => hne ?_⟩
  have hut := (ht t' htmem').same_symm (hu u' humem') htu'
  exact (ht t htmem).same_trans ((ht t htmem).same_trans htu huu') hut

/-! ### Parts of several types -/

theorem exists_allParts? {α : Type} {part? : Ty → Option α}
    (h : ∀ t ∈ ts, ∃ a, part? t = some a) : ∃ as, allParts? part? ts = some as := by
  induction ts with
  | nil => exact ⟨[], rfl⟩
  | cons t ts ih =>
    rw [List.forall_mem_cons] at h
    obtain ⟨⟨a, ha⟩, hts⟩ := h
    obtain ⟨as, has⟩ := ih hts
    exact ⟨a :: as, by simp [allParts?, ha, has]⟩

/-- Whether a part of one type is related to the same part of an equal type. -/
def PartsAgree {α : Type} (R : α → α → Prop) (part? : Ty → Option α) : Prop :=
  ∀ ⦃t u : Ty⦄, t.WellFormed → u.WellFormed → t.same u → ∀ a, part? t = some a →
    ∃ b, part? u = some b ∧ R a b

/-- Parts that the types of one list have are had by the same types too. -/
theorem SameTypes.exists_allParts? {α : Type} {R : α → α → Prop} {part? : Ty → Option α}
    {as : List α} (h : SameTypes ts us) (ht : ∀ t ∈ ts, t.WellFormed)
    (hu : ∀ u ∈ us, u.WellFormed) (hpart : PartsAgree R part?)
    (has : allParts? part? ts = some as) :
    ∃ bs, allParts? part? us = some bs ∧ Alike R as bs := by
  have hright : ∀ u ∈ us, ∃ b, part? u = some b ∧ ∃ a ∈ as, R a b := by
    intro u humem
    obtain ⟨t, htmem, htu⟩ := h.right u humem
    obtain ⟨a, ha, hta⟩ := exists_part_of_mem has htmem
    obtain ⟨b, hb, hab⟩ := hpart (ht t htmem) (hu u humem) htu a hta
    exact ⟨b, hb, a, ha, hab⟩
  obtain ⟨bs, hbs⟩ := Ty.exists_allParts? fun u humem => (hright u humem).imp fun _ h => h.1
  refine ⟨bs, hbs, fun a ha => ?_, fun b hb => ?_⟩
  · obtain ⟨t, htmem, hta⟩ := exists_of_mem_allParts? has a ha
    obtain ⟨u, humem, htu⟩ := h.left t htmem
    obtain ⟨b, hb, hub⟩ := exists_part_of_mem hbs humem
    obtain ⟨b', hb', hab⟩ := hpart (ht t htmem) (hu u humem) htu a hta
    obtain rfl := Option.some.inj (hub.symm.trans hb')
    exact ⟨b, hb, hab⟩
  · obtain ⟨u, humem, hub⟩ := exists_of_mem_allParts? hbs b hb
    obtain ⟨b', hb', a, ha, hab⟩ := hright u humem
    obtain rfl := Option.some.inj (hub.symm.trans hb')
    exact ⟨a, ha, hab⟩

/-- Parts that the types of one list do not all have are not all had by the same types either. -/
theorem SameTypes.allParts?_eq_none {α : Type} {R : α → α → Prop} {part? : Ty → Option α}
    (h : SameTypes ts us) (ht : ∀ t ∈ ts, t.WellFormed) (hu : ∀ u ∈ us, u.WellFormed)
    (hpart : PartsAgree R part?) (hnone : allParts? part? ts = none) :
    allParts? part? us = none := by
  cases hbs : allParts? part? us with
  | none => rfl
  | some bs =>
    obtain ⟨as, has, -⟩ := (h.symm ht hu).exists_allParts? hu ht hpart hbs
    simp [hnone] at has

theorem partsAgree_elementOf? (c : Collection) :
    PartsAgree (fun t u => t.same u) (elementOf? c) := by
  intro t u _ _ h a ha
  obtain rfl := elementOf?_eq_some_iff.mp ha
  cases c <;> cases u <;> simp only [Collection.of, same, Bool.false_eq_true] at h <;>
    exact ⟨_, rfl, h⟩

theorem partsAgree_places? (n : Nat) :
    PartsAgree (List.Forall₂ fun t u => t.same u) (places? n) := by
  intro t u _ _ h row hrow
  cases t <;> simp only [places?, reduceCtorEq, Option.ite_none_right_eq_some,
    Option.some.injEq] at hrow
  obtain ⟨hlength, rfl⟩ := hrow
  cases u <;> simp only [same, Bool.false_eq_true] at h
  rw [sameEach_iff] at h
  exact ⟨_, if_pos (h.length_eq ▸ hlength), h⟩

/-- Whether attributes are found alike in two objects, whatever they are looked up by. -/
structure AttrsAgree (as bs : List (Attr Ty)) : Prop where
  some : ∀ name a, Attr.find? as name = some a →
    ∃ b, Attr.find? bs name = some b ∧ a.ty.same b.ty ∧ a.isOptional = b.isOptional
  none : ∀ name, Attr.find? as name = none → Attr.find? bs name = none

theorem partsAgree_attributes? : PartsAgree AttrsAgree attributes? := by
  intro t u ht hu h as has
  cases t <;> cases has
  cases u <;> simp only [same, Bool.false_eq_true, Bool.and_eq_true, beq_iff_eq] at h
  rename_i bs
  have hnames := (Attr.WellFormed.of_object ht).names
  refine ⟨bs, rfl, fun name a ha => ?_, fun name hnone => ?_⟩
  · obtain ⟨b, hb, hab⟩ := sameAttrs_iff.mp h.2 a (Attr.mem_of_find? ha)
    exact ⟨b, Attr.name_of_find? ha ▸ hb, hab⟩
  · by_contra hsome
    have hmem := Attr.find?_isSome_iff.mp (Option.isSome_iff_ne_none.mpr hsome)
    have hmem := mem_names_of_sameAttrs hnames h.1 h.2 hmem
    rw [← Attr.find?_isSome_iff, hnone] at hmem
    cases hmem

/-- Objects that agree have the same names. -/
theorem AttrsAgree.mem_names_iff {as bs : List (Attr Ty)} (h : AttrsAgree as bs) (name : String) :
    name ∈ as.map (·.name) ↔ name ∈ bs.map (·.name) := by
  rw [← Attr.find?_isSome_iff, ← Attr.find?_isSome_iff]
  cases ha : Attr.find? as name with
  | none => rw [h.none name ha]
  | some a =>
    obtain ⟨b, hb, -⟩ := h.some name a ha
    rw [hb]
    exact iff_of_true rfl rfl

theorem AttrsAgree.isEmpty_eq {as bs : List (Attr Ty)} (h : AttrsAgree as bs) :
    as.isEmpty = bs.isEmpty := by
  have hnames := List.eq_nil_iff_forall_not_mem.trans
    ((forall_congr' fun name => not_congr (h.mem_names_iff name)).trans
      List.eq_nil_iff_forall_not_mem.symm)
  rwa [List.map_eq_nil_iff, List.map_eq_nil_iff, ← List.isEmpty_iff, ← List.isEmpty_iff,
    ← Bool.eq_iff_iff] at hnames

/-- Objects of distinct names that agree are equal. -/
theorem AttrsAgree.same_object {as bs : List (Attr Ty)} (h : AttrsAgree as bs)
    (has : (as.map (·.name)).Nodup) (hbs : (bs.map (·.name)).Nodup) :
    (object as).same (object bs) := by
  have hperm := (List.perm_ext_iff_of_nodup has hbs).mpr h.mem_names_iff
  rw [same, Bool.and_eq_true, beq_iff_eq, sameAttrs_iff]
  refine ⟨by simpa using hperm.length_eq, fun a ha => ?_⟩
  exact h.some a.name a (Attr.find?_eq_some_of_mem has ha)

/-! ### Columns -/

theorem alike_placeColumn {rows rows' : List (List Ty)} (i : Nat)
    (h : Alike (List.Forall₂ fun t u => t.same u) rows rows') :
    SameTypes (placeColumn i rows) (placeColumn i rows') := by
  have hplace {row row' : List Ty} (h : List.Forall₂ (fun t u => t.same u) row row') {t u : Ty}
      (ht : row[i]? = some t) (hu : row'[i]? = some u) : t.same u := by
    obtain ⟨hi, rfl⟩ := List.getElem?_eq_some_iff.mp ht
    obtain ⟨hi', rfl⟩ := List.getElem?_eq_some_iff.mp hu
    exact (List.forall₂_iff_get.mp h).2 i hi hi'
  constructor
  · intro t ht
    obtain ⟨row, hrow, ht⟩ := List.mem_filterMap.mp ht
    obtain ⟨row', hrow', hsame⟩ := h.left row hrow
    obtain ⟨hi, -⟩ := List.getElem?_eq_some_iff.mp ht
    have hu := List.getElem?_eq_getElem (hsame.length_eq ▸ hi)
    exact ⟨_, List.mem_filterMap.mpr ⟨row', hrow', hu⟩, hplace hsame ht hu⟩
  · intro u hu
    obtain ⟨row', hrow', hu⟩ := List.mem_filterMap.mp hu
    obtain ⟨row, hrow, hsame⟩ := h.right row' hrow'
    obtain ⟨hi, -⟩ := List.getElem?_eq_some_iff.mp hu
    have ht := List.getElem?_eq_getElem (hsame.length_eq ▸ hi)
    exact ⟨_, List.mem_filterMap.mpr ⟨row, hrow, ht⟩, hplace hsame ht hu⟩

variable {objects objects' : List (List (Attr Ty))} {name : String} {col : List Ty}

theorem exists_column? (h : ∀ as ∈ objects, ∃ a, Attr.find? as name = some a) :
    ∃ col, column? name objects = some col := by
  induction objects with
  | nil => exact ⟨[], rfl⟩
  | cons as rest ih =>
    rw [List.forall_mem_cons] at h
    obtain ⟨⟨a, ha⟩, hrest⟩ := h
    obtain ⟨col, hcol⟩ := ih hrest
    exact ⟨a.ty :: col, by simp [column?, ha, hcol]⟩

theorem exists_find?_of_mem_column? (h : column? name objects = some col) {t : Ty} (ht : t ∈ col) :
    ∃ as ∈ objects, ∃ a, Attr.find? as name = some a ∧ a.ty = t := by
  induction objects generalizing col with
  | nil =>
    obtain rfl := Option.some.inj h
    cases ht
  | cons as rest ih =>
    simp only [column?, Option.bind_eq_bind, Option.bind_eq_some_iff, Option.some.injEq] at h
    obtain ⟨a, ha, col', hcol, rfl⟩ := h
    rcases List.mem_cons.mp ht with rfl | ht
    · exact ⟨as, by simp, a, ha, rfl⟩
    · obtain ⟨bs, hbs, hb⟩ := ih hcol ht
      exact ⟨bs, by simp [hbs], hb⟩

/-- The types of an attribute that all objects have are the same types in objects that agree. -/
theorem Alike.exists_column? (h : Alike AttrsAgree objects objects')
    (hcol : column? name objects = some col) :
    ∃ col', column? name objects' = some col' ∧ SameTypes col col' := by
  have hright : ∀ bs ∈ objects', ∃ b, Attr.find? bs name = some b ∧ ∃ t ∈ col, t.same b.ty := by
    intro bs hbs
    obtain ⟨as, has, hagree⟩ := h.right bs hbs
    obtain ⟨a, ha, hmem⟩ := exists_find?_of_column? hcol has
    obtain ⟨b, hb, hsame, -⟩ := hagree.some name a ha
    exact ⟨b, hb, a.ty, hmem, hsame⟩
  obtain ⟨col', hcol'⟩ := Ty.exists_column? fun bs hbs => (hright bs hbs).imp fun _ h => h.1
  refine ⟨col', hcol', fun t ht => ?_, fun u hu => ?_⟩
  · obtain ⟨as, has, a, ha, rfl⟩ := exists_find?_of_mem_column? hcol ht
    obtain ⟨bs, hbs, hagree⟩ := h.left as has
    obtain ⟨b, hb, hsame, -⟩ := hagree.some name a ha
    obtain ⟨b', hb', hmem⟩ := exists_find?_of_column? hcol' hbs
    obtain rfl := Option.some.inj (hb.symm.trans hb')
    exact ⟨b.ty, hmem, hsame⟩
  · obtain ⟨bs, hbs, b, hb, rfl⟩ := exists_find?_of_mem_column? hcol' hu
    obtain ⟨b', hb', t, ht, hsame⟩ := hright bs hbs
    obtain rfl := Option.some.inj (hb.symm.trans hb')
    exact ⟨t, ht, hsame⟩

theorem Alike.optionalSomewhere_eq (h : Alike AttrsAgree objects objects') (name : String) :
    optionalSomewhere name objects = optionalSomewhere name objects' := by
  have hagree {as bs : List (Attr Ty)} (h : AttrsAgree as bs) :
      ((Attr.find? as name).map (·.isOptional)).getD false =
        ((Attr.find? bs name).map (·.isOptional)).getD false := by
    cases ha : Attr.find? as name with
    | none => rw [h.none name ha]
    | some a =>
      obtain ⟨b, hb, -, hoptional⟩ := h.some name a ha
      simp [hb, hoptional]
  rw [optionalSomewhere, optionalSomewhere, ← Bool.not_inj_iff, List.not_any_eq_all_not,
    List.not_any_eq_all_not, Bool.eq_iff_iff, List.all_eq_true, List.all_eq_true]
  exact h.forall_iff fun as bs h => by rw [hagree h]

/-! ### What several types share -/

theorem SameTypes.disparate (h : SameTypes ts us) (ht : ∀ t ∈ ts, t.WellFormed)
    (hu : ∀ u ∈ us, u.WellFormed) (hts : Disparate ts) : Disparate us where
  collections c := h.allParts?_eq_none ht hu (partsAgree_elementOf? c) (hts.collections c)
  tuples n := h.allParts?_eq_none ht hu (partsAgree_places? n) (hts.tuples n)
  objects := h.allParts?_eq_none ht hu partsAgree_attributes? hts.objects

/-! ### The same types -/

/-- Which object the shared attributes are taken from does not matter. -/
theorem find?_sharedAttrs {attrs : List (Attr Ty)} (hattrs : attrs ∈ objects) (name : String) :
    Attr.find? (sharedAttrs objects attrs) name = (column? name objects).map fun col =>
      ⟨name, unify col, optionalSomewhere name objects⟩ := by
  have hshared (a : Attr Ty) :
      (((column? a.name objects).map fun col =>
        (⟨a.name, unify col, optionalSomewhere a.name objects⟩ : Attr Ty)).any (·.name == name)) =
          ((column? name objects).isSome && a.name == name) := by
    by_cases hname : a.name = name
    · subst hname
      cases column? a.name objects <;> simp
    · cases column? a.name objects <;> simp [hname]
  simp only [Attr.find?, sharedAttrs, List.find?_filterMap, hshared]
  cases hcol : column? name objects with
  | none => simpa using fun a ha => absurd (List.find?_some ha) (by simp)
  | some col =>
    obtain ⟨a, ha, -⟩ := exists_find?_of_column? hcol hattrs
    rw [Attr.find?] at ha
    simp [ha, Attr.name_of_find? ha, hcol]

theorem nodup_sharedAttrs {attrs : List (Attr Ty)} (h : (attrs.map (·.name)).Nodup) :
    ((sharedAttrs objects attrs).map (·.name)).Nodup :=
  h.sublist (names_sharedAttrs_sublist objects attrs)

/-- The attributes that objects share are those that the same objects share. -/
theorem attrsAgree_sharedAttrs {attrs attrs' : List (Attr Ty)}
    (h : Alike AttrsAgree objects objects') (h' : Alike AttrsAgree objects' objects)
    (hattrs : attrs ∈ objects) (hattrs' : attrs' ∈ objects')
    (hsame : ∀ name col col', column? name objects = some col → column? name objects' = some col' →
      SameTypes col col' → (unify col).same (unify col')) :
    AttrsAgree (sharedAttrs objects attrs) (sharedAttrs objects' attrs') := by
  constructor
  · intro name a ha
    rw [find?_sharedAttrs hattrs] at ha
    obtain ⟨col, hcol, rfl⟩ := Option.map_eq_some_iff.mp ha
    obtain ⟨col', hcol', hcols⟩ := h.exists_column? hcol
    rw [find?_sharedAttrs hattrs', hcol']
    exact ⟨_, rfl, hsame name col col' hcol hcol' hcols, h.optionalSomewhere_eq name⟩
  · intro name hnone
    rw [find?_sharedAttrs hattrs, Option.map_eq_none_iff] at hnone
    rw [find?_sharedAttrs hattrs', Option.map_eq_none_iff]
    cases hcol' : column? name objects' with
    | none => rfl
    | some col' =>
      obtain ⟨col, hcol, -⟩ := h'.exists_column? hcol'
      simp [hnone] at hcol

/-- Objects that agree share the same attributes or have nothing in common. -/
theorem same_sharedObject {shared shared' : List (Attr Ty)}
    (h : Alike AttrsAgree objects objects') (hshared : AttrsAgree shared shared')
    (hnames : (shared.map (·.name)).Nodup) (hnames' : (shared'.map (·.name)).Nodup) :
    (sharedObject objects shared).same (sharedObject objects' shared') := by
  have hempty : (objects.all fun as => !as.isEmpty) = objects'.all fun as => !as.isEmpty := by
    rw [Bool.eq_iff_iff, List.all_eq_true, List.all_eq_true]
    exact h.forall_iff fun as bs hagree => by rw [hagree.isEmpty_eq]
  rw [sharedObject, sharedObject, hshared.isEmpty_eq, hempty]
  split
  · rfl
  · exact hshared.same_object hnames hnames'

/-- Where the types of one list differ, those of the other do. -/
theorem SameTypes.exists_cons {t : Ty} {rest : List Ty} (h : SameTypes ts us)
    (ht : ∀ t ∈ ts, t.WellFormed) (hu : ∀ u ∈ us, u.WellFormed) (hd : Ty.distinct ts = t :: rest)
    (hrest : rest ≠ []) : ∃ u rest', Ty.distinct us = u :: rest' ∧ rest' ≠ [] :=
  (h.differ ht hu (differ_of_cons hd hrest)).exists_cons hu

/-- Where the types of one list all equal one, those of the other do. -/
theorem SameTypes.distinct_eq_singleton {t : Ty} (h : SameTypes ts us)
    (ht : ∀ t ∈ ts, t.WellFormed) (hu : ∀ u ∈ us, u.WellFormed) (hd : Ty.distinct ts = [t]) :
    ∃ u, Ty.distinct us = [u] ∧ t.same u := by
  have hdistinct := h.distinct ht hu
  obtain ⟨u, humem, htu⟩ := hdistinct.left t (by simp [hd])
  match hd' : Ty.distinct us with
  | [] => simp [hd'] at humem
  | [v] =>
    obtain rfl : u = v := by simpa [hd'] using humem
    exact ⟨u, rfl, htu⟩
  | v :: w :: rest =>
    obtain ⟨t', rest', hts, hrest'⟩ := (h.symm ht hu).exists_cons hu ht hd' nofun
    obtain ⟨-, rfl⟩ : t = t' ∧ rest' = [] := by simpa [hd, eq_comm] using hts
    exact absurd rfl hrest'

/-- Where the types of one list differ but have parts in common, so do those of the other. -/
theorem SameTypes.exists_parts {α : Type} {R : α → α → Prop} {part? : Ty → Option α} {as : List α}
    {t : Ty} {rest : List Ty} (h : SameTypes ts us) (ht : ∀ t ∈ ts, t.WellFormed)
    (hu : ∀ u ∈ us, u.WellFormed) (hd : Ty.distinct ts = t :: rest) (hrest : rest ≠ [])
    (hpart : PartsAgree R part?) (has : allParts? part? (Ty.distinct ts) = some as) :
    ∃ u rest' bs, Ty.distinct us = u :: rest' ∧ rest' ≠ [] ∧
      allParts? part? (Ty.distinct us) = some bs ∧ Alike R as bs := by
  obtain ⟨u, rest', hd', hrest'⟩ := h.exists_cons ht hu hd hrest
  obtain ⟨bs, hbs, halike⟩ := (h.distinct ht hu).exists_allParts? (forall_distinct ht)
    (forall_distinct hu) hpart has
  exact ⟨u, rest', bs, hd', hrest', hbs, halike⟩

/-- Objects share equal types with the same objects, if what the same columns share is equal. -/
theorem SameTypes.same_unify_of_objects {attrs : List (Attr Ty)} {rest : List Ty}
    (h : SameTypes ts us) (ht : ∀ t ∈ ts, t.WellFormed) (hu : ∀ u ∈ us, u.WellFormed)
    (hd : Ty.distinct ts = object attrs :: rest) (hrest : rest ≠ [])
    (hobjects : allParts? attributes? (Ty.distinct ts) = some objects)
    (ih : ∀ name col, column? name objects = some col → ∀ {us : List Ty}, SameTypes col us →
      (∀ t ∈ col, t.WellFormed) → (∀ u ∈ us, u.WellFormed) → (unify col).same (unify us)) :
    (sharedObject objects (sharedAttrs objects attrs)).same (unify us) := by
  obtain ⟨u, rest', objects', hd', hrest', hobjects', halike⟩ :=
    h.exists_parts ht hu hd hrest partsAgree_attributes? hobjects
  obtain ⟨-, -, objects'', -, -, hobjects'', halike'⟩ :=
    (h.symm ht hu).exists_parts hu ht hd' hrest' partsAgree_attributes? hobjects'
  obtain rfl := Option.some.inj (hobjects.symm.trans hobjects'')
  -- The first type on the other side is an object too.
  obtain ⟨attrs', hattrs', hfirst⟩ := exists_part_of_mem hobjects' (hd' ▸ List.mem_cons_self)
  cases u <;> cases hfirst
  obtain ⟨_, hattrs, hfirst⟩ := exists_part_of_mem hobjects (hd ▸ List.mem_cons_self)
  cases hfirst
  rw [unify_of_objects hd' hrest' hobjects']
  refine same_sharedObject halike (attrsAgree_sharedAttrs halike halike' hattrs hattrs' ?_)
    (nodup_sharedAttrs (Attr.WellFormed.of_object (ht _ (mem_of_first hd))).names)
    (nodup_sharedAttrs (Attr.WellFormed.of_object (hu _ (mem_of_first hd'))).names)
  exact fun name col col' hcol hcol' hsame => ih name col hcol hsame
    (wellFormed_column ht hobjects hcol) (wellFormed_column hu hobjects' hcol')

/-- Lists with the same types in them share equal types. -/
theorem SameTypes.same_unify (h : SameTypes ts us) (ht : ∀ t ∈ ts, t.WellFormed)
    (hu : ∀ u ∈ us, u.WellFormed) : (unify ts).same (unify us) := by
  -- Whatever the first list shares, the second shares in the same way. What both have at one place
  -- are the same types again.
  induction ts using unify_induction generalizing us with
  | nothing hd hunify =>
    have hnil : Ty.distinct us = [] := by
      refine List.eq_nil_iff_forall_not_mem.mpr fun u humem => ?_
      obtain ⟨t, htmem, -⟩ := (h.distinct ht hu).right u humem
      simp [hd] at htmem
    rw [hunify, unify_of_nil hnil]
    rfl
  | single hd hunify =>
    obtain ⟨u, hd', hsame⟩ := h.distinct_eq_singleton ht hu hd
    rwa [hunify, unify_of_singleton hd']
  | disparate hd hrest hts hunify =>
    obtain ⟨u, rest', hd', hrest'⟩ := h.exists_cons ht hu hd hrest
    have hus := (h.distinct ht hu).disparate (forall_distinct ht) (forall_distinct hu) hts
    rw [hunify, unify_of_disparate hd' hrest' hus]
    rfl
  | @collections _ _ _ c _ hd hrest hes hunify ih =>
    obtain ⟨u, rest', es', hd', hrest', hes', halike⟩ :=
      h.exists_parts ht hu hd hrest (partsAgree_elementOf? c) hes
    have helem := ih halike (forall_parts ht hes fun _ _ => wellFormed_elementOf?)
      (forall_parts hu hes' fun _ _ => wellFormed_elementOf?)
    rw [hunify, unify_of_collections hd' hrest' hes']
    cases c <;> exact helem
  | tuples hd hrest hrows hunify ih =>
    obtain ⟨u, rest', rows', hd', hrest', hrows', halike⟩ :=
      h.exists_parts ht hu hd hrest (partsAgree_places? _) hrows
    rw [hunify, unify_of_tuples hd' hrest' hrows', same, sameEach_iff,
      List.forall₂_map_left_iff, List.forall₂_map_right_iff, List.forall₂_same]
    intro i _
    exact ih i (alike_placeColumn i halike) (wellFormed_placeColumn ht hrows i)
      (wellFormed_placeColumn hu hrows' i)
  | objects hd hrest hobjects hunify ih =>
    rw [hunify]
    exact h.same_unify_of_objects ht hu hd hrest hobjects ih

end TypedData.Ty
