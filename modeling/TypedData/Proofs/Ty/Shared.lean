import TypedData.Proofs.Ty.Parts

/-!
# What several types share, part by part

The kind of the type that several types share is the kind that all of them have, and its parts are
what the parts share that all of them have. The exception are objects that have attributes, but none
in common: they are of one kind and yet share nothing.

## Main definitions

* `Ty.Apart` — types without an attribute in common
* `Ty.Unshared` — objects that have attributes, but none in common
* `Ty.Unifies` — the ways in which types that count share a type

## Main results

* `Ty.kind_unify_iff` — the kind of what several types share
* `Ty.exists_part?_unify`, `Ty.part?_unify_eq_none` — its parts
* `Ty.mayLack_unify_iff` — which of these may be left out
-/

namespace TypedData.Ty

variable {ts us es : List Ty} {t u : Ty} {p : Part} {k : Kind} {name : String}
  {objects : List (List (Attr Ty))} {attrs : List (Attr Ty)}

/-- No attribute is common to all of the types. -/
def Apart (ts : List Ty) : Prop := ∀ name, ∃ t ∈ ts, t.part? (.attr name) = none

/-- Objects that have attributes, but none in common. -/
structure Unshared (ts : List Ty) : Prop where
  objects : ∀ t ∈ ts, ∃ a as, t = object (a :: as)
  apart : Apart ts

/-- Objects of one attribute each, under different names, have nothing in common. -/
theorem unshared_pair {a b : Attr Ty} (h : a.name ≠ b.name) :
    Unshared [object [a], object [b]] := by
  refine ⟨List.forall_mem_pair.mpr ⟨⟨a, [], rfl⟩, b, [], rfl⟩, fun name => ?_⟩
  by_cases hname : a.name = name
  · exact ⟨object [b], by simp, by simp [part?, attributes?, Attr.find?, ← hname, h.symm]⟩
  · exact ⟨object [a], by simp, by simp [part?, attributes?, Attr.find?, hname]⟩

/-! ### The ways to share a type -/

/-- The ways in which types that count share a type. -/
inductive Unifies (us : List Ty) : Ty → Prop
  | single {t : Ty} (only : us = [t]) : Unifies us t
  | collections {c : Collection} {es : List Ty} (parts : allParts? (elementOf? c) us = some es) :
      Unifies us (c.of (unify es))
  | tuples {n : Nat} {rows : List (List Ty)} (parts : allParts? (places? n) us = some rows) :
      Unifies us (tuple ((List.range n).map fun i => unify (placeColumn i rows)))
  | objects {objects : List (List (Attr Ty))} {attrs : List (Attr Ty)}
      (parts : allParts? attributes? us = some objects) (first : attrs ∈ objects) :
      Unifies us (sharedObject objects (sharedAttrs objects attrs))
  | disparate (differ : Differ us) (parts : Disparate us) : Unifies us dynamic

/-- Types share a type in one of these ways. -/
theorem unifies_unify (hts : distinct ts ≠ []) : Unifies (distinct ts) (unify ts) := by
  induction ts using unify_induction with
  | nothing hd => exact absurd hd hts
  | single hd hunify => exact hunify ▸ .single hd
  | disparate hd hrest h hunify => exact hunify ▸ .disparate (differ_distinct hd hrest) h
  | collections _ _ hes hunify => exact hunify ▸ .collections hes
  | tuples _ _ hrows hunify => exact hunify ▸ .tuples hrows
  | objects hd _ hobjects hunify =>
    obtain ⟨attrs, hattrs, hfirst⟩ := exists_part_of_mem hobjects (hd ▸ List.mem_cons_self)
    cases hfirst
    exact hunify ▸ .objects hobjects hattrs

/-! ### Columns -/

/-- The column of a place of tuples of one length. -/
theorem allParts?_place {n i : Nat} {rows : List (List Ty)} (hi : i < n)
    (h : allParts? (places? n) us = some rows) :
    allParts? (part? (.place n i)) us = some (placeColumn i rows) := by
  induction us generalizing rows with
  | nil =>
    obtain rfl := Option.some.inj h
    rfl
  | cons u us ih =>
    simp only [allParts?, Option.bind_eq_bind, Option.bind_eq_some_iff, Option.some.injEq] at h
    obtain ⟨row, hrow, rows, hrows, rfl⟩ := h
    have hlength : row.length = n := by
      cases u <;> simp only [places?, reduceCtorEq, Option.ite_none_right_eq_some,
        Option.some.injEq] at hrow
      exact hrow.2 ▸ hrow.1
    have hplace : row[i]? = some row[i] := List.getElem?_eq_getElem (hlength ▸ hi)
    simp [allParts?, part?, hrow, ih hrows, placeColumn, hplace]

/-- The column of an attribute of objects. -/
theorem allParts?_attr (h : allParts? attributes? us = some objects) :
    allParts? (part? (.attr name)) us = column? name objects := by
  induction us generalizing objects with
  | nil =>
    obtain rfl := Option.some.inj h
    rfl
  | cons u us ih =>
    simp only [allParts?, Option.bind_eq_bind, Option.bind_eq_some_iff, Option.some.injEq] at h
    obtain ⟨as, has, objects, hobjects, rfl⟩ := h
    cases ha : Attr.find? as name <;>
      simp [allParts?, column?, part?, has, ha, ih hobjects]

/-- An attribute may be left out in one of several objects if it may in one of the types. -/
theorem optionalSomewhere_eq_any (h : allParts? attributes? us = some objects) :
    optionalSomewhere name objects = us.any (mayLack (.attr name)) := by
  induction us generalizing objects with
  | nil =>
    obtain rfl := Option.some.inj h
    rfl
  | cons u us ih =>
    simp only [allParts?, Option.bind_eq_bind, Option.bind_eq_some_iff, Option.some.injEq] at h
    obtain ⟨as, has, objects, hobjects, rfl⟩ := h
    rw [List.any_cons, ← ih hobjects]
    simp [optionalSomewhere, mayLack, has]

/-- Objects share no attribute exactly if each is missing in one of them. -/
theorem sharedAttrs_eq_nil_iff (h : allParts? attributes? us = some objects)
    (hattrs : attrs ∈ objects) :
    sharedAttrs objects attrs = [] ↔ Apart us := by
  simp only [Apart, ← allParts?_eq_none_iff, allParts?_attr h]
  constructor
  · intro hnil name
    have hfind := find?_sharedAttrs hattrs name
    rw [hnil] at hfind
    simpa [Attr.find?] using hfind.symm
  · intro hnone
    refine List.filterMap_eq_nil_iff.mpr fun a _ => ?_
    rw [hnone a.name]
    rfl

/-- The attributes of what objects share, also where that is no object. -/
theorem find?_attributes_sharedObject (hattrs : attrs ∈ objects) (name : String) :
    ((sharedObject objects (sharedAttrs objects attrs)).attributes?.bind (Attr.find? · name)) =
      (column? name objects).map fun col => ⟨name, unify col, optionalSomewhere name objects⟩ := by
  have hfind := find?_sharedAttrs hattrs name
  rw [← hfind, sharedObject]
  split
  · rename_i hempty
    rw [Bool.and_eq_true, List.isEmpty_iff] at hempty
    rw [hempty.1]
    rfl
  · rfl

/-- Objects have nothing in common exactly if they have attributes, but none of them all. -/
theorem unshared_iff (h : allParts? attributes? us = some objects) (hattrs : attrs ∈ objects) :
    Unshared us ↔
      ((sharedAttrs objects attrs).isEmpty && objects.all fun as => !as.isEmpty) = true := by
  have hobjects : (∀ t ∈ us, ∃ a as, t = object (a :: as)) ↔ ∀ as ∈ objects, as ≠ [] := by
    constructor
    · rintro hus as has rfl
      obtain ⟨t, ht, htas⟩ := exists_of_mem_allParts? h [] has
      obtain ⟨a, as, rfl⟩ := hus t ht
      cases htas
    · intro hne t ht
      obtain ⟨as, has, htas⟩ := exists_part_of_mem h ht
      obtain ⟨a, as, rfl⟩ := List.exists_cons_of_ne_nil (hne as has)
      cases t <;> cases htas
      exact ⟨a, as, rfl⟩
  simp only [Bool.and_eq_true, List.isEmpty_iff, sharedAttrs_eq_nil_iff h hattrs,
    List.all_eq_true, Bool.not_eq_true', List.isEmpty_eq_false_iff, ← hobjects]
  exact ⟨fun h => ⟨h.apart, h.objects⟩, fun h => ⟨h.2, h.1⟩⟩

/-! ### Parts -/

/-- Types of different kinds have no part in common. -/
theorem Disparate.allParts?_part? (h : Disparate us) (p : Part) :
    allParts? (part? p) us = none := by
  cases p with
  | element c => exact h.collections c
  | place n i =>
    obtain ⟨u, hu, hplaces⟩ := allParts?_eq_none_iff.mp (h.tuples n)
    exact allParts?_eq_none_iff.mpr ⟨u, hu, by simp [part?, hplaces]⟩
  | attr name =>
    obtain ⟨u, hu, hattrs⟩ := allParts?_eq_none_iff.mp h.objects
    exact allParts?_eq_none_iff.mpr ⟨u, hu, by simp [part?, hattrs]⟩

/-- A tuple has the places below its length. -/
theorem part?_place_eq_none {row : List Ty} {n i : Nat} (h : ¬ (row.length = n ∧ i < n)) :
    (tuple row).part? (.place n i) = none := by
  simp only [part?, places?, Option.bind_eq_none_iff, Option.ite_none_right_eq_some,
    Option.some.injEq, List.getElem?_eq_none_iff]
  rintro _ ⟨hlength, rfl⟩
  exact Nat.le_of_not_lt fun hi => h ⟨hlength, hlength ▸ hi⟩

/-- A single type has what it shares. -/
theorem unify_singleton (t : Ty) : unify [t] = t := unify_of_singleton rfl

namespace Unifies

/-- What types share has the parts that all of them have. -/
theorem part?_eq (h : Unifies us u) (hus : us ≠ []) (p : Part) :
    u.part? p = (allParts? (part? p) us).map unify := by
  obtain ⟨t, ht⟩ := List.exists_mem_of_ne_nil us hus
  -- A part that a single one of them lacks is not shared.
  have hnone (h : t.part? p = none) : (allParts? (part? p) us).map unify = none := by
    rw [allParts?_eq_none_iff.mpr ⟨t, ht, h⟩, Option.map_none]
  cases h with
  | single only =>
    subst only
    cases hpart : u.part? p <;> simp [allParts?, hpart, unify_singleton]
  | @collections c es parts =>
    obtain ⟨e, -, he⟩ := exists_part_of_mem parts ht
    obtain rfl := elementOf?_eq_some_iff.mp he
    by_cases hp : p = .element c
    · subst hp
      rw [part?_of]
      exact (congrArg (Option.map unify) parts).symm
    · rw [hnone (part?_of_eq_none hp), part?_of_eq_none hp]
  | @tuples n rows parts =>
    obtain ⟨row, -, hrow⟩ := exists_part_of_mem parts ht
    cases t <;> simp only [places?, reduceCtorEq, Option.ite_none_right_eq_some] at hrow
    rename_i ts
    obtain ⟨rfl, -⟩ := hrow
    cases p with
    | place m i =>
      by_cases hplace : ts.length = m ∧ i < m
      · obtain ⟨rfl, hi⟩ := hplace
        rw [allParts?_place hi parts]
        simp [part?, places?, hi]
      · have hshared : ¬ (((List.range ts.length).map fun i =>
            unify (placeColumn i rows)).length = m ∧ i < m) := by simpa using hplace
        rw [hnone (part?_place_eq_none hplace), part?_place_eq_none hshared]
    | _ => exact (hnone rfl).symm
  | @objects objects attrs parts first =>
    obtain ⟨as, -, has⟩ := exists_part_of_mem parts ht
    cases t <;> cases has
    cases p with
    | attr name =>
      rw [allParts?_attr parts, part?, find?_attributes_sharedObject first name, Option.map_map]
      rfl
    | _ =>
      rw [sharedObject]
      split <;> exact (hnone rfl).symm
  | disparate _ parts =>
    rw [parts.allParts?_part? p]
    cases p <;> rfl

/-- Types that differ and are of one kind have parts. -/
theorem not_forall_kind (hdiffer : Differ us) (h : Disparate us) (hk : k ≠ .dynamic) :
    ¬ ∀ t ∈ us, t.kind = k := by
  intro hkind
  -- A kind that has parts of some sort would give all of them such parts.
  have hparts {α : Type} {f : Ty → Option α} (hnone : allParts? f us = none) :
      ¬ ∀ t : Ty, t.kind = k → (f t).isSome := by
    obtain ⟨t, ht, hft⟩ := allParts?_eq_none_iff.mp hnone
    intro hf
    simpa [hft] using hf t (hkind t ht)
  obtain ⟨t, ht, u, hu, hne⟩ := hdiffer
  have htk := hkind t ht
  have huk := hkind u hu
  cases k with
  | dynamic => exact hk rfl
  | collection c => exact hparts (h.collections c) fun _ => kind_eq_collection_iff.mp
  | tuple n => exact hparts (h.tuples n) fun _ => kind_eq_tuple_iff.mp
  | object => exact hparts h.objects fun _ => kind_eq_object_iff.mp
  | bool | number | string =>
    cases t <;> cases htk
    cases u <;> cases huk
    exact hne rfl
  | capsule id =>
    cases t <;> cases htk
    cases u <;> simp only [kind, reduceCtorEq, Kind.capsule.injEq] at huk
    simp [same, CapsuleType.same, huk] at hne

/-- The kind of what types share is the kind of all of them, unless they have nothing in common. -/
theorem kind_eq_iff (h : Unifies us u) (hus : us ≠ []) (hk : k ≠ .dynamic) :
    u.kind = k ↔ (∀ t ∈ us, t.kind = k) ∧ (k = .object → ¬ Unshared us) := by
  obtain ⟨t, ht⟩ := List.exists_mem_of_ne_nil us hus
  -- Types that all are of one kind, other than objects, share a type of that kind.
  have hsame {k' : Kind} (hall : ∀ t ∈ us, t.kind = k') (hobject : k' ≠ .object) :
      k' = k ↔ (∀ t ∈ us, t.kind = k) ∧ (k = .object → ¬ Unshared us) := by
    constructor
    · rintro rfl
      exact ⟨hall, fun h => absurd h hobject⟩
    · rintro ⟨hkind, -⟩
      exact (hall t ht).symm.trans (hkind t ht)
  have hall {α : Type} {f : Ty → Option α} {as : List α} {k' : Kind}
      (parts : allParts? f us = some as) (hf : ∀ {t : Ty}, t.kind = k' ↔ (f t).isSome) :
      ∀ t ∈ us, t.kind = k' := fun t ht =>
    hf.mpr (isSome_allParts?_iff.mp (parts ▸ rfl) t ht)
  cases h with
  | single only =>
    subst only
    obtain rfl := List.mem_singleton.mp ht
    rw [List.forall_mem_singleton]
    refine ⟨fun hkind => ⟨hkind, fun _ hnone => ?_⟩, fun h => h.1⟩
    -- An object has its first attribute in common with itself.
    obtain ⟨a, as, rfl⟩ := hnone.objects t ht
    obtain ⟨t', ht', hpart⟩ := hnone.apart a.name
    obtain rfl := List.mem_singleton.mp ht'
    simp [part?, attributes?, Attr.find?] at hpart
  | @collections c es parts =>
    have hkind := hsame (hall parts kind_eq_collection_iff) (by simp)
    rwa [kind_of]
  | @tuples n rows parts =>
    have hkind := hsame (hall parts kind_eq_tuple_iff) (by simp)
    rwa [kind, List.length_map, List.length_range]
  | @objects objects attrs parts first =>
    have hkind := hall parts kind_eq_object_iff
    rw [unshared_iff parts first, sharedObject]
    by_cases hempty : ((sharedAttrs objects attrs).isEmpty && objects.all fun as => !as.isEmpty) =
        true
    · rw [if_pos hempty]
      refine iff_of_false (Ne.symm hk) ?_
      rintro ⟨hk', hobject⟩
      exact hobject ((hk' t ht).symm.trans (hkind t ht)) hempty
    · rw [if_neg hempty]
      constructor
      · rintro rfl
        exact ⟨hkind, fun _ => hempty⟩
      · rintro ⟨hk', -⟩
        exact (hkind t ht).symm.trans (hk' t ht)
  | disparate differ parts =>
    exact iff_of_false (Ne.symm hk) fun h => not_forall_kind differ parts hk h.1

/-- What types share may lack the attributes that all of them have and one of them may lack. -/
theorem mayLack_eq (h : Unifies us u) (hus : us ≠ []) (p : Part) :
    u.mayLack p = ((allParts? (part? p) us).isSome && us.any (mayLack p)) := by
  obtain ⟨t, ht⟩ := List.exists_mem_of_ne_nil us hus
  cases p with
  | attr name =>
    -- Only objects have attributes; a type without them decides both sides.
    have hnone (h : t.part? (.attr name) = none) :
        false = ((allParts? (part? (.attr name)) us).isSome && us.any (mayLack (.attr name))) := by
      rw [allParts?_eq_none_iff.mpr ⟨t, ht, h⟩]
      rfl
    cases h with
    | single only =>
      subst only
      cases hlack : u.mayLack (.attr name) with
      | false => simp [hlack]
      | true =>
        obtain ⟨x, hx⟩ := Option.isSome_iff_exists.mp (isSome_part?_of_mayLack hlack)
        simp [hlack, allParts?, hx]
    | @collections c es parts =>
      obtain ⟨e, -, he⟩ := exists_part_of_mem parts ht
      obtain rfl := elementOf?_eq_some_iff.mp he
      have hlack : (c.of (unify es)).mayLack (.attr name) = false := by
        cases c <;> rfl
      rw [hlack, hnone (part?_of_eq_none fun h => by cases h)]
    | tuples parts =>
      obtain ⟨row, -, hrow⟩ := exists_part_of_mem parts ht
      cases t <;> simp only [places?, reduceCtorEq] at hrow
      exact hnone rfl
    | @objects objects attrs parts first =>
      rw [allParts?_attr parts, ← optionalSomewhere_eq_any parts, mayLack,
        find?_attributes_sharedObject first name]
      cases column? name objects <;> rfl
    | disparate _ parts =>
      rw [parts.allParts?_part? (.attr name)]
      rfl
  | _ =>
    have hnone := List.any_eq_false (l := us).mpr fun _ _ => Bool.false_ne_true
    exact (Bool.and_eq_false_iff.mpr (.inr hnone)).symm

end Unifies

/-! ### All types, counted or not -/

section All

theorem distinct_ne_nil (hts : ts ≠ []) : distinct ts ≠ [] := by
  cases ts with
  | nil => exact absurd rfl hts
  | cons t ts => exact List.cons_ne_nil _ _

/-- The types that count are the same types. -/
theorem sameTypes_distinct (h : ∀ t ∈ ts, t.WellFormed) : SameTypes ts (distinct ts) where
  left _ ht := exists_mem_distinct h ht
  right u hu := by
    have hmem := mem_of_mem_distinct hu
    exact ⟨u, hmem, (h u hmem).same_refl⟩

/-- Objects have nothing in common exactly if those that count have not. -/
theorem unshared_distinct_iff (h : ∀ t ∈ ts, t.WellFormed) :
    Unshared (distinct ts) ↔ Unshared ts := by
  have hsame := sameTypes_distinct h
  constructor
  · rintro ⟨hobjects, hapart⟩
    refine ⟨fun t ht => ?_, fun name => ?_⟩
    · obtain ⟨u, hu, htu⟩ := hsame.left t ht
      obtain ⟨b, bs, rfl⟩ := hobjects u hu
      cases t <;> simp only [same, Bool.false_eq_true, Bool.and_eq_true, beq_iff_eq] at htu
      obtain ⟨a, as, has⟩ := List.exists_cons_of_length_eq_add_one htu.1
      exact ⟨a, as, has ▸ rfl⟩
    · obtain ⟨u, hu, hnone⟩ := hapart name
      exact ⟨u, mem_of_mem_distinct hu, hnone⟩
  · rintro ⟨hobjects, hapart⟩
    refine ⟨forall_distinct hobjects, fun name => ?_⟩
    exact allParts?_eq_none_iff.mp (hsame.allParts?_eq_none h (forall_distinct h)
      (partsAgree_part? (.attr name)) (allParts?_eq_none_iff.mpr (hapart name)))

/-- What several types share has the parts that all of them have, and those are shared too. -/
theorem exists_part?_unify (hts : ts ≠ []) (h : ∀ t ∈ ts, t.WellFormed)
    (hes : allParts? (part? p) ts = some es) :
    ∃ x, (unify ts).part? p = some x ∧ x.same (unify es) := by
  obtain ⟨es', hes', hsame⟩ := (sameTypes_distinct h).exists_allParts? h (forall_distinct h)
    (partsAgree_part? p) hes
  have hne := distinct_ne_nil hts
  refine ⟨unify es', by rw [(unifies_unify hne).part?_eq hne, hes', Option.map_some], ?_⟩
  have hwell := wellFormed_allParts? h hes
  have hwell' := wellFormed_allParts? (forall_distinct h) hes'
  exact (SameTypes.symm hsame hwell hwell').same_unify hwell' hwell

/-- What several types share has no part that one of them lacks. -/
theorem part?_unify_eq_none (hts : ts ≠ []) (h : ∀ t ∈ ts, t.WellFormed)
    (hnone : allParts? (part? p) ts = none) : (unify ts).part? p = none := by
  have hne := distinct_ne_nil hts
  rw [(unifies_unify hne).part?_eq hne, (sameTypes_distinct h).allParts?_eq_none h
    (forall_distinct h) (partsAgree_part? p) hnone, Option.map_none]

theorem isSome_part?_unify_iff (hts : ts ≠ []) (h : ∀ t ∈ ts, t.WellFormed) :
    ((unify ts).part? p).isSome ↔ ∀ t ∈ ts, (t.part? p).isSome := by
  rw [← isSome_allParts?_iff]
  cases hes : allParts? (part? p) ts with
  | none =>
    rw [part?_unify_eq_none hts h hes]
    exact Iff.rfl
  | some es =>
    obtain ⟨x, hx, -⟩ := exists_part?_unify hts h hes
    rw [hx]
    exact iff_of_true rfl rfl

theorem part?_unify_eq_none_iff (hts : ts ≠ []) (h : ∀ t ∈ ts, t.WellFormed) :
    (unify ts).part? p = none ↔ ∃ t ∈ ts, t.part? p = none := by
  rw [← Option.not_isSome_iff_eq_none, isSome_part?_unify_iff hts h]
  simp

/-- What several types share is of the kind that all of them are of, unless they are objects with
nothing in common. -/
theorem kind_unify_iff (hts : ts ≠ []) (h : ∀ t ∈ ts, t.WellFormed) (hk : k ≠ .dynamic) :
    (unify ts).kind = k ↔ (∀ t ∈ ts, t.kind = k) ∧ (k = .object → ¬ Unshared ts) := by
  have hne := distinct_ne_nil hts
  rw [(unifies_unify hne).kind_eq_iff hne hk, unshared_distinct_iff h,
    (sameTypes_distinct h).forall_iff fun t u htu => by rw [kind_eq_of_same htu]]

/-- What several types share may lack what all of them have and one of them may lack. -/
theorem mayLack_unify_iff (hts : ts ≠ []) (h : ∀ t ∈ ts, t.WellFormed) :
    (unify ts).mayLack p ↔ (∀ t ∈ ts, (t.part? p).isSome) ∧ ∃ t ∈ ts, t.mayLack p := by
  have hne := distinct_ne_nil hts
  have hsome : (allParts? (part? p) (distinct ts)).isSome ↔ ∀ t ∈ ts, (t.part? p).isSome := by
    rw [← isSome_part?_unify_iff hts h, (unifies_unify hne).part?_eq hne, Option.isSome_map]
  rw [(unifies_unify hne).mayLack_eq hne, Bool.and_eq_true, hsome, List.any_eq_true]
  refine and_congr_right fun _ => ⟨?_, ?_⟩
  · rintro ⟨t, ht, hlack⟩
    exact ⟨t, mem_of_mem_distinct ht, hlack⟩
  · rintro ⟨t, ht, hlack⟩
    obtain ⟨u, hu, htu⟩ := exists_mem_distinct h ht
    exact ⟨u, hu, mayLack_of_same (h t ht) (h u (mem_of_mem_distinct hu)) htu hlack⟩

end All

end TypedData.Ty
