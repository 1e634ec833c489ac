import TypedData.Proofs.Ty.Objects
import TypedData.Proofs.Ty.Usable
import TypedData.Ty.Unify

/-!
# Unification gives an upper bound

What several well-formed types share is well-formed, and each of them is assignable to it. It asks
for attributes that all of them have, and lets none be left out that none of them lets be left out.

## Main definitions

* `Ty.Disparate` — types that do not all have parts of one kind
* `Ty.Strict` — types none of whose attributes may be left out

## Main results

* `Ty.unify_induction` — induction along what several types share
* `Ty.wellFormed_unify` — well-formed types share a well-formed one
* `Ty.usableAs_unify` — each of several types is assignable to the one they share
* `Ty.strict_unify` — strict types share a strict one
-/

namespace TypedData.Ty

/-- What parts of types have from the types. -/
theorem forall_parts {α : Type} {part? : Ty → Option α} {P : Ty → Prop} {Q : α → Prop}
    {types : List Ty} {as : List α} (h : ∀ t ∈ types, P t)
    (has : allParts? part? (distinct types) = some as)
    (hpart : ∀ t a, P t → part? t = some a → Q a) : ∀ a ∈ as, Q a := by
  intro a ha
  obtain ⟨t, ht, hta⟩ := exists_of_mem_allParts? has a ha
  exact hpart t a (h t (mem_of_mem_distinct ht)) hta

/-! ### The ways of unification -/

/-- Types that do not all have parts of one kind. -/
structure Disparate (ts : List Ty) : Prop where
  collections : ∀ c, allParts? (elementOf? c) ts = none
  tuples : ∀ n, allParts? (places? n) ts = none
  objects : allParts? attributes? ts = none

theorem exists_part_of_mem {α : Type} {part? : Ty → Option α} {types : List Ty} {as : List α}
    {t : Ty} (h : allParts? part? types = some as) (ht : t ∈ types) :
    ∃ a ∈ as, part? t = some a := by
  induction types generalizing as with
  | nil => cases ht
  | cons u us ih =>
    simp only [allParts?, Option.bind_eq_bind, Option.bind_eq_some_iff, Option.some.injEq] at h
    obtain ⟨a, ha, as', has, rfl⟩ := h
    rcases List.mem_cons.mp ht with rfl | ht
    · exact ⟨a, by simp, ha⟩
    · obtain ⟨b, hb, htb⟩ := ih has ht
      exact ⟨b, by simp [hb], htb⟩

section Ways

variable {ts : List Ty} {objects : List (List (Attr Ty))}

theorem unify_of_nil (h : distinct ts = []) : unify ts = dynamic := by
  fun_cases unify ts <;> simp_all

theorem unify_of_singleton {t : Ty} (h : distinct ts = [t]) : unify ts = t := by
  fun_cases unify ts <;> simp_all

variable {t : Ty} {rest : List Ty}

theorem unify_of_disparate (hd : distinct ts = t :: rest) (hrest : rest ≠ [])
    (h : Disparate (distinct ts)) : unify ts = dynamic := by
  obtain ⟨hcollections, htuples, hobjects⟩ := h
  fun_cases unify ts <;> simp_all

theorem unify_of_collections {c : Collection} {es : List Ty} (hd : distinct ts = t :: rest)
    (hrest : rest ≠ []) (h : allParts? (elementOf? c) (distinct ts) = some es) :
    unify ts = c.of (unify es) := by
  obtain ⟨e, -, he⟩ := exists_part_of_mem h (hd ▸ List.mem_cons_self)
  obtain rfl := elementOf?_eq_some_iff.mp he
  cases c <;> fun_cases unify ts <;> simp_all [Collection.of]

theorem unify_of_tuples {n : Nat} {rows : List (List Ty)} (hd : distinct ts = t :: rest)
    (hrest : rest ≠ []) (h : allParts? (places? n) (distinct ts) = some rows) :
    unify ts = tuple ((List.range n).map fun i => unify (placeColumn i rows)) := by
  obtain ⟨row, -, hrow⟩ := exists_part_of_mem h (hd ▸ List.mem_cons_self)
  cases t <;> simp only [places?, reduceCtorEq, Option.ite_none_right_eq_some,
    Option.some.injEq] at hrow
  obtain ⟨rfl, rfl⟩ := hrow
  fun_cases unify ts <;> simp_all

/-- The attributes of one of several objects that all of them have. -/
def sharedAttrs (objects : List (List (Attr Ty))) (attrs : List (Attr Ty)) : List (Attr Ty) :=
  attrs.filterMap fun a => (column? a.name objects).map fun col =>
    ⟨a.name, unify col, optionalSomewhere a.name objects⟩

theorem unify_of_objects {attrs : List (Attr Ty)} (hd : distinct ts = object attrs :: rest)
    (hrest : rest ≠ []) (h : allParts? attributes? (distinct ts) = some objects) :
    unify ts = sharedObject objects (sharedAttrs objects attrs) := by
  fun_cases unify ts <;> simp_all
  refine congrArg _ (List.filterMap_congr fun a _ => ?_)
  split <;> simp_all

theorem mem_sharedAttrs {attrs : List (Attr Ty)} {b : Attr Ty}
    (h : b ∈ sharedAttrs objects attrs) :
    ∃ a ∈ attrs, ∃ col, column? a.name objects = some col ∧
      b = ⟨a.name, unify col, optionalSomewhere a.name objects⟩ := by
  obtain ⟨a, ha, hab⟩ := List.mem_filterMap.mp h
  obtain ⟨col, hcol, rfl⟩ := Option.map_eq_some_iff.mp hab
  exact ⟨a, ha, col, hcol, rfl⟩

/-- What holds of several types whenever it holds of what they have at each place inside holds of
all lists of types. There is one case for each way to share a type. -/
@[elab_as_elim]
theorem unify_induction {P : List Ty → Prop}
    (nothing : ∀ {ts}, distinct ts = [] → unify ts = dynamic → P ts)
    (single : ∀ {ts t}, distinct ts = [t] → unify ts = t → P ts)
    (disparate : ∀ {ts t rest}, distinct ts = t :: rest → rest ≠ [] → Disparate (distinct ts) →
      unify ts = dynamic → P ts)
    (collections : ∀ {ts t rest c es}, distinct ts = t :: rest → rest ≠ [] →
      allParts? (elementOf? c) (distinct ts) = some es → unify ts = c.of (unify es) → P es → P ts)
    (tuples : ∀ {ts t rest n rows}, distinct ts = t :: rest → rest ≠ [] →
      allParts? (places? n) (distinct ts) = some rows →
      unify ts = tuple ((List.range n).map fun i => unify (placeColumn i rows)) →
      (∀ i, P (placeColumn i rows)) → P ts)
    (objects : ∀ {ts attrs rest objects}, distinct ts = object attrs :: rest → rest ≠ [] →
      allParts? attributes? (distinct ts) = some objects →
      unify ts = sharedObject objects (sharedAttrs objects attrs) →
      (∀ name col, column? name objects = some col → P col) → P ts)
    (ts : List Ty) : P ts := by
  -- The parts are less nested than the types, so the induction is on how deep the types nest.
  induction hn : heightEach ts using Nat.strongRecOn generalizing ts with
  | _ n ih =>
    subst hn
    replace ih (us : List Ty) (h : heightEach us < heightEach ts) : P us := ih _ h us rfl
    rcases hd : distinct ts with _ | ⟨t, rest⟩
    · exact nothing hd (unify_of_nil hd)
    by_cases hrest : rest = []
    · subst hrest
      exact single hd (unify_of_singleton hd)
    have hmem : t ∈ distinct ts := hd ▸ List.mem_cons_self
    have hfirst := mem_of_first hd
    by_cases hcollections : ∃ c es, allParts? (elementOf? c) (distinct ts) = some es
    · obtain ⟨c, es, hes⟩ := hcollections
      obtain ⟨e, -, he⟩ := exists_part_of_mem hes hmem
      exact collections hd hrest hes (unify_of_collections hd hrest hes) <| ih es <|
        heightEach_parts_lt hfirst (Nat.zero_lt_of_lt (height_lt_of_elementOf? he))
          height_lt_of_elementOf? hes
    by_cases htuples : ∃ n rows, allParts? (places? n) (distinct ts) = some rows
    · obtain ⟨n, rows, hrows⟩ := htuples
      obtain ⟨row, -, hrow⟩ := exists_part_of_mem hrows hmem
      have hpos : 0 < t.height := by
        cases t <;> simp only [places?, reduceCtorEq] at hrow
        exact Nat.succ_pos _
      exact tuples hd hrest hrows (unify_of_tuples hd hrest hrows) fun i =>
        ih _ (heightEach_placeColumn_lt hfirst hpos hrows)
    cases hobjects : allParts? attributes? (distinct ts) with
    | some objs =>
      obtain ⟨attrs, -, hattrs⟩ := exists_part_of_mem hobjects hmem
      cases t <;> cases hattrs
      exact objects hd hrest hobjects (unify_of_objects hd hrest hobjects) fun name col hcol =>
        ih col (heightEach_column_lt hfirst (Nat.succ_pos _) hobjects hcol)
    | none =>
      have h : Disparate (distinct ts) := by
        simp only [not_exists] at hcollections htuples
        exact ⟨fun c => Option.eq_none_iff_forall_ne_some.mpr (hcollections c),
          fun n => Option.eq_none_iff_forall_ne_some.mpr (htuples n), hobjects⟩
      exact disparate hd hrest h (unify_of_disparate hd hrest h)

end Ways

/-! ### Parts of well-formed types -/

theorem wellFormed_of {c : Collection} {t : Ty} : (c.of t).WellFormed ↔ t.WellFormed := by
  constructor
  · intro h
    cases c <;> cases h <;> assumption
  · intro h
    cases c with
    | list => exact .list h
    | set => exact .set h
    | map => exact .map h

theorem wellFormed_elementOf? {c : Collection} {t u : Ty} (ht : t.WellFormed)
    (h : t.elementOf? c = some u) : u.WellFormed :=
  wellFormed_of.mp (elementOf?_eq_some_iff.mp h ▸ ht)

theorem wellFormed_places? {n : Nat} {t : Ty} {ts : List Ty} (ht : t.WellFormed)
    (h : t.places? n = some ts) : ∀ u ∈ ts, u.WellFormed := by
  cases ht <;> simp only [places?, reduceCtorEq] at h
  split at h
  · exact Option.some.inj h ▸ ‹_›
  · cases h

theorem wellFormed_attributes? {t : Ty} {attrs : List (Attr Ty)} (ht : t.WellFormed)
    (h : t.attributes? = some attrs) : Attr.WellFormed attrs := by
  cases ht <;> simp only [attributes?, reduceCtorEq, Option.some.injEq] at h
  exact h ▸ ⟨‹_›, ‹_›, ‹_›⟩

theorem wellFormed_placeColumn {n : Nat} {types : List Ty} {rows : List (List Ty)}
    (h : ∀ t ∈ types, t.WellFormed) (hrows : allParts? (places? n) (distinct types) = some rows)
    (i : Nat) : ∀ t ∈ placeColumn i rows, t.WellFormed := by
  intro t ht
  obtain ⟨row, hrow, hi⟩ := List.mem_filterMap.mp ht
  exact forall_parts h hrows (fun _ _ => wellFormed_places?) row hrow t (List.mem_of_getElem? hi)

theorem wellFormed_column {types : List Ty} {objects : List (List (Attr Ty))} {name : String}
    {col : List Ty} (h : ∀ t ∈ types, t.WellFormed)
    (hobjects : allParts? attributes? (distinct types) = some objects)
    (hcol : column? name objects = some col) : ∀ t ∈ col, t.WellFormed := by
  intro t ht
  obtain ⟨as, has, a, ha, rfl⟩ := exists_of_mem_column? hcol t ht
  exact (forall_parts h hobjects @wellFormed_attributes? as has).types a ha

/-- What keeps the names of attributes, or drops attributes, keeps names distinct. -/
theorem names_filterMap_sublist {attrs : List (Attr Ty)} {f : Attr Ty → Option (Attr Ty)}
    (h : ∀ a b, f a = some b → b.name = a.name) :
    ((attrs.filterMap f).map (·.name)).Sublist (attrs.map (·.name)) := by
  induction attrs with
  | nil => exact .slnil
  | cons a as ih =>
    rw [List.filterMap_cons]
    split
    · exact ih.cons _
    · rename_i b hb
      rw [List.map_cons, List.map_cons, h a b hb]
      exact ih.cons_cons _

/-- The names of shared attributes are names of attributes that one of the objects has. -/
theorem names_sharedAttrs_sublist (objects : List (List (Attr Ty))) (attrs : List (Attr Ty)) :
    ((sharedAttrs objects attrs).map (·.name)).Sublist (attrs.map (·.name)) := by
  refine names_filterMap_sublist fun a b hb => ?_
  obtain ⟨col, -, rfl⟩ := Option.map_eq_some_iff.mp hb
  rfl

/-- Well-formed types share a well-formed one. -/
theorem wellFormed_unify {types : List Ty} (h : ∀ t ∈ types, t.WellFormed) :
    (unify types).WellFormed := by
  induction types using unify_induction with
  | nothing _ hunify | disparate _ _ _ hunify => exact hunify ▸ .dynamic
  | single hd hunify => exact hunify ▸ h _ (mem_of_first hd)
  | collections _ _ hes hunify ih =>
    exact hunify ▸ wellFormed_of.mpr (ih (forall_parts h hes fun _ _ => wellFormed_elementOf?))
  | tuples _ _ hrows hunify ih =>
    refine hunify ▸ .tuple fun t ht => ?_
    obtain ⟨i, -, rfl⟩ := List.mem_map.mp ht
    exact ih i (wellFormed_placeColumn h hrows i)
  | @objects types attrs _ objects hd _ hobjects hunify ih =>
    have hattrs : Attr.WellFormed attrs := .of_object (h _ (mem_of_first hd))
    rw [hunify, sharedObject]
    split
    · exact .dynamic
    · refine .object (hattrs.names.sublist (names_sharedAttrs_sublist objects attrs)) ?_ ?_
      all_goals
        intro b hb
        obtain ⟨a, ha, col, hcol, rfl⟩ := mem_sharedAttrs hb
      · exact hattrs.composed a ha
      · exact ih a.name col hcol (wellFormed_column h hobjects hcol)

/-! ### An upper bound -/

/-- Every type of a list equals a type that counts. -/
theorem exists_mem_distinct {types : List Ty} {t : Ty} (h : ∀ t ∈ types, t.WellFormed)
    (ht : t ∈ types) : ∃ u ∈ distinct types, t.same u := by
  induction types with
  | nil => cases ht
  | cons u us ih =>
    obtain ⟨hu, hus⟩ := List.forall_mem_cons.mp h
    rw [distinct]
    rcases List.mem_cons.mp ht with rfl | ht
    · exact ⟨t, by simp, hu.same_refl⟩
    · obtain ⟨v, hv, htv⟩ := ih hus ht
      by_cases huv : u.same v
      -- What was found is counted as the head already.
      · have hvwell := hus v (mem_of_mem_distinct hv)
        exact ⟨u, by simp, (hus t ht).same_trans htv (hu.same_symm hvwell huv)⟩
      · have hkept : (!(u == v)) = true := by
          rw [Bool.not_eq_true']
          exact Bool.eq_false_iff.mpr huv
        exact ⟨v, List.mem_cons_of_mem _ (List.mem_filter.mpr ⟨hv, hkept⟩), htv⟩

/-- An attribute that all of several objects have is in each of them. -/
theorem exists_find?_of_column? {name : String} {objects : List (List (Attr Ty))} {col : List Ty}
    {attrs : List (Attr Ty)} (h : column? name objects = some col) (hattrs : attrs ∈ objects) :
    ∃ a, Attr.find? attrs name = some a ∧ a.ty ∈ col := by
  induction objects generalizing col with
  | nil => cases hattrs
  | cons as rest ih =>
    simp only [column?, Option.bind_eq_bind, Option.bind_eq_some_iff, Option.some.injEq] at h
    obtain ⟨a, ha, ts, hts, rfl⟩ := h
    rcases List.mem_cons.mp hattrs with rfl | hattrs
    · exact ⟨a, ha, by simp⟩
    · obtain ⟨b, hb, hmem⟩ := ih hts hattrs
      exact ⟨b, hb, List.mem_cons_of_mem _ hmem⟩

/-- Equal types are assignable alike, so the types that count are enough. -/
theorem usableAs_of_forall_distinct {types : List Ty} {t v : Ty} (h : ∀ t ∈ types, t.WellFormed)
    (hdistinct : ∀ u ∈ distinct types, u.usableAs v) (ht : t ∈ types) : t.usableAs v := by
  obtain ⟨u, hu, htu⟩ := exists_mem_distinct h ht
  exact (h t ht).usableAs_of_same (h u (mem_of_mem_distinct hu)) htu (hdistinct u hu)

/-- Each of several types is assignable to the one they share. -/
theorem usableAs_unify {types : List Ty} {t : Ty} (h : ∀ t ∈ types, t.WellFormed)
    (ht : t ∈ types) : t.usableAs (unify types) := by
  -- Equal types count once, so it is enough to assign those that count.
  induction types using unify_induction generalizing t with
  | nothing _ hunify | disparate _ _ _ hunify => exact hunify ▸ usableAs_dynamic t
  | single hd hunify =>
    refine usableAs_of_forall_distinct h (fun u hu => ?_) ht
    rw [hd] at hu
    obtain rfl := List.mem_singleton.mp hu
    exact hunify ▸ (h u (mem_of_first hd)).usableAs_refl
  | @collections _ _ _ c _ _ _ hes hunify ih =>
    refine usableAs_of_forall_distinct h (fun u hu => ?_) ht
    obtain ⟨e, he, hue⟩ := exists_part_of_mem hes hu
    obtain rfl := elementOf?_eq_some_iff.mp hue
    have helem := ih (forall_parts h hes fun _ _ => wellFormed_elementOf?) he
    rw [hunify]
    cases c <;> exact helem
  | @tuples types _ _ n rows _ _ hrows hunify ih =>
    refine usableAs_of_forall_distinct h (fun u hu => ?_) ht
    obtain ⟨row, hrow, hurow⟩ := exists_part_of_mem hrows hu
    cases u <;> simp only [places?, reduceCtorEq, Option.ite_none_right_eq_some,
      Option.some.injEq] at hurow
    obtain ⟨hlength, rfl⟩ := hurow
    rename_i row
    rw [hunify, usableAs, usableEach_iff, List.forall₂_iff_get]
    refine ⟨by simp [hlength], fun i hi hi' => ?_⟩
    have hmem : row[i] ∈ placeColumn i rows :=
      List.mem_filterMap.mpr ⟨row, hrow, List.getElem?_eq_getElem hi⟩
    simpa using ih i (wellFormed_placeColumn h hrows i) hmem
  | objects _ _ hobjects hunify ih =>
    refine usableAs_of_forall_distinct h (fun u hu => ?_) ht
    obtain ⟨as, has, huas⟩ := exists_part_of_mem hobjects hu
    cases u <;> simp only [attributes?, reduceCtorEq, Option.some.injEq] at huas
    subst huas
    rw [hunify, sharedObject]
    split
    · exact usableAs_dynamic _
    · rw [usableAs, usableAttrs_iff]
      intro b hb
      obtain ⟨a, -, col, hcol, rfl⟩ := mem_sharedAttrs hb
      obtain ⟨a', ha', hmem⟩ := exists_find?_of_column? hcol has
      exact .inl ⟨a', ha', ih a.name col hcol (wellFormed_column h hobjects hcol) hmem⟩

/-! ### Attributes that may not be left out -/

/-- A type none of whose attributes may be left out, at every depth. -/
inductive Strict : Ty → Prop
  | bool : Strict bool
  | number : Strict number
  | string : Strict string
  | dynamic : Strict dynamic
  | capsule {kind : CapsuleType} : Strict (capsule kind)
  | list {t : Ty} (elem : Strict t) : Strict (list t)
  | set {t : Ty} (elem : Strict t) : Strict (set t)
  | map {t : Ty} (elem : Strict t) : Strict (map t)
  | tuple {ts : List Ty} (elems : ∀ t ∈ ts, Strict t) : Strict (tuple ts)
  | object {attrs : List (Attr Ty)} (required : ∀ a ∈ attrs, a.isOptional = false)
      (types : ∀ a ∈ attrs, Strict a.ty) : Strict (object attrs)

/-- What may not be left out in any of several objects may not be left out in what they share. -/
theorem optionalSomewhere_eq_false {objects : List (List (Attr Ty))}
    (h : ∀ as ∈ objects, ∀ a ∈ as, a.isOptional = false) (name : String) :
    optionalSomewhere name objects = false := by
  rw [optionalSomewhere, List.any_eq_false]
  intro as has
  cases ha : Attr.find? as name with
  | none => simp
  | some a => simp [h as has a (Attr.mem_of_find? ha)]

/-- Strict types share a strict one. -/
theorem strict_unify {types : List Ty} (h : ∀ t ∈ types, t.Strict) : (unify types).Strict := by
  induction types using unify_induction with
  | nothing _ hunify | disparate _ _ _ hunify => exact hunify ▸ .dynamic
  | single hd hunify => exact hunify ▸ h _ (mem_of_first hd)
  | @collections _ _ _ c _ _ _ hes hunify ih =>
    have helem := ih <| forall_parts h hes fun t u ht htu => by
      obtain rfl := elementOf?_eq_some_iff.mp htu
      cases c <;> cases ht <;> assumption
    rw [hunify]
    cases c with
    | list => exact .list helem
    | set => exact .set helem
    | map => exact .map helem
  | @tuples types _ _ n rows _ _ hrows hunify ih =>
    refine hunify ▸ .tuple fun t ht => ?_
    obtain ⟨i, -, rfl⟩ := List.mem_map.mp ht
    refine ih i fun u hu => ?_
    obtain ⟨row, hrow, hi⟩ := List.mem_filterMap.mp hu
    have hplaces : ∀ row ∈ rows, ∀ u ∈ row, Strict u := by
      refine forall_parts h hrows fun t row ht hrow => ?_
      cases ht <;> simp only [places?, reduceCtorEq, Option.ite_none_right_eq_some,
        Option.some.injEq] at hrow
      exact hrow.2 ▸ ‹_›
    exact hplaces row hrow u (List.mem_of_getElem? hi)
  | @objects types _ _ objects _ _ hobjects hunify ih =>
    have hparts : ∀ as ∈ objects, (Ty.object as).Strict := by
      refine forall_parts h hobjects fun t as ht has => ?_
      cases t <;> simp only [attributes?, reduceCtorEq, Option.some.injEq] at has
      exact has ▸ ht
    have hrequired : ∀ as ∈ objects, ∀ a ∈ as, a.isOptional = false := by
      intro as has
      cases hparts as has with
      | object required => exact required
    rw [hunify, sharedObject]
    split
    · exact .dynamic
    · refine .object (fun b hb => ?_) fun b hb => ?_
      all_goals obtain ⟨a, -, col, hcol, rfl⟩ := mem_sharedAttrs hb
      · exact optionalSomewhere_eq_false hrequired a.name
      · refine ih a.name col hcol fun t ht => ?_
        obtain ⟨as, has, a', ha', rfl⟩ := exists_of_mem_column? hcol t ht
        cases hparts as has with
        | object _ types => exact types a' ha'

end TypedData.Ty
