import TypedData.Proofs.Ty.Shared

/-!
# Types unified in batches

Types can be unified batch by batch: what the batches share is what all their types share. There is
one exception, at any place inside the types. Objects of one batch that have attributes, but none in
common, share nothing by themselves. With an empty object beside them they share that.

## Main definitions

* `Ty.MeetsEmpty` — objects that share nothing by themselves meet an empty object
* `Ty.MeetsEmptyInside` — the same at some place inside the types

## Main results

* `Ty.same_unify_batches_iff` — batches unify to what all their types do, but for the exception
-/

namespace TypedData.Ty

variable {as bs ts : List Ty} {t u : Ty} {p : Part}

/-- Objects that share nothing by themselves meet an empty object in another batch. -/
structure MeetsEmpty (as bs : List Ty) : Prop where
  unshared : Unshared as
  objects : ∀ t ∈ bs, t.kind = .object
  empty : object [] ∈ bs

/-- At some place that all types have, objects of one batch that share nothing by themselves meet an
empty object in the other batch. -/
def MeetsEmptyInside (as bs : List Ty) : Prop :=
  ∃ place cas cbs, allParts? (at? place) as = some cas ∧ allParts? (at? place) bs = some cbs ∧
    MeetsEmpty cas cbs

/-! ### Kinds -/

theorem kind_eq_of_forall (h : ∀ k, k ≠ .dynamic → (t.kind = k ↔ u.kind = k)) :
    t.kind = u.kind := by
  by_cases ht : t.kind = .dynamic
  · by_contra hne
    have hu : u.kind ≠ .dynamic := fun hu => hne (ht.trans hu.symm)
    exact hne ((h u.kind hu).mpr rfl)
  · exact ((h t.kind ht).mp rfl).symm

theorem apart_of_mem_empty (h : object [] ∈ ts) : Apart ts := fun _ => ⟨_, h, rfl⟩

theorem Apart.mono (h : Apart as) (hsub : as ⊆ bs) : Apart bs := by
  intro name
  obtain ⟨t, ht, hnone⟩ := h name
  exact ⟨t, hsub ht, hnone⟩

/-- An object is empty if it has no attributes. -/
theorem eq_empty_iff (ht : t.kind = .object) :
    t = object [] ↔ ∀ name, t.part? (.attr name) = none := by
  refine ⟨fun h _ => h ▸ rfl, fun h => ?_⟩
  cases t <;> cases ht
  rename_i attrs
  cases attrs with
  | nil => rfl
  | cons a attrs => simpa [part?, attributes?, Attr.find?] using h a.name

/-- Objects share nothing exactly if none is empty and they have no attribute in common. -/
theorem unshared_iff_apart (hts : ∀ t ∈ ts, t.kind = .object) :
    Unshared ts ↔ object [] ∉ ts ∧ Apart ts := by
  constructor
  · rintro ⟨hobjects, hapart⟩
    refine ⟨fun hempty => ?_, hapart⟩
    obtain ⟨a, as, h⟩ := hobjects _ hempty
    cases h
  · rintro ⟨hempty, hapart⟩
    refine ⟨fun t ht => ?_, hapart⟩
    have hkind := hts t ht
    cases t <;> cases hkind
    rename_i attrs
    cases attrs with
    | nil => exact absurd ht hempty
    | cons a as => exact ⟨a, as, rfl⟩

theorem Unshared.kind_eq (h : Unshared ts) : ∀ t ∈ ts, t.kind = .object := by
  intro t ht
  obtain ⟨a, attrs, rfl⟩ := h.objects t ht
  rfl

/-- Objects that share an object share the empty one exactly if it is one of them. -/
theorem unify_eq_empty_iff (hts : ts ≠ []) (h : ∀ t ∈ ts, t.WellFormed)
    (hobjects : ∀ t ∈ ts, t.kind = .object) (hshared : ¬ Unshared ts) :
    unify ts = object [] ↔ object [] ∈ ts := by
  have hkind := (kind_unify_iff hts h (k := .object) nofun).mpr ⟨hobjects, fun _ => hshared⟩
  have hapart : unify ts = object [] ↔ Apart ts := by
    rw [eq_empty_iff hkind]
    exact forall_congr' fun name => part?_unify_eq_none_iff hts h
  rw [hapart]
  refine ⟨fun hapart => ?_, apart_of_mem_empty⟩
  by_contra hempty
  exact hshared ((unshared_iff_apart hobjects).mpr ⟨hempty, hapart⟩)

/-- Objects that share nothing by themselves but do so with the objects of another batch meet an
empty object there. -/
theorem Unshared.meetsEmpty (h : Unshared as) (hbs : ∀ t ∈ bs, t.kind = .object) (hsub : as ⊆ ts)
    (hts : ts ⊆ as ++ bs) (hnot : ¬ Unshared ts) : MeetsEmpty as bs := by
  have hempty := ((unshared_iff_apart h.kind_eq).mp h).1
  have hkind : ∀ t ∈ ts, t.kind = .object := fun t ht =>
    (List.mem_append.mp (hts ht)).elim (h.kind_eq t) (hbs t)
  refine ⟨h, hbs, ?_⟩
  by_contra hempty'
  refine hnot ((unshared_iff_apart hkind).mpr ⟨fun hmem => ?_, h.apart.mono hsub⟩)
  exact (List.mem_append.mp (hts hmem)).elim hempty hempty'

/-- Whether types are equal does not change when equal ones stand for them. -/
theorem same_congr {x x' y y' : Ty} (hx : x.WellFormed) (hx' : x'.WellFormed) (hy : y.WellFormed)
    (hy' : y'.WellFormed) (hxx' : x.same x') (hyy' : y.same y') : x.same y ↔ x'.same y' := by
  constructor
  · intro h
    exact hx'.same_trans (hx.same_symm hx' hxx') (hx.same_trans h hyy')
  · intro h
    exact hx.same_trans hxx' (hx'.same_trans h (hy.same_symm hy' hyy'))

theorem wellFormed_batches (ha : ∀ t ∈ as, t.WellFormed) (hb : ∀ t ∈ bs, t.WellFormed) :
    ∀ t ∈ [unify as, unify bs], t.WellFormed := by
  simp [wellFormed_unify ha, wellFormed_unify hb]

section Batches

variable (has : as ≠ []) (hbs : bs ≠ []) (ha : ∀ t ∈ as, t.WellFormed) (hb : ∀ t ∈ bs, t.WellFormed)
include has hbs ha hb

/-- What two batches share lacks a part in one of the batches if one of their types lacks it. -/
theorem exists_batch_lacking_iff :
    (∃ t ∈ [unify as, unify bs], t.part? p = none) ↔ ∃ t ∈ as ++ bs, t.part? p = none := by
  simp only [List.exists_mem_cons_iff, List.not_mem_nil, false_and, exists_false, or_false,
    part?_unify_eq_none_iff has ha, part?_unify_eq_none_iff hbs hb, List.mem_append, or_and_right,
    exists_or]

theorem apart_batches_iff : Apart [unify as, unify bs] ↔ Apart (as ++ bs) :=
  forall_congr' fun _ => exists_batch_lacking_iff has hbs ha hb

/-- Objects share nothing batch by batch if and only if they share nothing at once, unless those of
one batch share nothing by themselves and meet an empty object in the other. -/
theorem unshared_batches_iff (hobjects : ∀ t ∈ as, t.kind = .object)
    (hobjects' : ∀ t ∈ bs, t.kind = .object) (hmeets : ¬ MeetsEmpty as bs)
    (hmeets' : ¬ MeetsEmpty bs as) :
    Unshared as ∨ Unshared bs ∨ Unshared [unify as, unify bs] ↔ Unshared (as ++ bs) := by
  by_cases hA : Unshared as
  · refine iff_of_true (.inl hA) ?_
    by_contra hnot
    exact hmeets (hA.meetsEmpty hobjects' (by simp) (by simp) hnot)
  by_cases hB : Unshared bs
  · refine iff_of_true (.inr (.inl hB)) ?_
    by_contra hnot
    exact hmeets' (hB.meetsEmpty hobjects (by simp) (by simp) hnot)
  -- Both batches share an object, which is empty if one of theirs is.
  have hkindA := (kind_unify_iff has ha (k := .object) nofun).mpr ⟨hobjects, fun _ => hA⟩
  have hkindB := (kind_unify_iff hbs hb (k := .object) nofun).mpr ⟨hobjects', fun _ => hB⟩
  have hemptyA := unify_eq_empty_iff has ha hobjects hA
  have hemptyB := unify_eq_empty_iff hbs hb hobjects' hB
  rw [or_iff_right hA, or_iff_right hB, unshared_iff_apart (by simp [hkindA, hkindB]),
    unshared_iff_apart (List.forall_mem_append.mpr ⟨hobjects, hobjects'⟩),
    apart_batches_iff has hbs ha hb, List.mem_pair, eq_comm, hemptyA, eq_comm, hemptyB,
    List.mem_append]

/-- Two batches unify to a type of the kind that all their types unify to, unless objects of one of
them that share nothing by themselves meet an empty object in the other. -/
theorem kind_unify_batches_iff :
    (unify [unify as, unify bs]).kind = (unify (as ++ bs)).kind ↔
      ¬ MeetsEmpty as bs ∧ ¬ MeetsEmpty bs as := by
  have hpair := wellFormed_batches ha hb
  have hall := List.forall_mem_append.mpr ⟨ha, hb⟩
  have hne : as ++ bs ≠ [] := List.append_ne_nil_of_left_ne_nil has bs
  have hkind {k : Kind} (hk : k ≠ .dynamic) : (unify [unify as, unify bs]).kind = k ↔
      ((∀ t ∈ as, t.kind = k) ∧ ∀ t ∈ bs, t.kind = k) ∧
        (k = .object → ¬ (Unshared as ∨ Unshared bs ∨ Unshared [unify as, unify bs])) := by
    -- Both batches have to share a type of the kind, and then these two types as well.
    rw [kind_unify_iff (List.cons_ne_nil _ _) hpair hk, List.forall_mem_pair,
      kind_unify_iff has ha hk, kind_unify_iff hbs hb hk]
    tauto
  constructor
  · intro heq
    -- An empty object among all the types makes them share an object.
    have hobject (hobjects : ∀ t ∈ as ++ bs, t.kind = .object) (hempty : object [] ∈ as ++ bs) :
        ¬ (Unshared as ∨ Unshared bs ∨ Unshared [unify as, unify bs]) := by
      refine ((hkind (k := .object) nofun).mp ?_).2 rfl
      rw [heq, kind_unify_iff hne hall (k := .object) nofun]
      exact ⟨hobjects, fun _ hnone => ((unshared_iff_apart hobjects).mp hnone).1 hempty⟩
    constructor
    · rintro ⟨hunshared, hkinds, hempty⟩
      exact hobject (List.forall_mem_append.mpr ⟨hunshared.kind_eq, hkinds⟩)
        (List.mem_append_right as hempty) (.inl hunshared)
    · rintro ⟨hunshared, hkinds, hempty⟩
      exact hobject (List.forall_mem_append.mpr ⟨hkinds, hunshared.kind_eq⟩)
        (List.mem_append_left bs hempty) (.inr (.inl hunshared))
  · rintro ⟨hmeets, hmeets'⟩
    refine kind_eq_of_forall fun k hk => ?_
    rw [hkind hk, kind_unify_iff hne hall hk, List.forall_mem_append]
    -- Only for objects does it matter whether they have something in common.
    refine and_congr_right fun hkinds => imp_congr_right fun hobject => not_congr ?_
    subst hobject
    exact unshared_batches_iff has hbs ha hb hkinds.1 hkinds.2 hmeets hmeets'

/-! ### Parts -/

/-- The parts of what two batches share are what the parts of the batches share. -/
theorem exists_part?_unify_batches {es fs : List Ty} (hes : allParts? (part? p) as = some es)
    (hfs : allParts? (part? p) bs = some fs) :
    ∃ x, (unify [unify as, unify bs]).part? p = some x ∧ x.same (unify [unify es, unify fs]) := by
  obtain ⟨e, he, hsame⟩ := exists_part?_unify has ha hes
  obtain ⟨f, hf, hsame'⟩ := exists_part?_unify hbs hb hfs
  have hpair := wellFormed_batches ha hb
  have hef : allParts? (part? p) [unify as, unify bs] = some [e, f] := by
    simp [allParts?, he, hf]
  obtain ⟨x, hx, hxs⟩ := exists_part?_unify (List.cons_ne_nil _ _) hpair hef
  have hes := wellFormed_allParts? ha hes
  have hfs := wellFormed_allParts? hb hfs
  have hwell : ∀ t ∈ [e, f], t.WellFormed := by
    simp [(wellFormed_unify ha).part? he, (wellFormed_unify hb).part? hf]
  have hsames : SameTypes [e, f] [unify es, unify fs] := by
    refine ⟨?_, ?_⟩ <;> simp [hsame, hsame']
  have hxwell := (wellFormed_unify hpair).part? hx
  exact ⟨x, hx, hxwell.same_trans hxs (hsames.same_unify hwell (wellFormed_batches hes hfs))⟩

/-- A part that all types have agrees in what two batches share and in what all types share if what
the parts share does. -/
theorem exists_parts_unify_batches {es fs : List Ty} (hes : allParts? (part? p) as = some es)
    (hfs : allParts? (part? p) bs = some fs) :
    ∃ x y, (unify [unify as, unify bs]).part? p = some x ∧ (unify (as ++ bs)).part? p = some y ∧
      (x.same y ↔ (unify [unify es, unify fs]).same (unify (es ++ fs))) := by
  have hall := List.forall_mem_append.mpr ⟨ha, hb⟩
  have hne : as ++ bs ≠ [] := List.append_ne_nil_of_left_ne_nil has bs
  obtain ⟨x, hx, hxs⟩ := exists_part?_unify_batches has hbs ha hb hes hfs
  obtain ⟨y, hy, hys⟩ := exists_part?_unify hne hall (allParts?_append hes hfs)
  have hes := wellFormed_allParts? ha hes
  have hfs := wellFormed_allParts? hb hfs
  refine ⟨x, y, hx, hy, same_congr ?_ ?_ ?_ ?_ hxs hys⟩
  · exact (wellFormed_unify (wellFormed_batches ha hb)).part? hx
  · exact wellFormed_unify (wellFormed_batches hes hfs)
  · exact (wellFormed_unify hall).part? hy
  · exact wellFormed_unify (List.forall_mem_append.mpr ⟨hes, hfs⟩)

theorem part?_unify_batches_eq_none_iff :
    (unify [unify as, unify bs]).part? p = none ↔ (unify (as ++ bs)).part? p = none := by
  rw [part?_unify_eq_none_iff (List.cons_ne_nil _ _) (wellFormed_batches ha hb),
    part?_unify_eq_none_iff (List.append_ne_nil_of_left_ne_nil has bs)
      (List.forall_mem_append.mpr ⟨ha, hb⟩)]
  exact exists_batch_lacking_iff has hbs ha hb

theorem mayLack_unify_batches :
    (unify [unify as, unify bs]).mayLack p = (unify (as ++ bs)).mayLack p := by
  rw [Bool.eq_iff_iff, mayLack_unify_iff (List.cons_ne_nil _ _) (wellFormed_batches ha hb),
    mayLack_unify_iff (List.append_ne_nil_of_left_ne_nil has bs)
      (List.forall_mem_append.mpr ⟨ha, hb⟩), List.forall_mem_pair, List.forall_mem_append,
    isSome_part?_unify_iff has ha, isSome_part?_unify_iff hbs hb]
  refine and_congr_right fun hparts => ?_
  simp only [List.exists_mem_cons_iff, List.not_mem_nil, false_and, exists_false, or_false,
    mayLack_unify_iff has ha, mayLack_unify_iff hbs hb, List.mem_append, or_and_right, exists_or]
  rw [and_iff_right hparts.1, and_iff_right hparts.2]

/-- Two batches unify to what all their types do if the kinds agree and the parts do, and only
then. -/
theorem same_unify_batches_iff_parts :
    (unify [unify as, unify bs]).same (unify (as ++ bs)) ↔
      (unify [unify as, unify bs]).kind = (unify (as ++ bs)).kind ∧
        ∀ p es fs, allParts? (part? p) as = some es → allParts? (part? p) bs = some fs →
          (unify [unify es, unify fs]).same (unify (es ++ fs)) := by
  have hall := List.forall_mem_append.mpr ⟨ha, hb⟩
  have hne : as ++ bs ≠ [] := List.append_ne_nil_of_left_ne_nil has bs
  have hwell := wellFormed_unify (wellFormed_batches ha hb)
  have hwell' := wellFormed_unify hall
  constructor
  · intro h
    refine ⟨kind_eq_of_same h, fun p es fs hes hfs => ?_⟩
    obtain ⟨x, y, hx, hy, hsame⟩ := exists_parts_unify_batches has hbs ha hb hes hfs
    obtain ⟨y', hy', h'⟩ := partsAgree_part? p hwell hwell' h x hx
    obtain rfl := Option.some.inj (hy.symm.trans hy')
    exact hsame.mp h'
  · rintro ⟨hkind, h⟩
    -- Types of one kind are equal if their parts are, which are there on both sides or neither.
    refine same_of_parts hwell hwell' hkind (fun p => ?_)
      fun p => mayLack_unify_batches has hbs ha hb
    cases hnone : (unify [unify as, unify bs]).part? p with
    | none =>
      rw [(part?_unify_batches_eq_none_iff has hbs ha hb).mp hnone]
      exact .none
    | some z =>
      have hsome : ∀ t ∈ as ++ bs, (t.part? p).isSome := by
        rw [← isSome_part?_unify_iff hne hall, Option.isSome_iff_ne_none, ne_eq,
          ← part?_unify_batches_eq_none_iff has hbs ha hb, hnone]
        exact Option.some_ne_none z
      rw [List.forall_mem_append, ← isSome_allParts?_iff, ← isSome_allParts?_iff] at hsome
      obtain ⟨es, hes⟩ := Option.isSome_iff_exists.mp hsome.1
      obtain ⟨fs, hfs⟩ := Option.isSome_iff_exists.mp hsome.2
      obtain ⟨x, y, hx, hy, hsame⟩ := exists_parts_unify_batches has hbs ha hb hes hfs
      obtain rfl := Option.some.inj (hx.symm.trans hnone)
      rw [hy]
      exact .some (hsame.mpr (h p es fs hes hfs))

end Batches

/-! ### The whole -/

/-- Objects meet an empty one inside if they do at once or in the parts of the types. -/
theorem meetsEmptyInside_iff : MeetsEmptyInside as bs ↔ MeetsEmpty as bs ∨
    ∃ p es fs, allParts? (part? p) as = some es ∧ allParts? (part? p) bs = some fs ∧
      MeetsEmptyInside es fs := by
  constructor
  · rintro ⟨place, cas, cbs, hcas, hcbs, h⟩
    cases place with
    | nil =>
      rw [allParts?_at?_nil] at hcas hcbs
      obtain rfl := Option.some.inj hcas
      obtain rfl := Option.some.inj hcbs
      exact .inl h
    | cons p place =>
      obtain ⟨es, hes, hcas⟩ := allParts?_at?_cons.mp hcas
      obtain ⟨fs, hfs, hcbs⟩ := allParts?_at?_cons.mp hcbs
      exact .inr ⟨p, es, fs, hes, hfs, place, cas, cbs, hcas, hcbs, h⟩
  · rintro (h | ⟨p, es, fs, hes, hfs, place, cas, cbs, hcas, hcbs, h⟩)
    · exact ⟨[], as, bs, allParts?_at?_nil, allParts?_at?_nil, h⟩
    · exact ⟨p :: place, cas, cbs, allParts?_at?_cons.mpr ⟨es, hes, hcas⟩,
        allParts?_at?_cons.mpr ⟨fs, hfs, hcbs⟩, h⟩

/-- Unifying two batches and then what each of them shares is to unify all their types, except where
objects of one batch that share nothing by themselves meet an empty object in the other. -/
theorem same_unify_batches_iff (has : as ≠ []) (hbs : bs ≠ []) (ha : ∀ t ∈ as, t.WellFormed)
    (hb : ∀ t ∈ bs, t.WellFormed) :
    (unify [unify as, unify bs]).same (unify (as ++ bs)) ↔
      ¬ MeetsEmptyInside as bs ∧ ¬ MeetsEmptyInside bs as := by
  obtain ⟨t, ht⟩ := List.exists_mem_of_ne_nil as has
  -- The parts of all types are smaller than those of any one of them.
  induction t using induction_parts generalizing as bs with
  | step t ih =>
    have hparts : ∀ p es fs, allParts? (part? p) as = some es →
        allParts? (part? p) bs = some fs →
        ((unify [unify es, unify fs]).same (unify (es ++ fs)) ↔
          ¬ MeetsEmptyInside es fs ∧ ¬ MeetsEmptyInside fs es) := by
      intro p es fs hes hfs
      obtain ⟨e, he, hte⟩ := exists_part_of_mem hes ht
      obtain ⟨u, hu⟩ := List.exists_mem_of_ne_nil bs hbs
      obtain ⟨f, hf, -⟩ := exists_part_of_mem hfs hu
      exact ih p e hte (List.ne_nil_of_mem he) (List.ne_nil_of_mem hf)
        (wellFormed_allParts? ha hes) (wellFormed_allParts? hb hfs) he
    rw [same_unify_batches_iff_parts has hbs ha hb, kind_unify_batches_iff has hbs ha hb,
      meetsEmptyInside_iff, meetsEmptyInside_iff]
    constructor
    · rintro ⟨⟨hmeets, hmeets'⟩, h⟩
      refine ⟨?_, ?_⟩
      · rintro (hm | ⟨p, es, fs, hes, hfs, hm⟩)
        · exact hmeets hm
        · exact ((hparts p es fs hes hfs).mp (h p es fs hes hfs)).1 hm
      · rintro (hm | ⟨p, fs, es, hfs, hes, hm⟩)
        · exact hmeets' hm
        · exact ((hparts p es fs hes hfs).mp (h p es fs hes hfs)).2 hm
    · rintro ⟨hmeets, hmeets'⟩
      refine ⟨⟨fun hm => hmeets (.inl hm), fun hm => hmeets' (.inl hm)⟩, ?_⟩
      intro p es fs hes hfs
      refine (hparts p es fs hes hfs).mpr ⟨fun hm => ?_, fun hm => ?_⟩
      · exact hmeets (.inr ⟨p, es, fs, hes, hfs, hm⟩)
      · exact hmeets' (.inr ⟨p, fs, es, hfs, hes, hm⟩)

/-- Inside lists too, objects with nothing in common that meet an empty one make a difference. -/
theorem not_same_unify_batches_of_lists :
    let as := [list (object [⟨"a", string, false⟩]), list (object [⟨"b", string, false⟩])]
    let bs := [list (object [])]
    (∀ t ∈ as, t.WellFormed) ∧ (∀ t ∈ bs, t.WellFormed) ∧ MeetsEmptyInside as bs ∧
      ¬ (unify [unify as, unify bs]).same (unify (as ++ bs)) := by
  intro as bs
  have ha : ∀ t ∈ as, t.WellFormed := List.forall_mem_pair.mpr
    ⟨.list (Attr.wellFormed_singleton (by decide +kernel) .string).object,
      .list (Attr.wellFormed_singleton (by decide +kernel) .string).object⟩
  have hb : ∀ t ∈ bs, t.WellFormed :=
    List.forall_mem_singleton.mpr (.list Attr.wellFormed_nil.object)
  have hmeets : MeetsEmptyInside as bs := by
    refine ⟨[.element .list], _, _, rfl, rfl, unshared_pair (by decide), ?_, List.mem_cons_self⟩
    exact List.forall_mem_singleton.mpr rfl
  refine ⟨ha, hb, hmeets, fun hsame => ?_⟩
  exact ((same_unify_batches_iff (List.cons_ne_nil _ _) (List.cons_ne_nil _ _) ha hb).mp hsame).1
    hmeets

/-- Two objects with nothing in common share nothing, nor does what they share with an empty object,
while all three share the empty object. -/
theorem not_same_unify_batches_of_empty :
    let a := object [⟨"a", string, false⟩]
    let b := object [⟨"b", string, false⟩]
    (∀ t ∈ [a, b, object []], t.WellFormed) ∧
      (unify [unify [a, b], unify [object []]]).same dynamic ∧
      (unify ([a, b] ++ [object []])).same (object []) ∧
      ¬ (unify [unify [a, b], unify [object []]]).same (unify ([a, b] ++ [object []])) := by
  intro a b
  refine ⟨?_, by decide +kernel, by decide +kernel, by decide +kernel⟩
  simp only [List.forall_mem_cons]
  exact ⟨(Attr.wellFormed_singleton (by decide +kernel) .string).object,
    (Attr.wellFormed_singleton (by decide +kernel) .string).object, Attr.wellFormed_nil.object,
    nofun⟩

end TypedData.Ty
