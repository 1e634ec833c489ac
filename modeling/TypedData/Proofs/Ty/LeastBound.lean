import TypedData.Proofs.Ty.Shared

/-!
# The least type that several types can be used as

What several types share is assignable to every other type that all of them are assignable to, so
it is the least such type. There are two exceptions. Objects that have attributes, but none in
common, share `dynamic`, which is assignable to no object, and so do no types at all.

## Main definitions

* `Ty.UnsharedInside` — a type asks for an object where others have nothing in common

## Main results

* `Ty.unify_usableAs_iff` — what types share is assignable to every bound, but for the exceptions
-/

namespace TypedData.Ty

variable {ts es : List Ty} {t u x y : Ty} {p : Part}

/-- At some place of a type there is an object, while several types have objects there that have
attributes, but none in common. -/
def UnsharedInside (ts : List Ty) (u : Ty) : Prop :=
  ∃ place attrs col, u.at? place = some (object attrs) ∧
    allParts? (at? place) ts = some col ∧ Unshared col

theorem not_unshared_nil : ¬ Unshared [] := fun h => by
  obtain ⟨t, ht, -⟩ := h.apart ""
  cases ht

/-- A type asks for an object where there is none at the root or in its parts. -/
theorem unsharedInside_iff : UnsharedInside ts u ↔ (u.kind = .object ∧ Unshared ts) ∨
    ∃ p y es, u.part? p = some y ∧ allParts? (part? p) ts = some es ∧ UnsharedInside es y := by
  constructor
  · rintro ⟨place, attrs, col, hu, hcol, h⟩
    cases place with
    | nil =>
      rw [allParts?_at?_nil] at hcol
      obtain rfl := Option.some.inj hcol
      obtain rfl := Option.some.inj hu
      exact .inl ⟨rfl, h⟩
    | cons p place =>
      obtain ⟨y, hy, hu⟩ := Option.bind_eq_some_iff.mp hu
      obtain ⟨es, hes, hcol⟩ := allParts?_at?_cons.mp hcol
      exact .inr ⟨p, y, es, hy, hes, place, attrs, col, hu, hcol, h⟩
  · rintro (⟨hkind, h⟩ | ⟨p, y, es, hy, hes, place, attrs, col, hu, hcol, h⟩)
    · cases u <;> cases hkind
      exact ⟨[], _, ts, rfl, allParts?_at?_nil, h⟩
    · exact ⟨p :: place, attrs, col, Option.bind_eq_some_iff.mpr ⟨y, hy, hu⟩,
        allParts?_at?_cons.mpr ⟨es, hes, hcol⟩, h⟩

/-- Nothing is asked of no types. -/
theorem not_unsharedInside_nil : ¬ UnsharedInside [] u := by
  rintro ⟨place, attrs, col, -, hcol, h⟩
  obtain rfl := Option.some.inj hcol
  exact not_unshared_nil h

theorem usableAs_iff_of_same (hx : x.WellFormed) (hy : y.WellFormed) (h : x.same y) :
    x.usableAs u ↔ y.usableAs u :=
  ⟨hy.usableAs_of_same hx (hx.same_symm hy h), hx.usableAs_of_same hy h⟩

/-- What types share is assignable at a part at which all of them are if what their parts share is,
and only then. -/
theorem usableAt_unify_iff (hts : ts ≠ []) (h : ∀ t ∈ ts, t.WellFormed)
    (hall : ∀ t ∈ ts, UsableAt t u p) :
    UsableAt (unify ts) u p ↔
      ∀ y es, u.part? p = some y → allParts? (part? p) ts = some es → (unify es).usableAs y := by
  have hpart {es : List Ty} {y : Ty} (hes : allParts? (part? p) ts = some es) :
      ∃ x, (unify ts).part? p = some x ∧ (x.usableAs y ↔ (unify es).usableAs y) := by
    obtain ⟨x, hx, hsame⟩ := exists_part?_unify hts h hes
    exact ⟨x, hx, usableAs_iff_of_same ((wellFormed_unify h).part? hx)
      (wellFormed_unify (wellFormed_allParts? h hes)) hsame⟩
  constructor
  · intro huse y es hy hes
    obtain ⟨x, hx, hxy⟩ := hpart (y := y) hes
    rcases huse y hy with ⟨x', hx', hxy'⟩ | ⟨hnone, -⟩
    · obtain rfl := Option.some.inj (hx.symm.trans hx')
      exact hxy.mp hxy'
    · cases hx.symm.trans hnone
  · intro huse y hy
    cases hes : allParts? (part? p) ts with
    | some es =>
      obtain ⟨x, hx, hxy⟩ := hpart (y := y) hes
      exact .inl ⟨x, hx, hxy.mpr (huse y es hy hes)⟩
    | none =>
      -- One of the types lacks the part, so it may be left out.
      obtain ⟨t, ht, hnone⟩ := allParts?_eq_none_iff.mp hes
      refine .inr ⟨part?_unify_eq_none hts h hes, ?_⟩
      rcases hall t ht y hy with ⟨x, hx, -⟩ | ⟨-, hlack⟩
      · cases hx.symm.trans hnone
      · exact hlack

/-- What all of several types have at a part is assignable to what is asked for there. -/
theorem usableAs_of_allParts? (hall : ∀ t ∈ ts, UsableAt t u p) (hy : u.part? p = some y)
    (hes : allParts? (part? p) ts = some es) : ∀ e ∈ es, e.usableAs y := by
  intro e he
  obtain ⟨t, ht, hte⟩ := exists_of_mem_allParts? hes e he
  rcases hall t ht y hy with ⟨x, hx, hxy⟩ | ⟨hnone, -⟩
  · obtain rfl := Option.some.inj (hx.symm.trans hte)
    exact hxy
  · cases hte.symm.trans hnone

/-- What several types share is assignable to a type that all of them are assignable to, except
where this asks for an object and they have nothing in common. -/
theorem unify_usableAs_iff_of_ne_nil (hts : ts ≠ []) (h : ∀ t ∈ ts, t.WellFormed)
    (hu : u.WellFormed) (hall : ∀ t ∈ ts, t.usableAs u) :
    (unify ts).usableAs u ↔ ¬ UnsharedInside ts u := by
  induction u using induction_parts generalizing ts with
  | step u ih =>
    rw [unsharedInside_iff]
    -- Every type is assignable to `dynamic`, which has neither an object nor parts.
    by_cases hdynamic : u.kind = .dynamic
    · cases u <;> cases hdynamic
      refine iff_of_true (usableAs_dynamic _) ?_
      rintro (⟨hkind, -⟩ | ⟨p, y, es, hy, -⟩)
      · cases hkind
      · cases p <;> cases hy
    have hall' : ∀ t ∈ ts, t.kind = u.kind ∧ ∀ p, UsableAt t u p := fun t ht =>
      (usableAs_iff_parts hu hdynamic).mp (hall t ht)
    have hkind : (unify ts).kind = u.kind ↔ ¬ (u.kind = .object ∧ Unshared ts) := by
      rw [kind_unify_iff hts h hdynamic, and_iff_right fun t ht => (hall' t ht).1, not_and]
    have hparts : (∀ p, UsableAt (unify ts) u p) ↔
        ¬ ∃ p y es, u.part? p = some y ∧ allParts? (part? p) ts = some es ∧
          UnsharedInside es y := by
      simp only [not_exists, not_and]
      refine forall_congr' fun p => ?_
      have hat : ∀ t ∈ ts, UsableAt t u p := fun t ht => (hall' t ht).2 p
      rw [usableAt_unify_iff hts h hat]
      refine forall₂_congr fun y es => forall₂_congr fun hy hes => ?_
      -- The parts of several types are not none, and neither are the types.
      obtain ⟨t, ht⟩ := List.exists_mem_of_ne_nil ts hts
      obtain ⟨e, he, -⟩ := exists_part_of_mem hes ht
      exact ih p y hy (List.ne_nil_of_mem he) (wellFormed_allParts? h hes) (hu.part? hy)
        (usableAs_of_allParts? hat hy hes)
    rw [usableAs_iff_parts hu hdynamic, hkind, hparts, not_or]

/-- What several types share is assignable to a type that all of them are assignable to, with two
exceptions: no types share `dynamic`, and objects that have attributes, but none in common, share
`dynamic` where the other type asks for an object. -/
theorem unify_usableAs_iff (h : ∀ t ∈ ts, t.WellFormed) (hu : u.WellFormed)
    (hall : ∀ t ∈ ts, t.usableAs u) :
    (unify ts).usableAs u ↔ (ts = [] → u.isDynamic) ∧ ¬ UnsharedInside ts u := by
  cases ts with
  | nil =>
    have hunify : unify [] = dynamic := unify_of_nil rfl
    rw [hunify, and_iff_left not_unsharedInside_nil]
    exact ⟨fun huse _ => isDynamic_of_usableAs huse rfl, fun h => usableAs_of_isDynamic (h rfl)⟩
  | cons t ts =>
    rw [and_iff_right (fun hnil => absurd hnil (List.cons_ne_nil t ts))]
    exact unify_usableAs_iff_of_ne_nil (List.cons_ne_nil t ts) h hu hall

/-- Lists of objects with nothing in common can be used as lists of empty objects, while what the
lists share cannot. -/
theorem not_unify_usableAs_of_lists :
    let ts := [list (object [⟨"a", string, false⟩]), list (object [⟨"b", string, false⟩])]
    let u := list (object [])
    (∀ t ∈ ts, t.WellFormed) ∧ u.WellFormed ∧ (∀ t ∈ ts, t.usableAs u) ∧ UnsharedInside ts u ∧
      ¬ (unify ts).usableAs u := by
  intro ts u
  have hts : ∀ t ∈ ts, t.WellFormed := List.forall_mem_pair.mpr
    ⟨.list (Attr.wellFormed_singleton (by decide +kernel) .string).object,
      .list (Attr.wellFormed_singleton (by decide +kernel) .string).object⟩
  have hu : u.WellFormed := .list Attr.wellFormed_nil.object
  have hall : ∀ t ∈ ts, t.usableAs u := List.forall_mem_pair.mpr ⟨rfl, rfl⟩
  have hinside : UnsharedInside ts u :=
    ⟨[.element .list], [], _, rfl, rfl, unshared_pair (by decide)⟩
  exact ⟨hts, hu, hall, hinside, fun huse => ((unify_usableAs_iff hts hu hall).mp huse).2 hinside⟩

/-- Objects with nothing in common can be used as the empty object. They share `dynamic`, which
cannot. -/
theorem not_unify_usableAs_empty :
    let a := object [⟨"a", string, false⟩]
    let b := object [⟨"b", string, false⟩]
    (∀ t ∈ [a, b], t.WellFormed) ∧ (object []).WellFormed ∧
      a.usableAs (object []) ∧ b.usableAs (object []) ∧
      (unify [a, b]).same dynamic ∧ ¬ (unify [a, b]).usableAs (object []) := by
  intro a b
  refine ⟨List.forall_mem_pair.mpr ⟨?_, ?_⟩, Attr.wellFormed_nil.object, by decide +kernel⟩
  · exact (Attr.wellFormed_singleton (by decide +kernel) .string).object
  · exact (Attr.wellFormed_singleton (by decide +kernel) .string).object

end TypedData.Ty
