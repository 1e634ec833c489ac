import TypedData.Proofs.Json.Documented
import TypedData.Proofs.Ty.SameTypes

/-!
# Observations in any order

Data is seen one after another, and a type that was seen before is not kept again. What is kept are
the same types in whatever order the data is seen, and however often, so the type that is found in
the end depends on neither.

## Main results

* `Observations.sameTypes_seen` — what is kept are the types of the data, up to equality
* `Observations.same_unify_and_solve_of_reordered` — neither order nor repetition matters
-/

namespace TypedData.Observations

open Ty

variable {o : Observations} {raws raws' : List Native} {raw : Native} {t : Ty}

/-! ### What was seen -/

/-- The type of native data, as deep as it is looked into. -/
abbrev typeSeen (raw : Native) : Ty := raw.infer Limits.default.maxDepth

theorem mem_seen_observe (h : t ∈ (o.observe raw).seen) : t ∈ o.seen ∨ t = typeSeen raw := by
  simp only [observe] at h
  split at h
  · exact .inl h
  · simpa using h

theorem mem_observe_of_mem (h : t ∈ o.seen) : t ∈ (o.observe raw).seen := by
  simp only [observe]
  split
  · exact h
  · exact List.mem_append_left _ h

/-- What is seen is there already, or is added. -/
theorem exists_same_observe (o : Observations) (hraw : (typeSeen raw).WellFormed) :
    ∃ t ∈ (o.observe raw).seen, t.same (typeSeen raw) := by
  simp only [observe]
  split
  · rename_i hseen
    exact List.any_eq_true.mp hseen
  · exact ⟨_, List.mem_append_right _ (List.mem_singleton_self _), hraw.same_refl⟩

/-- The observations of native data, one after another, after those before. -/
abbrev observeAll (o : Observations) (raws : List Native) : Observations := raws.foldl observe o

theorem mem_observeAll_of_mem (h : t ∈ o.seen) : t ∈ (o.observeAll raws).seen := by
  induction raws generalizing o with
  | nil => exact h
  | cons raw raws ih => exact ih (mem_observe_of_mem h)

/-- Nothing is seen but the types of the data. -/
theorem exists_of_mem_seen (h : t ∈ (o.observeAll raws).seen) :
    t ∈ o.seen ∨ ∃ raw ∈ raws, t = typeSeen raw := by
  induction raws generalizing o with
  | nil => exact .inl h
  | cons raw raws ih =>
    rcases ih h with hseen | ⟨raw', hraw', ht⟩
    · rcases mem_seen_observe hseen with hseen | ht
      · exact .inl hseen
      · exact .inr ⟨raw, by simp, ht⟩
    · exact .inr ⟨raw', by simp [hraw'], ht⟩

/-- The type of all data is seen, up to equality. -/
theorem exists_seen_same (hraws : ∀ raw ∈ raws, (typeSeen raw).WellFormed) (hraw : raw ∈ raws) :
    ∃ t ∈ (o.observeAll raws).seen, t.same (typeSeen raw) := by
  induction raws generalizing o with
  | nil => cases hraw
  | cons raw' raws ih =>
    rw [List.forall_mem_cons] at hraws
    rcases List.mem_cons.mp hraw with rfl | hraw
    · obtain ⟨t, ht, hsame⟩ := exists_same_observe o hraws.1
      exact ⟨t, @mem_observeAll_of_mem _ raws _ ht, hsame⟩
    · exact ih hraws.2 hraw

/-! ### Order and repetition -/

theorem wellFormed_of_mem_seen (hraws : ∀ raw ∈ raws, (typeSeen raw).WellFormed)
    (h : t ∈ (empty.observeAll raws).seen) : t.WellFormed := by
  obtain ⟨⟨⟩⟩ | ⟨raw, hraw, rfl⟩ := exists_of_mem_seen h
  exact hraws raw hraw

/-- What is kept are the types of the data, up to equality. -/
theorem sameTypes_seen (hraws : ∀ raw ∈ raws, (typeSeen raw).WellFormed) :
    SameTypes (empty.observeAll raws).seen (raws.map typeSeen) where
  left t ht := by
    obtain ⟨⟨⟩⟩ | ⟨raw, hraw, rfl⟩ := exists_of_mem_seen ht
    exact ⟨_, List.mem_map_of_mem hraw, (hraws raw hraw).same_refl⟩
  right u hu := by
    obtain ⟨raw, hraw, rfl⟩ := List.mem_map.mp hu
    exact exists_seen_same hraws hraw

/-- The type that covers what was seen is the one that the types of the data share. -/
theorem same_solve_observeAll (hraws : ∀ raw ∈ raws, (typeSeen raw).WellFormed) :
    (empty.observeAll raws).solve.same (unify (raws.map typeSeen)) :=
  (sameTypes_seen hraws).same_unify (fun _ => wellFormed_of_mem_seen hraws)
    (List.forall_mem_map.mpr hraws)

/-- Data whose types are the same is covered by the same type. -/
theorem same_solve_of_sameTypes (hraws : ∀ raw ∈ raws, (typeSeen raw).WellFormed)
    (hraws' : ∀ raw ∈ raws', (typeSeen raw).WellFormed)
    (h : SameTypes (raws.map typeSeen) (raws'.map typeSeen)) :
    (empty.observeAll raws).solve.same (empty.observeAll raws').solve := by
  have hwell := List.forall_mem_map.mpr hraws
  have hwell' := List.forall_mem_map.mpr hraws'
  have hseen : (unify (raws'.map typeSeen)).same (empty.observeAll raws').solve :=
    (wellFormed_unify fun _ => wellFormed_of_mem_seen hraws').same_symm (wellFormed_unify hwell')
      (same_solve_observeAll hraws')
  exact (wellFormed_unify fun _ => wellFormed_of_mem_seen hraws).same_trans
    (same_solve_observeAll hraws)
    ((wellFormed_unify hwell).same_trans (h.same_unify hwell hwell') hseen)

theorem wellFormed_typeSeen (h : ∀ v ∈ raw.values, v.WellFormed) : (typeSeen raw).WellFormed :=
  Native.wellFormed_inferAt fun v hv => (h v hv).type_wellFormed

theorem wellFormed_typeSeen_ofJson (j : Json) : (typeSeen (Native.ofJson j)).WellFormed :=
  wellFormed_typeSeen (by simp [Native.values_ofJson])

theorem solveJson_eq_solve (documents : List Json) :
    solveJson documents = (empty.observeAll (documents.map Native.ofJson)).solve := by
  rw [observeAll, List.foldl_map, solveJson]

/-- The same data in another order, some of it more often, has the same types. -/
theorem sameTypes_of_reordered (hraws : ∀ raw ∈ raws, (typeSeen raw).WellFormed)
    (h : ∀ raw, raw ∈ raws ↔ raw ∈ raws') :
    SameTypes (raws.map typeSeen) (raws'.map typeSeen) where
  left t ht := by
    obtain ⟨raw, hraw, rfl⟩ := List.mem_map.mp ht
    exact ⟨_, List.mem_map_of_mem ((h raw).mp hraw), (hraws raw hraw).same_refl⟩
  right u hu := by
    obtain ⟨raw, hraw, rfl⟩ := List.mem_map.mp hu
    have hraw := (h raw).mpr hraw
    exact ⟨_, List.mem_map_of_mem hraw, (hraws raw hraw).same_refl⟩

/-- Lists with the same types in them share equal types, whatever the order and the repetitions and
however attributes are ordered. Hence the type that is found for data, or for documents, is the same
for the same data in any order and with any repetitions. -/
theorem same_unify_and_solve_of_reordered :
    (∀ ts us : List Ty, (∀ t ∈ ts, t.WellFormed) → (∀ u ∈ us, u.WellFormed) → SameTypes ts us →
      (unify ts).same (unify us)) ∧
    (∀ raws raws' : List Native, (∀ raw ∈ raws, ∀ v ∈ raw.values, v.WellFormed) →
      (∀ raw, raw ∈ raws ↔ raw ∈ raws') →
        (empty.observeAll raws).solve.same (empty.observeAll raws').solve) ∧
    ∀ documents documents' : List Json, (∀ j, j ∈ documents ↔ j ∈ documents') →
      (solveJson documents).same (solveJson documents') := by
  have hsolve {raws raws' : List Native} (hraws : ∀ raw ∈ raws, (typeSeen raw).WellFormed)
      (h : ∀ raw, raw ∈ raws ↔ raw ∈ raws') :
      (empty.observeAll raws).solve.same (empty.observeAll raws').solve :=
    same_solve_of_sameTypes hraws (fun raw hraw => hraws raw ((h raw).mpr hraw))
      (sameTypes_of_reordered hraws h)
  refine ⟨fun ts us ht hu h => h.same_unify ht hu, fun raws raws' hvalues h => ?_,
    fun documents documents' h => ?_⟩
  · exact hsolve (fun raw hraw => wellFormed_typeSeen (hvalues raw hraw)) h
  · rw [solveJson_eq_solve, solveJson_eq_solve]
    refine hsolve (List.forall_mem_map.mpr fun j _ => wellFormed_typeSeen_ofJson j) fun raw => ?_
    simp only [List.mem_map, h]

/-- Two objects share the same type in either order, although the first of them decides how its
attributes are ordered. -/
theorem same_unify_and_solve_of_swapped :
    let ab := object [⟨"a", .number, false⟩, ⟨"b", .string, true⟩]
    let ba := object [⟨"b", .string, true⟩, ⟨"a", .number, false⟩]
    let bac := object [⟨"b", .bool, false⟩, ⟨"a", .number, false⟩, ⟨"c", .bool, false⟩]
    let v := Native.value (.null ab)
    let w := Native.value (.null bac)
    let j := Json.object [("a", .number "1"), ("b", .string "x")]
    let j' := Json.object [("b", .bool true), ("a", .number "2")]
    (unify [ab, bac]).same (unify [bac, ba, bac]) ∧
      (empty.observeAll [v, w]).solve.same (empty.observeAll [w, v, w]).solve ∧
      (solveJson [j, j']).same (solveJson [j', j, j']) := by
  intro ab ba bac v w j j'
  have hab : ab.WellFormed := .object (by decide)
    (List.forall_mem_pair.mpr ⟨by decide +kernel, by decide +kernel⟩)
    (List.forall_mem_pair.mpr ⟨.number, .string⟩)
  have hba : ba.WellFormed := .object (by decide)
    (List.forall_mem_pair.mpr ⟨by decide +kernel, by decide +kernel⟩)
    (List.forall_mem_pair.mpr ⟨.string, .number⟩)
  have hbac : bac.WellFormed := by
    refine .object (by decide) ?_ ?_ <;> simp only [List.forall_mem_cons]
    · exact ⟨by decide +kernel, by decide +kernel, by decide +kernel, List.forall_mem_nil _⟩
    · exact ⟨.bool, .number, .bool, List.forall_mem_nil _⟩
  obtain ⟨hunify, hsolve, hjson⟩ := same_unify_and_solve_of_reordered
  refine ⟨hunify [ab, bac] [bac, ba, bac] ?_ ?_ ⟨?_, ?_⟩, hsolve [v, w] [w, v, w] ?_ fun _ => ?_,
    hjson [j, j'] [j', j, j'] fun _ => ?_⟩
  · simp [hab, hbac]
  · simp [hba, hbac]
  · have hsame : ab.same ba := by decide +kernel
    simp [hsame, hbac.same_refl]
  · have hsame : ab.same ba := by decide +kernel
    simp [hsame, hbac.same_refl]
  · have hv : (Value.null ab).WellFormed := .null hab
    have hw : (Value.null bac).WellFormed := .null hbac
    simp [v, w, Native.values, hv, hw]
  · simp only [List.mem_cons, List.not_mem_nil, or_false]
    tauto
  · simp only [List.mem_cons, List.not_mem_nil, or_false]
    tauto

end TypedData.Observations
