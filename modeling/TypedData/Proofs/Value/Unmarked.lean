import TypedData.Proofs.Value.Marks
import TypedData.Value.Collection

/-!
# Containers without marks

Marks are kept when a container is built, and they are moved: a set passes on those of an element
that is merged, and a container that becomes unknown takes over those of everything inside. Taking
them away before or after makes no difference.

## Main results

* `Value.withoutMarks_withoutMarks`, `Value.deepMarks_withoutMarks` — marks are taken away once, and
  then there are none
* `Value.canonicalSet_withoutMarks` — a set of elements without marks
* `Value.sequence_withoutMarks`, `Value.mapping_withoutMarks` — containers of such elements
* `Value.retype?_withoutMarks` — nulls and unknowns of other types
-/

namespace TypedData.Value

/-! ### Marks of the value itself -/

@[simp] theorem withMarks_empty (v : Value) : v.withMarks .empty = v := by
  obtain ⟨ty, c, m⟩ := v
  rfl

@[simp] theorem withoutMarks_marks (v : Value) : v.withoutMarks.marks = .empty := by
  obtain ⟨ty, c, m⟩ := v
  cases c <;> rfl

@[simp] theorem withoutMarks_withMarks (v : Value) (m : Marks) :
    (v.withMarks m).withoutMarks = v.withoutMarks := by
  obtain ⟨ty, c, n⟩ := v
  cases c <;> rfl

theorem withoutMarks_items (ty : Ty) (vs : List Value) (m : Marks) :
    withoutMarks ⟨ty, .items vs, m⟩ = ⟨ty, .items (vs.map withoutMarks), .empty⟩ := by
  rw [withoutMarks, withoutMarksEach_eq_map]

/-- The entries with what they hold without marks. -/
abbrev unmarkedEntries (es : Entries Value) : Entries Value :=
  es.map fun e => (e.1, e.2.withoutMarks)

theorem withoutMarks_entries (ty : Ty) (es : Entries Value) (m : Marks) :
    withoutMarks ⟨ty, .entries es, m⟩ = ⟨ty, .entries (unmarkedEntries es), .empty⟩ := by
  rw [withoutMarks, withoutMarksEntries_eq_map]

/-- Marks are taken away once. -/
@[simp] theorem withoutMarks_withoutMarks (v : Value) :
    v.withoutMarks.withoutMarks = v.withoutMarks := by
  induction v using Value.induction with
  | null | unknown | bool | number | string | capsule => rfl
  | items ty vs m ih =>
    rw [withoutMarks_items, withoutMarks_items, List.map_map]
    exact congrArg (fun vs => Value.mk ty (.items vs) .empty) (List.map_congr_left ih)
  | entries ty es m ih =>
    rw [withoutMarks_entries, withoutMarks_entries, unmarkedEntries, unmarkedEntries, List.map_map]
    refine congrArg (fun es => Value.mk ty (.entries es) .empty)
      (List.map_congr_left fun e he => ?_)
    exact congrArg (Prod.mk e.1) (ih e he)

/-! ### Sets -/

/-- A set of elements without marks is the set without marks. -/
theorem canonicalSet_withoutMarks (vs : List Value) :
    canonicalSet (vs.map withoutMarks) = (canonicalSet vs).map withoutMarks :=
  canonicalSet_map (fun v w => by simp) (fun v _ w _ => compare_withoutMarks v w)
    fun v _ w _ => same_withoutMarks v w

/-! ### Marks at every depth -/

theorem deepMarksOf_eq_empty {vs : List Value} (h : ∀ v ∈ vs, v.deepMarks = .empty) :
    deepMarksOf vs = .empty := by
  induction vs with
  | nil => rfl
  | cons v vs ih =>
    rw [List.forall_mem_cons] at h
    rw [deepMarksOf, h.1, ih h.2]
    rfl

theorem deepMarksOfEntries_eq (es : Entries Value) :
    deepMarksOfEntries es = deepMarksOf (es.map (·.2)) := by
  induction es with
  | nil => rfl
  | cons e es ih => rw [deepMarksOfEntries, ih, List.map_cons, deepMarksOf]

theorem deepMarks_withoutMarks (v : Value) : v.withoutMarks.deepMarks = .empty := by
  induction v using Value.induction with
  | null | unknown | bool | number | string | capsule => rfl
  | items ty vs m ih =>
    rw [withoutMarks_items, deepMarks, deepMarksOf_eq_empty (List.forall_mem_map.mpr ih)]
    rfl
  | entries ty es m ih =>
    rw [withoutMarks_entries, deepMarks, deepMarksOfEntries_eq, List.map_map]
    exact congrArg (Marks.union .empty) (deepMarksOf_eq_empty (List.forall_mem_map.mpr ih))

/-! ### Containers -/

theorem any_isUnknown_withoutMarks (vs : List Value) :
    (vs.map withoutMarks).any isUnknown = vs.any isUnknown := by
  rw [List.any_map]
  exact congrArg vs.any (funext isUnknown_withoutMarks)

/-- Of the elements of a collection that becomes unknown only their number and marks are kept. -/
theorem collapsed_withoutMarks (ty : Ty) (vs : List Value) :
    collapsed ty (vs.map withoutMarks) = (collapsed ty vs).withoutMarks := by
  have hempty : deepMarksOf (vs.map withoutMarks) = .empty :=
    deepMarksOf_eq_empty (List.forall_mem_map.mpr fun v _ => deepMarks_withoutMarks v)
  rw [collapsed, collapsed, withoutMarks_withMarks, hempty, withMarks_empty, List.length_map]
  rfl

/-- A list, set or tuple of elements without marks. -/
theorem sequence_withoutMarks (ty : Ty) (vs : List Value) :
    sequence ty (vs.map withoutMarks) = (sequence ty vs).withoutMarks := by
  have hofContent (ws : List Value) :
      (ofContent ty (.items ws)).withoutMarks = ofContent ty (.items (ws.map withoutMarks)) :=
    withoutMarks_items ty ws .empty
  unfold sequence
  rw [any_isUnknown_withoutMarks]
  split
  · split
    · exact collapsed_withoutMarks _ vs
    · rw [hofContent]
  · split
    · exact collapsed_withoutMarks _ vs
    · rw [hofContent, canonicalSet_withoutMarks]
  · rw [hofContent]

/-- A map or object of entries without marks. -/
theorem mapping_withoutMarks (ty : Ty) (es : Entries Value) :
    mapping ty (unmarkedEntries es) = (mapping ty es).withoutMarks := by
  have hvalues : (unmarkedEntries es).map (·.2) = (es.map (·.2)).map withoutMarks := by
    simp only [unmarkedEntries, List.map_map, Function.comp_def]
  rw [mapping, mapping, hvalues, any_isUnknown_withoutMarks, collapsed_withoutMarks]
  split
  · rfl
  · exact (withoutMarks_entries ty es .empty).symm

/-! ### Nulls and unknowns of other types -/

/-- A null or an unknown is carried over as it is without marks. -/
theorem retype?_withoutMarks (v : Value) (ty : Ty) :
    v.withoutMarks.retype? ty = (v.retype? ty).map withoutMarks := by
  obtain ⟨own, c, m⟩ := v
  cases c <;> rfl

end TypedData.Value
