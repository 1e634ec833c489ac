import TypedData.Proofs.Value.Induction
import TypedData.Proofs.Value.SetOrder
import TypedData.Proofs.Value.WellFormed

/-!
# Values known at every depth

## Main results

* `Value.isWhollyKnown_items`, `Value.isWhollyKnown_entries` — containers known at every depth
* `Value.isWhollyKnown_sequence`, `Value.isWhollyKnown_mapping` — containers that are built of
  wholly known values are wholly known
* `Value.refinement?_of_isWhollyKnown` — in such values there are no refinements
-/

namespace TypedData.Value

variable {ty : Ty} {m : Marks} {vs : List Value} {es : Entries Value} {v w : Value}

theorem isWhollyKnown_items :
    isWhollyKnown ⟨ty, .items vs, m⟩ ↔ ∀ v ∈ vs, v.isWhollyKnown := by
  rw [isWhollyKnown]
  induction vs with
  | nil => simp [allWhollyKnown]
  | cons v vs ih => simp [allWhollyKnown, ih]

theorem isWhollyKnown_entries :
    isWhollyKnown ⟨ty, .entries es, m⟩ ↔ ∀ e ∈ es, e.2.isWhollyKnown := by
  rw [isWhollyKnown]
  induction es with
  | nil => simp [allEntriesWhollyKnown]
  | cons e es ih => simp [allEntriesWhollyKnown, ih]

theorem isWhollyKnown_of_mem_parts (h : v.isWhollyKnown) (hw : w ∈ parts v.content) :
    w.isWhollyKnown := by
  obtain ⟨ty, content, m⟩ := v
  cases content with
  | items vs => exact isWhollyKnown_items.mp h w hw
  | entries es =>
    obtain ⟨e, he, rfl⟩ := List.mem_map.mp hw
    exact isWhollyKnown_entries.mp h e he
  | null | unknown | bool | number | string | capsule => cases hw

theorem isUnknown_of_isWhollyKnown (h : v.isWhollyKnown) : v.isUnknown = false := by
  obtain ⟨t, c, m⟩ := v
  cases c <;> first | rfl | cases h

theorem isWhollyKnown_of_sameData (h : SameData w v) (hv : v.isWhollyKnown) :
    w.isWhollyKnown := by
  obtain ⟨_, _, m⟩ := v
  obtain ⟨t, d, n⟩ := w
  obtain ⟨rfl, rfl⟩ := h
  cases d <;> exact hv

/-! ### Containers that are built -/

theorem any_isUnknown_eq_false (h : ∀ v ∈ vs, v.isWhollyKnown) : vs.any isUnknown = false := by
  rw [List.any_eq_false]
  intro v hv
  simp [isUnknown_of_isWhollyKnown (h v hv)]

/-- A list, set or tuple of wholly known elements is wholly known. -/
theorem isWhollyKnown_sequence (h : ∀ v ∈ vs, v.isWhollyKnown) :
    (sequence ty vs).isWhollyKnown := by
  have hknown := any_isUnknown_eq_false h
  unfold sequence
  split
  · rw [hknown]
    exact isWhollyKnown_items.mpr h
  · rw [hknown]
    refine isWhollyKnown_items.mpr fun v hv => ?_
    obtain ⟨w, hw, hdata⟩ := exists_of_mem_canonicalSet hv
    exact isWhollyKnown_of_sameData hdata (h w hw)
  · exact isWhollyKnown_items.mpr h

/-- A map or object of wholly known values is wholly known. -/
theorem isWhollyKnown_mapping (h : ∀ e ∈ es, e.2.isWhollyKnown) :
    (mapping ty es).isWhollyKnown := by
  have hknown : (es.map (·.2)).any isUnknown = false := by
    apply any_isUnknown_eq_false
    intro v hv
    obtain ⟨e, he, rfl⟩ := List.mem_map.mp hv
    exact h e he
  rw [mapping, hknown, Bool.and_false]
  exact isWhollyKnown_entries.mpr h

/-- Where nothing is unknown there are no refinements. -/
theorem refinement?_of_isWhollyKnown (h : v.isWhollyKnown) :
    ∀ w, v.Contains w → w.refinement? = none := by
  induction v using Value.induction with
  | null | bool | number | string | capsule => exact forall_contains_iff.mpr ⟨rfl, nofun⟩
  | unknown => cases h
  | items ty vs m ih =>
    exact forall_contains_iff.mpr ⟨rfl, fun x hx => ih x hx (isWhollyKnown_items.mp h x hx)⟩
  | entries ty es m ih =>
    refine forall_contains_iff.mpr ⟨rfl, fun x hx => ?_⟩
    obtain ⟨e, he, rfl⟩ := List.mem_map.mp hx
    exact ih e he (isWhollyKnown_entries.mp h e he)

end TypedData.Value
