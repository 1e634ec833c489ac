import TypedData.Path.Apply
import TypedData.Proofs.Checks
import TypedData.Proofs.Value.WellFormed

/-!
# Values at the end of a path

## Main results

* `Value.child_cases` — the places a step may go to
* `Value.WellFormed.child` — what a step reaches is well-formed
* `Value.WellFormed.follow` — what a path reaches is well-formed
-/

namespace TypedData.Value

variable {v w : Value}

theorem elementAt?_eq_some_iff {α : Type} {xs : List α} {i : Int} {x : α} :
    elementAt? xs i = some x ↔ 0 ≤ i ∧ xs[i.toNat]? = some x := by
  rw [elementAt?, Option.ite_none_right_eq_some]

/-- An entry is found under the normal form of its name. -/
theorem exists_entries_of_find? {name : String} {e : String × Value}
    (h : (v.entries?.getD []).find? (·.1 == Text.nfc name) = some e) :
    ∃ es, v.content = .entries es ∧ (Text.nfc name, e.2) ∈ es := by
  cases hcontent : v.content <;> simp [entries?, hcontent] at h
  have hkey := List.find?_some h
  simp only [beq_iff_eq] at hkey
  exact ⟨_, rfl, hkey ▸ List.mem_of_find?_eq_some h⟩

theorem content_of_elements? {vs : List Value} (h : v.elements? = some vs) :
    v.content = .items vs := by
  cases hcontent : v.content <;> simp [elements?, hcontent] at h ⊢
  exact h

/-- A step goes to an entry of an object or a map, or to an element of a list or a tuple. -/
theorem child_cases {s : Step} (h : v.child s = .ok w) :
    (∃ name attrs es, (s = .attr name ∨ s = .key name) ∧ v.ty = .object attrs ∧
      v.content = .entries es ∧ (Text.nfc name, w) ∈ es) ∨
    (∃ key e es, s = .key key ∧ v.ty = .map e ∧ v.content = .entries es ∧
      (Text.nfc key, w) ∈ es) ∨
    ∃ i vs, s = .index i ∧ ((∃ e, v.ty = .list e) ∨ ∃ es, v.ty = .tuple es) ∧
      v.content = .items vs ∧ elementAt? vs i = some w := by
  unfold Value.child at h
  split at h
  · cases h
  · cases h
  -- What is left depends on the step and the type of what it goes into.
  split at h
  · rename_i name attrs hty
    split at h
    · obtain rfl := Except.ok.inj h
      obtain ⟨es, hes, hmem⟩ := exists_entries_of_find? ‹_›
      exact .inl ⟨name, attrs, es, .inl rfl, hty, hes, hmem⟩
    · cases h
  · rename_i name attrs hty
    split at h
    · obtain rfl := Except.ok.inj h
      obtain ⟨es, hes, hmem⟩ := exists_entries_of_find? ‹_›
      exact .inl ⟨name, attrs, es, .inr rfl, hty, hes, hmem⟩
    · cases h
  · rename_i key e hty
    split at h
    · obtain rfl := Except.ok.inj h
      obtain ⟨es, hes, hmem⟩ := exists_entries_of_find? ‹_›
      exact .inr (.inl ⟨key, e, es, rfl, hty, hes, hmem⟩)
    · cases h
  · rename_i i e hty
    split at h
    · cases h
    rename_i vs hvs
    split at h
    · obtain rfl := Except.ok.inj h
      exact .inr (.inr ⟨i, vs, rfl, .inl ⟨e, hty⟩, content_of_elements? hvs, ‹_›⟩)
    · cases h
  · rename_i i es hty
    split at h
    · cases h
    rename_i vs hvs
    split at h
    · obtain rfl := Except.ok.inj h
      exact .inr (.inr ⟨i, vs, rfl, .inr ⟨es, hty⟩, content_of_elements? hvs, ‹_›⟩)
    · cases h
  · cases h

/-- A step into a well-formed value reaches a well-formed value. -/
theorem WellFormed.child {s : Step} (h : v.WellFormed) (hw : v.child s = .ok w) :
    w.WellFormed := by
  obtain ⟨ty, content, marks⟩ := v
  obtain ⟨_, _, es, -, -, rfl, hmem⟩ | ⟨_, _, es, -, -, rfl, hmem⟩ | ⟨i, vs, -, -, rfl, hget⟩ :=
    child_cases hw
  · exact h.of_mem_entries hmem
  · exact h.of_mem_entries hmem
  · exact h.of_mem_items (List.mem_of_getElem? (elementAt?_eq_some_iff.mp hget).2)

theorem WellFormed.step {s : Step} (h : v.WellFormed) (hw : v.step s = .ok w) :
    w.WellFormed := by
  rw [Value.step] at hw
  split at hw
  · rename_i hchild
    obtain rfl := Except.ok.inj hw
    exact (h.child hchild).withMarks v.marks
  · cases hw

/-- A path into a well-formed value reaches a well-formed value. -/
theorem WellFormed.follow {path : Path} (h : v.WellFormed) (hw : v.follow path = .ok w) :
    w.WellFormed := by
  induction path generalizing v with
  | nil => exact Except.ok.inj hw ▸ h
  | cons s rest ih =>
    rw [Value.follow] at hw
    split at hw
    · cases hw
    · rename_i hstep
      rw [Except.mapError_eq_ok_iff] at hw
      exact ih (h.step hstep) hw

end TypedData.Value
