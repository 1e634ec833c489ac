import TypedData.Proofs.Path
import TypedData.Proofs.Value.Slots

/-!
# Paths into values and into their types

A step into a value takes the same place as the step into the type of its slot. Along a path the
two stay together, until the types come to `dynamic` and stay there.

## Main results

* `Value.WellFormed.exists_child` — where a step leads in a value, it leads in its slot
* `Value.WellFormed.exists_follow` — where a path leads in a value, it leads in its slot
* `Value.WellFormed.follow_sound` — a path into the type of a value speaks for the value
-/

namespace TypedData

variable {v w : Value} {t u : Ty} {s : Step}

/-! ### Single steps -/

namespace Ty

/-- Both ways to name an attribute find it in the type. -/
theorem child_object {attrs : List (Attr Ty)} {name : String} (hs : s = .attr name ∨ s = .key name)
    (h : Value.slotOf? (.object attrs) (Text.nfc name) = some u) :
    (Ty.object attrs).child s = .ok u := by
  obtain ⟨a, ha, rfl⟩ := Option.map_eq_some_iff.mp h
  rcases hs with rfl | rfl <;> simp [Ty.child, Attr.lookup?, ha]

/-- The place of an element is where its index leads. -/
theorem child_index {n : Nat} {ts : List Ty} {i : Int}
    (ht : (∃ e, t = .list e) ∨ ∃ es, t = .tuple es) (hts : Value.slots? t n = some ts)
    (hi : 0 ≤ i) (hu : ts[i.toNat]? = some u) : t.child (.index i) = .ok u := by
  rcases ht with ⟨e, rfl⟩ | ⟨es, rfl⟩
  · obtain rfl := Option.some.inj hts
    rw [List.eq_of_mem_replicate (List.mem_of_getElem? hu)]
    rfl
  · simp only [Value.slots?, Option.ite_none_right_eq_some, Option.some.injEq] at hts
    obtain ⟨-, rfl⟩ := hts
    simp [Ty.child, elementAt?, hi, hu]

theorem child_dynamic : Ty.dynamic.child s = .ok .dynamic := by
  cases s <;> rfl

/-- What equals a list or a tuple is one. -/
theorem list_or_tuple_of_same (h : u.same t) (hu : (∃ e, u = .list e) ∨ ∃ es, u = .tuple es) :
    (∃ e, t = .list e) ∨ ∃ es, t = .tuple es := by
  rcases hu with ⟨e, rfl⟩ | ⟨es, rfl⟩ <;> cases t <;> simp [Ty.same] at h ⊢

end Ty

namespace Value

/-- Where a step leads in a value, it leads in the type of its slot, and there to the slot of what
it reaches. -/
theorem WellFormed.exists_child (h : v.WellFormed) (ht : t.WellFormed) (hin : v.InSlot t)
    (hw : v.child s = .ok w) : ∃ u, t.child s = .ok u ∧ u.WellFormed ∧ w.InSlot u := by
  rcases hin with hdyn | hsame
  · cases t <;> cases hdyn
    exact ⟨.dynamic, Ty.child_dynamic, .dynamic, .of_isDynamic rfl⟩
  obtain ⟨own, content, marks⟩ := v
  obtain ⟨name, attrs, es, hs, rfl, rfl, hmem⟩ | ⟨key, e, es, rfl, rfl, rfl, hmem⟩ |
    ⟨i, vs, rfl, hshape, rfl, hget⟩ := child_cases hw
  · obtain ⟨u, hu, hin, huwell⟩ := h.exists_slotOf_of_same ht hsame hmem
    cases t <;> simp only [Ty.same, Bool.false_eq_true] at hsame
    exact ⟨u, Ty.child_object hs hu, huwell, hin⟩
  · obtain ⟨u, hu, hin, huwell⟩ := h.exists_slotOf_of_same ht hsame hmem
    cases t <;> simp only [Ty.same, Bool.false_eq_true] at hsame
    obtain rfl := Option.some.inj hu
    exact ⟨_, rfl, huwell, hin⟩
  · obtain ⟨ts, hts, hin, htswell⟩ := h.exists_slots_of_same ht hsame
    obtain ⟨hi, hget⟩ := elementAt?_eq_some_iff.mp hget
    obtain ⟨hlt, rfl⟩ := List.getElem?_eq_some_iff.mp hget
    have hlt' : i.toNat < ts.length := hin.length_eq ▸ hlt
    refine ⟨ts[i.toNat], Ty.child_index (Ty.list_or_tuple_of_same hsame hshape) hts hi
      (List.getElem?_eq_getElem hlt'), htswell _ (List.getElem_mem hlt'), ?_⟩
    exact (List.forall₂_iff_get.mp hin).2 i.toNat hlt hlt'

theorem WellFormed.exists_step (h : v.WellFormed) (ht : t.WellFormed) (hin : v.InSlot t)
    (hw : v.step s = .ok w) : ∃ u, t.step s = .ok u ∧ u.WellFormed ∧ w.InSlot u := by
  rw [Value.step] at hw
  split at hw
  · rename_i x hchild
    obtain rfl := Except.ok.inj hw
    obtain ⟨u, hu, huwell, hx⟩ := h.exists_child ht hin hchild
    refine ⟨u, by rw [Ty.step, hu], huwell, ?_⟩
    exact hx.of_sameData (.withMarks x v.marks)
  · cases hw

/-! ### Paths -/

/-- Where a path leads in a value, it leads in the type of its slot, and there to the slot of what
it reaches. -/
theorem WellFormed.exists_follow {path : Path} (h : v.WellFormed) (ht : t.WellFormed)
    (hin : v.InSlot t) (hw : v.follow path = .ok w) :
    ∃ u, t.follow path = .ok u ∧ w.InSlot u := by
  induction path generalizing v t with
  | nil => exact ⟨t, rfl, Except.ok.inj hw ▸ hin⟩
  | cons s rest ih =>
    rw [Value.follow] at hw
    split at hw
    · cases hw
    · rename_i x hstep
      rw [Except.mapError_eq_ok_iff] at hw
      obtain ⟨t', ht', htwell, hx⟩ := h.exists_step ht hin hstep
      obtain ⟨u, hu, hwu⟩ := ih (h.step hstep) htwell hx hw
      refine ⟨u, ?_, hwu⟩
      rw [Ty.follow, ht']
      exact Except.mapError_eq_ok_iff.mpr hu

/-- A path that leads somewhere in a well-formed value leads in its type to the type of what it
reaches, or to `dynamic`. So a path that leads nowhere in a type leads nowhere in its values. -/
theorem WellFormed.follow_sound {path : Path} (h : v.WellFormed) :
    (∀ w, v.follow path = .ok w → ∃ u, v.ty.follow path = .ok u ∧ (w.ty.same u ∨ u = .dynamic)) ∧
    ∀ t e, v.ty.same t → t.WellFormed → t.follow path = .error e →
      ∃ e', v.follow path = .error e' := by
  constructor
  · intro w hw
    obtain ⟨u, hu, hin⟩ :=
      h.exists_follow h.type_wellFormed (.of_same h.type_wellFormed.same_refl) hw
    refine ⟨u, hu, ?_⟩
    rcases hin with hdyn | hsame
    · cases u <;> first | exact .inr rfl | cases hdyn
    · exact .inl hsame
  · intro t e hsame ht he
    cases hw : v.follow path with
    | ok w =>
      obtain ⟨u, hu, -⟩ := h.exists_follow ht (.of_same hsame) hw
      cases he.symm.trans hu
    | error e' => exact ⟨e', rfl⟩

/-- An element of a list in an attribute is reached by name and index, in a value and in its type;
by another name neither is. -/
theorem WellFormed.follow_sound_attribute :
    let v : Value := ⟨.object [⟨"a", .list .number, false⟩],
      .entries [("a", ⟨.list .number, .items [.number ⟨1, 0⟩], .empty⟩)], .empty⟩
    v.WellFormed ∧
      (∃ u, v.ty.follow [.attr "a", .index 0] = .ok u ∧
        ((Value.number ⟨1, 0⟩).ty.same u ∨ u = .dynamic)) ∧
      ∃ e, v.follow [.attr "b", .index 0] = .error e := by
  intro v
  have hown : v.ty.WellFormed := by
    refine .object (by decide) ?_ ?_ <;> simp only [List.forall_mem_singleton]
    · decide +kernel
    · exact .list .number
  have hlist : WellFormed ⟨.list .number, .items [.number ⟨1, 0⟩], .empty⟩ := by
    refine .list .number ?_ ?_ ?_ <;> simp only [List.forall_mem_singleton]
    · exact .number
    · exact .of_same rfl
    · rfl
  have hv : v.WellFormed := by
    have hkeys : Attr.sortedNames [⟨"a", Ty.list .number, false⟩] = ["a"] :=
      List.mergeSort_singleton _
    refine .object hown ?_ hkeys.symm ?_ <;> simp only [List.forall_mem_singleton]
    · exact hlist
    · intro a ha
      obtain rfl := Option.some.inj ha
      exact .of_same rfl
  have hreach : v.follow [.attr "a", .index 0] = .ok (.number ⟨1, 0⟩) := by rfl
  have hreject : v.ty.follow [.attr "b", .index 0] =
      .error ⟨.attr "b", [], .noAttribute "b"⟩ := by rfl
  exact ⟨hv, hv.follow_sound.1 _ hreach,
    hv.follow_sound.2 _ _ hv.type_wellFormed.same_refl hv.type_wellFormed hreject⟩

end Value

end TypedData
