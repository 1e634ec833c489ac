import Mathlib.Data.List.Forall2
import TypedData.Proofs.Refinement
import TypedData.Proofs.Ty.WellFormed
import TypedData.Proofs.Value.Marks

/-!
# Well-formed values

What a value holds goes with its type, at every depth. The members of a container stand in slots
of its type; the keys of an object are the declared names; keys of maps are in composed form and
in order; collections have no element that is directly unknown; the elements of a set are in set
order; and a refinement speaks only of what its type has.

## Main definitions

* `Value.InSlot` — values whose type is that of a slot, or any type in a `dynamic` slot
* `Value.WellFormed` — the invariant of all values
* `Value.Contains` — what stands in a value at any depth
* `Value.Fills` — elements for the slots of a list, set or tuple

## Main results

* `Value.WellFormed.sequence`, `Value.WellFormed.mapping_map`, `Value.WellFormed.mapping_object` —
  containers of well-formed members are well-formed
* `Value.WellFormed.retype?` — nulls and unknowns stay well-formed under another type
* `Value.WellFormed.withoutMarks` — marks do not matter
-/

namespace TypedData

namespace Value

/-! ### The invariant -/

/-- Whether a value may stand in a slot: it has the type of the slot, unless that is
`dynamic`. -/
def InSlot (v : Value) (slot : Ty) : Prop := slot.isDynamic ∨ v.ty.same slot

/-- A value whose contents go with its type at every depth. -/
inductive WellFormed : Value → Prop
  | null {ty : Ty} {m : Marks} (type : ty.WellFormed) : WellFormed ⟨ty, .null, m⟩
  | unknown {ty : Ty} {r : Refinement} {m : Marks} (type : ty.WellFormed)
      (retained : r.retainFor ty = r) (start : r.StartKept) : WellFormed ⟨ty, .unknown r, m⟩
  | bool {b : Bool} {m : Marks} : WellFormed ⟨.bool, .bool b, m⟩
  | number {n : Decimal} {m : Marks} : WellFormed ⟨.number, .number n, m⟩
  | string {s : String} {m : Marks} : WellFormed ⟨.string, .string s, m⟩
  | capsule {h : CapsuleHandle} {m : Marks} : WellFormed ⟨.capsule h.kind, .capsule h, m⟩
  | list {t : Ty} {vs : List Value} {m : Marks} (type : t.WellFormed)
      (elems : ∀ v ∈ vs, WellFormed v) (slots : ∀ v ∈ vs, InSlot v t)
      (known : ∀ v ∈ vs, v.isUnknown = false) : WellFormed ⟨.list t, .items vs, m⟩
  | set {t : Ty} {vs : List Value} {m : Marks} (type : t.WellFormed)
      (elems : ∀ v ∈ vs, WellFormed v) (slots : ∀ v ∈ vs, InSlot v t)
      (known : ∀ v ∈ vs, v.isUnknown = false) (order : InSetOrder vs) :
      WellFormed ⟨.set t, .items vs, m⟩
  | tuple {ts : List Ty} {vs : List Value} {m : Marks} (types : ∀ t ∈ ts, t.WellFormed)
      (elems : ∀ v ∈ vs, WellFormed v) (slots : List.Forall₂ InSlot vs ts) :
      WellFormed ⟨.tuple ts, .items vs, m⟩
  | map {t : Ty} {es : Entries Value} {m : Marks} (type : t.WellFormed)
      (elems : ∀ e ∈ es, WellFormed e.2) (slots : ∀ e ∈ es, InSlot e.2 t)
      (known : ∀ e ∈ es, e.2.isUnknown = false) (keys : (es.map (·.1)).Pairwise (· < ·))
      (composed : ∀ e ∈ es, Text.nfc e.1 = e.1) : WellFormed ⟨.map t, .entries es, m⟩
  | object {attrs : List (Attr Ty)} {es : Entries Value} {m : Marks}
      (type : (Ty.object attrs).WellFormed) (elems : ∀ e ∈ es, WellFormed e.2)
      (keys : es.map (·.1) = Attr.sortedNames attrs)
      (slots : ∀ e ∈ es, ∀ a, Attr.find? attrs e.1 = some a → InSlot e.2 a.ty) :
      WellFormed ⟨.object attrs, .entries es, m⟩

/-- What stands in a value at any depth, the value itself included. -/
inductive Contains (v : Value) : Value → Prop
  | self : Contains v v
  | inside {w x : Value} (hw : Contains v w) (hx : x ∈ parts w.content) : Contains v x

theorem Contains.trans {v w x : Value} (h : v.Contains w) (h' : w.Contains x) : v.Contains x := by
  induction h' with
  | self => exact h
  | inside _ hx ih => exact .inside ih hx

/-- What a value inside contains. -/
theorem Contains.of_mem_parts {v w x : Value} (hw : w ∈ parts v.content) (h : w.Contains x) :
    v.Contains x :=
  (Contains.inside .self hw).trans h

/-- What stands in a value is the value itself or stands in something directly inside. -/
theorem Contains.eq_or_exists {v w : Value} (h : v.Contains w) :
    w = v ∨ ∃ x ∈ parts v.content, x.Contains w := by
  induction h with
  | self => exact .inl rfl
  | @inside w y _ hy ih =>
    rcases ih with rfl | ⟨x, hx, hxw⟩
    · exact .inr ⟨y, hy, .self⟩
    · exact .inr ⟨x, hx, hxw.inside hy⟩

theorem forall_contains_iff {P : Value → Prop} {v : Value} :
    (∀ w, v.Contains w → P w) ↔ P v ∧ ∀ x ∈ parts v.content, ∀ w, x.Contains w → P w := by
  refine ⟨fun h => ⟨h v .self, fun x hx w hw => h w (.of_mem_parts hx hw)⟩, fun h w hw => ?_⟩
  rcases hw.eq_or_exists with rfl | ⟨x, hx, hxw⟩
  · exact h.1
  · exact h.2 x hx w hxw

/-- Whether something holds of all that stands in a value is up to the value itself, if the marks
on it change. -/
theorem forall_contains_of_sameData {P : Value → Prop} {v w : Value}
    (h : ∀ x, v.Contains x → P x) (hdata : SameData w v) (hself : P v → P w) :
    ∀ x, w.Contains x → P x := by
  obtain ⟨hv, hparts⟩ := forall_contains_iff.mp h
  refine forall_contains_iff.mpr ⟨hself hv, ?_⟩
  rwa [hdata.2]

/-- The numbers in what is no number are those in what stands directly inside. -/
theorem forall_numbers_of_parts {P : Decimal → Prop} {v : Value} (hnumber : v.asNumber? = none)
    (h : ∀ x ∈ parts v.content, ∀ w, x.Contains w → ∀ n, w.asNumber? = some n → P n) :
    ∀ w, v.Contains w → ∀ n, w.asNumber? = some n → P n := by
  refine forall_contains_iff.mpr ⟨fun n hn => ?_, h⟩
  rw [hnumber] at hn
  cases hn

/-- The numbers in a value do not depend on its marks. -/
theorem forall_numbers_of_sameData {P : Decimal → Prop} {v w : Value}
    (h : ∀ x, v.Contains x → ∀ n, x.asNumber? = some n → P n) (hdata : SameData w v) :
    ∀ x, w.Contains x → ∀ n, x.asNumber? = some n → P n :=
  forall_contains_of_sameData h hdata fun hself n hn => hself n (by rwa [asNumber?, ← hdata.2])

/-- What holds of a value whenever it holds of everything directly inside holds of every value. -/
@[elab_as_elim]
theorem induction_parts {P : Value → Prop} (step : ∀ v, (∀ w ∈ parts v.content, P w) → P v)
    (v : Value) : P v := by
  induction v using Value.induction with
  | null | unknown | bool | number | string | capsule => exact step _ nofun
  | items ty vs m ih => exact step _ ih
  | entries ty es m ih => exact step _ (List.forall_mem_map.mpr ih)

/-! ### Slots -/

theorem InSlot.of_same {v : Value} {slot : Ty} (h : v.ty.same slot) : v.InSlot slot := .inr h

theorem InSlot.of_isDynamic {v : Value} {slot : Ty} (h : slot.isDynamic) : v.InSlot slot := .inl h

theorem InSlot.of_ty_eq {v : Value} {slot : Ty} (hslot : slot.WellFormed) (h : v.ty = slot) :
    v.InSlot slot := .inr (h ▸ hslot.same_refl)

theorem InSlot.same {v : Value} {slot : Ty} (h : v.InSlot slot) (hslot : slot.isDynamic = false) :
    v.ty.same slot := h.resolve_left (by simp [hslot])

theorem InSlot.of_sameData {v w : Value} {slot : Ty} (h : SameData w v) (hv : v.InSlot slot) :
    w.InSlot slot := by
  rwa [InSlot, h.1]

namespace WellFormed

variable {v w : Value} {ty : Ty}

/-- The type of a well-formed value is well-formed. -/
theorem type_wellFormed (h : v.WellFormed) : v.ty.WellFormed := by
  cases h with
  | null type | unknown type => exact type
  | bool => exact .bool
  | number => exact .number
  | string => exact .string
  | capsule => exact .capsule
  | list type => exact .list type
  | set type => exact .set type
  | map type => exact .map type
  | tuple types => exact .tuple types
  | object type => exact type

/-- Known values are never of type `dynamic`. -/
theorem isDynamic_eq_false (h : v.WellFormed) (hknown : v.isKnown) : v.ty.isDynamic = false := by
  cases h <;> first | rfl | simp [isKnown, isNull, isUnknown] at hknown

/-- What a well-formed list, set or tuple holds is well-formed. -/
theorem of_mem_items {vs : List Value} {m : Marks} (h : WellFormed ⟨ty, .items vs, m⟩)
    (hv : v ∈ vs) : v.WellFormed := by
  cases h with
  | list _ elems | set _ elems | tuple _ elems => exact elems v hv

/-- What a well-formed map or object holds is well-formed. -/
theorem of_mem_entries {es : Entries Value} {m : Marks} (h : WellFormed ⟨ty, .entries es, m⟩)
    {e : String × Value} (he : e ∈ es) : e.2.WellFormed := by
  cases h with
  | map _ elems | object _ elems => exact elems e he

/-- What stands directly inside a well-formed value is well-formed. -/
theorem of_mem_parts {v w : Value} (h : v.WellFormed) (hw : w ∈ parts v.content) :
    w.WellFormed := by
  obtain ⟨ty, content, marks⟩ := v
  cases content with
  | items vs => exact h.of_mem_items hw
  | entries es =>
    obtain ⟨e, he, rfl⟩ := List.mem_map.mp hw
    exact h.of_mem_entries he
  | null | unknown | bool | number | string | capsule => cases hw

theorem of_contains {v w : Value} (h : v.WellFormed) (hw : v.Contains w) :
    w.WellFormed := by
  induction hw with
  | self => exact h
  | inside _ hx ih => exact ih.of_mem_parts hx

/-- Own marks do not matter. -/
theorem of_sameData (h : v.WellFormed) (hdata : SameData w v) : w.WellFormed := by
  obtain ⟨t, c, m⟩ := w
  obtain ⟨rfl, rfl⟩ := hdata
  cases h <;> constructor <;> assumption

theorem withMarks (h : v.WellFormed) (m : Marks) : (v.withMarks m).WellFormed :=
  h.of_sameData (.withMarks v m)

end WellFormed

/-! ### Marks inside -/

theorem InSlot.withoutMarks {slot : Ty} {v : Value} (h : v.InSlot slot) :
    v.withoutMarks.InSlot slot := by
  rwa [InSlot, withoutMarks_ty]

/-- A well-formed value is so without its marks. -/
theorem WellFormed.withoutMarks {v : Value} (h : v.WellFormed) : v.withoutMarks.WellFormed := by
  induction h with
  | null type => exact .null type
  | unknown type retained start => exact .unknown type retained start
  | bool => exact .bool
  | number => exact .number
  | string => exact .string
  | capsule => exact .capsule
  | list type _ slots known ih =>
    rw [Value.withoutMarks, withoutMarksEach_eq_map]
    refine .list type ?_ ?_ ?_ <;> simp only [List.mem_map] <;> rintro _ ⟨v, hv, rfl⟩
    · exact ih v hv
    · exact (slots v hv).withoutMarks
    · rw [isUnknown_withoutMarks, known v hv]
  | set type _ slots known order ih =>
    rw [Value.withoutMarks, withoutMarksEach_eq_map]
    refine .set type ?_ ?_ ?_ order.withoutMarks <;> simp only [List.mem_map] <;>
      rintro _ ⟨v, hv, rfl⟩
    · exact ih v hv
    · exact (slots v hv).withoutMarks
    · rw [isUnknown_withoutMarks, known v hv]
  | tuple types _ slots ih =>
    rw [Value.withoutMarks, withoutMarksEach_eq_map]
    refine .tuple types ?_ (List.forall₂_map_left_iff.mpr (slots.imp fun _ _ => .withoutMarks))
    simp only [List.mem_map]
    rintro _ ⟨v, hv, rfl⟩
    exact ih v hv
  | map type _ slots known keys composed ih =>
    rw [Value.withoutMarks, withoutMarksEntries_eq_map]
    refine .map type ?_ ?_ ?_ ?_ ?_ <;> simp only [List.mem_map, List.map_map]
    · rintro _ ⟨e, he, rfl⟩
      exact ih e he
    · rintro _ ⟨e, he, rfl⟩
      exact (slots e he).withoutMarks
    · rintro _ ⟨e, he, rfl⟩
      rw [isUnknown_withoutMarks, known e he]
    · exact keys
    · rintro _ ⟨e, he, rfl⟩
      exact composed e he
  | object type _ keys slots ih =>
    rw [Value.withoutMarks, withoutMarksEntries_eq_map]
    refine .object type ?_ ?_ ?_ <;> simp only [List.mem_map, List.map_map]
    · rintro _ ⟨e, he, rfl⟩
      exact ih e he
    · exact keys
    · rintro _ ⟨e, he, rfl⟩ a ha
      exact (slots e he a ha).withoutMarks

/-! ### Containers -/

/-- Elements that fill the slots of a list, set or tuple. -/
def Fills (ty : Ty) (vs : List Value) : Prop :=
  match ty with
  | .list t | .set t => ∀ v ∈ vs, v.InSlot t
  | .tuple ts => List.Forall₂ InSlot vs ts
  | _ => False

@[simp] theorem collapsed_ty (ty : Ty) (vs : List Value) : (collapsed ty vs).ty = ty := rfl

@[simp] theorem sequence_ty (ty : Ty) (vs : List Value) : (sequence ty vs).ty = ty := by
  unfold sequence
  split
  · split <;> rfl
  · split <;> rfl
  · rfl

@[simp] theorem mapping_ty (ty : Ty) (es : Entries Value) : (mapping ty es).ty = ty := by
  rw [mapping]
  split <;> rfl

namespace WellFormed

variable {ty : Ty} {vs : List Value} {es : Entries Value}

theorem unknownRefined (hty : ty.WellFormed) {r : Refinement} (hstart : r.StartKept) :
    (unknownRefined ty r).WellFormed :=
  .unknown hty (Refinement.retainFor_retainFor r ty) (hstart.retainFor ty)

theorem plainUnknown (hty : ty.WellFormed) : (Value.unknown ty).WellFormed := by
  have hnone : Refinement.none.retainFor ty = Refinement.none := by cases ty <;> rfl
  exact .unknown hty hnone (Refinement.startKept_of_eq_none rfl)

theorem collapsed (hty : ty.WellFormed) (vs : List Value) : (collapsed ty vs).WellFormed := by
  refine (WellFormed.unknownRefined hty (Refinement.startKept_of_eq_none ?_)).withMarks _
  split <;> rfl

/-- Well-formed elements in the slots of a list, set or tuple make a well-formed one. -/
theorem sequence (hty : ty.WellFormed) (hfills : Fills ty vs) (h : ∀ v ∈ vs, v.WellFormed) :
    (sequence ty vs).WellFormed := by
  cases ty with
  | list t =>
    rw [Value.sequence]
    split
    · exact .collapsed hty vs
    · rename_i hany
      cases hty with
      | list ht => exact .list ht h hfills (by simpa using hany)
  | set t =>
    rw [Value.sequence]
    split
    · exact .collapsed hty vs
    · rename_i hany
      cases hty with
      | set ht =>
        -- Canonical elements are given ones, up to own marks.
        refine .set ht (fun v hv => ?_) (fun v hv => ?_) (fun v hv => ?_)
          (inSetOrder_canonicalSet vs)
        all_goals obtain ⟨w, hw, hdata⟩ := exists_of_mem_canonicalSet hv
        · exact (h w hw).of_sameData hdata
        · exact (hfills w hw).of_sameData hdata
        · have hknown : w.isUnknown = false := by
            simpa using fun hunknown => hany (List.any_eq_true.mpr ⟨w, hw, hunknown⟩)
          rw [← hknown, isUnknown, isUnknown, hdata.2]
  | tuple ts =>
    cases hty with
    | tuple hts => exact .tuple hts h hfills
  | _ => exact hfills.elim

/-- Well-formed values under keys in order and in composed form make a well-formed map. -/
theorem mapping_map {t : Ty} (ht : t.WellFormed) (h : ∀ e ∈ es, e.2.WellFormed)
    (hslots : ∀ e ∈ es, e.2.InSlot t) (hkeys : (es.map (·.1)).Pairwise (· < ·))
    (hcomposed : ∀ e ∈ es, Text.nfc e.1 = e.1) : (mapping (.map t) es).WellFormed := by
  rw [mapping]
  split
  · exact .collapsed (.map ht) _
  · rename_i hany
    refine .map ht h hslots (fun e he => ?_) hkeys hcomposed
    simp only [Ty.isCollection, Bool.true_and, List.any_eq_true, List.mem_map, not_exists,
      not_and, Bool.not_eq_true] at hany
    exact hany e.2 ⟨e, he, rfl⟩

/-- Well-formed values under the declared names make a well-formed object. -/
theorem mapping_object {attrs : List (Attr Ty)} (hty : (Ty.object attrs).WellFormed)
    (h : ∀ e ∈ es, e.2.WellFormed) (hkeys : es.map (·.1) = Attr.sortedNames attrs)
    (hslots : ∀ e ∈ es, ∀ a, Attr.find? attrs e.1 = some a → e.2.InSlot a.ty) :
    (mapping (.object attrs) es).WellFormed :=
  .object hty h hkeys hslots

/-! ### Nulls and unknowns of other types -/

/-- Nulls and unknowns stay well-formed under another type, which they then have. -/
theorem retype? {v w : Value} (h : v.WellFormed) (hty : ty.WellFormed)
    (hw : v.retype? ty = some w) : w.WellFormed ∧ w.ty = ty := by
  cases h with
  | null =>
    simp only [Value.retype?, Option.some.injEq] at hw
    subst hw
    exact ⟨.null hty, rfl⟩
  | unknown type retained start =>
    simp only [Value.retype?, Option.some.injEq] at hw
    subst hw
    refine ⟨?_, rfl⟩
    have hstart := start.retainFor ty
    split
    · exact .unknown hty (Refinement.retainFor_capLengthLower _ ty 1) hstart
    · exact .unknown hty (Refinement.retainFor_retainFor _ ty) hstart
  | _ => simp [Value.retype?] at hw

end WellFormed

end Value

end TypedData
