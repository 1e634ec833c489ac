import Mathlib.Data.List.Sort
import TypedData.Proofs.Value.Members

/-!
# Slots of equal types

The members of a well-formed value stand in slots of its type. They may equally stand in the
slots of any equal type, which are there at the same places and under the same keys.

## Main definitions

* `Value.slotOf?` — the type of the place under a key
* `Ty.Plain` — types with neither `dynamic` nor capsules inside
* `Value.CapsuleFree` — values without capsules inside

## Main results

* `Value.WellFormed.exists_slots`, `Value.WellFormed.exists_slotOf` — members and their slots
* `Value.exists_slots_of_same`, `Value.exists_slotOf_of_same` — the slots of equal types are equal
* `Value.WellFormed.plain_of_contains` — what stands in a value of plain type has plain type
-/

namespace TypedData

namespace Ty

variable {t u : Ty}

/-- The types directly inside a type. -/
def parts : Ty → List Ty
  | list t | set t | map t => [t]
  | tuple ts => ts
  | object attrs => attrs.map (·.ty)
  | _ => []

/-- The types directly inside a well-formed type are well-formed. -/
theorem WellFormed.of_mem_parts (ht : t.WellFormed) (hu : u ∈ t.parts) : u.WellFormed := by
  cases ht with
  | bool | number | string | dynamic | capsule => cases hu
  | list elem | set elem | map elem => exact List.mem_singleton.mp hu ▸ elem
  | tuple elems => exact elems u hu
  | object _ _ types =>
    obtain ⟨a, ha, rfl⟩ := List.mem_map.mp hu
    exact types a ha

/-- A type with neither `dynamic` nor capsule types inside. -/
structure Plain (t : Ty) : Prop where
  noDynamic : t.hasDynamic = false
  noCapsule : t.hasCapsule = false

theorem isDynamic_of_hasDynamic (h : t.hasDynamic = false) : t.isDynamic = false := by
  cases t <;> first | rfl | cases h

theorem hasDynamic_of_mem_parts (h : t.hasDynamic = false) (hu : u ∈ t.parts) :
    u.hasDynamic = false := by
  cases t <;>
    simp_all [parts, hasDynamic, anyDynamic_eq_any, anyDynamicAttr_eq_any]
  obtain ⟨a, ha, rfl⟩ := hu
  exact h a ha

theorem hasCapsule_of_mem_parts (h : t.hasCapsule = false) (hu : u ∈ t.parts) :
    u.hasCapsule = false := by
  cases t <;>
    simp_all [parts, hasCapsule, anyCapsule_eq_any, anyCapsuleAttr_eq_any]
  obtain ⟨a, ha, rfl⟩ := hu
  exact h a ha

theorem Plain.of_mem_parts (h : t.Plain) (hu : u ∈ t.parts) : u.Plain :=
  ⟨hasDynamic_of_mem_parts h.noDynamic hu, hasCapsule_of_mem_parts h.noCapsule hu⟩

theorem Plain.of_same (h : t.Plain) (hu : u.WellFormed) (ht : t.WellFormed) (hsame : u.same t) :
    u.Plain :=
  ⟨(hu.hasDynamic_of_same ht hsame).trans h.noDynamic,
    (hu.hasCapsule_of_same ht hsame).trans h.noCapsule⟩

theorem Plain.isDynamic_eq_false (h : t.Plain) : t.isDynamic = false :=
  isDynamic_of_hasDynamic h.noDynamic

end Ty

namespace Value

variable {s t : Ty}

/-! ### Equal slots -/

theorem isDynamic_of_same (h : s.same t) : s.isDynamic = t.isDynamic := by
  cases s <;> cases t <;> first | rfl | simp [Ty.same] at h

theorem isCollection_of_same (h : s.same t) : s.isCollection = t.isCollection := by
  cases s <;> cases t <;> first | rfl | simp [Ty.same] at h

/-- A primitive type equals itself only. -/
theorem eq_of_same_of_isPrimitive (hs : s.isPrimitive) (h : s.same t) : t = s := by
  cases s <;> cases hs <;> cases t <;> first | rfl | cases h

/-- A value stands in a slot as well as in any equal one. -/
theorem InSlot.trans_same {v : Value} (h : v.InSlot s) (hv : v.ty.WellFormed) (hst : s.same t) :
    v.InSlot t := by
  rcases h with h | h
  · exact .of_isDynamic (isDynamic_of_same hst ▸ h)
  · exact .of_same (hv.same_trans h hst)

/-! ### Places of elements -/

/-- Elements of equal types have equal places. -/
theorem exists_slots_of_same {n : Nat} {ss : List Ty} (h : s.same t) (hss : slots? s n = some ss) :
    ∃ ts, slots? t n = some ts ∧ List.Forall₂ (fun s t => s.same t) ss ts := by
  unfold slots? at hss
  split at hss
  · cases t <;> simp only [Ty.same, Bool.false_eq_true] at h
    obtain rfl := Option.some.inj hss
    exact ⟨_, rfl, List.forall₂_iff_get.mpr ⟨by simp, fun i _ _ => by simpa using h⟩⟩
  · cases t <;> simp only [Ty.same, Bool.false_eq_true] at h
    obtain rfl := Option.some.inj hss
    exact ⟨_, rfl, List.forall₂_iff_get.mpr ⟨by simp, fun i _ _ => by simpa using h⟩⟩
  · split at hss
    · rename_i hlength
      obtain rfl := Option.some.inj hss
      cases t <;> simp only [Ty.same, Bool.false_eq_true, Ty.sameEach_iff] at h
      exact ⟨_, if_pos (hlength.trans h.length_eq), h⟩
    · cases hss
  · cases hss

/-- The elements of a well-formed value stand in the slots of its type. -/
theorem WellFormed.exists_slots {vs : List Value} {m : Marks} (h : WellFormed ⟨t, .items vs, m⟩) :
    ∃ ts, slots? t vs.length = some ts ∧ List.Forall₂ InSlot vs ts ∧ ∀ t ∈ ts, t.WellFormed := by
  cases h with
  | @list t _ _ type _ slots | @set t _ _ type _ slots =>
    refine ⟨_, rfl, ?_, fun u hu => List.eq_of_mem_replicate hu ▸ type⟩
    exact List.forall₂_iff_get.mpr ⟨by simp, fun i hi _ => by
      simpa using slots _ (List.getElem_mem hi)⟩
  | tuple types _ slots => exact ⟨_, if_pos slots.length_eq, slots, types⟩

/-- They also stand in the slots of every equal type. -/
theorem WellFormed.exists_slots_of_same {vs : List Value} {m : Marks}
    (h : WellFormed ⟨s, .items vs, m⟩) (ht : t.WellFormed) (hst : s.same t) :
    ∃ ts, slots? t vs.length = some ts ∧ List.Forall₂ InSlot vs ts ∧ ∀ t ∈ ts, t.WellFormed := by
  obtain ⟨ss, hss, hin, -⟩ := h.exists_slots
  obtain ⟨ts, hts, hsame⟩ := Value.exists_slots_of_same hst hss
  refine ⟨ts, hts, ?_, (fills_of_slots? ht hts).2.1⟩
  rw [List.forall₂_iff_get] at hin hsame ⊢
  refine ⟨hin.1.trans hsame.1, fun i hi hi' => ?_⟩
  have hv := (h.of_mem_items (List.get_mem vs ⟨i, hi⟩)).type_wellFormed
  exact (hin.2 i hi (hsame.1 ▸ hi')).trans_same hv (hsame.2 i (hsame.1 ▸ hi') hi')

/-- What has places for elements is not `dynamic`. -/
theorem isDynamic_of_slots? {n : Nat} {ts : List Ty} (h : slots? t n = some ts) :
    t.isDynamic = false := by
  cases t <;> first | rfl | cases h

theorem length_of_slots? {n : Nat} {ts : List Ty} (h : slots? t n = some ts) : n = ts.length := by
  unfold slots? at h
  split at h
  · obtain rfl := Option.some.inj h
    simp
  · obtain rfl := Option.some.inj h
    simp
  · split at h
    · obtain rfl := Option.some.inj h
      assumption
    · cases h
  · cases h

theorem mem_parts_of_slots? {n : Nat} {ts : List Ty} {u : Ty} (h : slots? t n = some ts)
    (hu : u ∈ ts) : u ∈ t.parts := by
  unfold slots? at h
  split at h
  · obtain rfl := Option.some.inj h
    simp [Ty.parts, List.eq_of_mem_replicate hu]
  · obtain rfl := Option.some.inj h
    simp [Ty.parts, List.eq_of_mem_replicate hu]
  · split at h
    · obtain rfl := Option.some.inj h
      exact hu
    · cases h
  · cases h

/-- Collections have no unknown elements. -/
theorem WellFormed.isUnknown_parts {v w : Value} (h : v.WellFormed) (hv : v.ty.isCollection)
    (hw : w ∈ parts v.content) : w.isUnknown = false := by
  cases h with
  | list _ _ _ known => exact known w hw
  | set _ _ _ known => exact known w hw
  | map _ _ _ known =>
    obtain ⟨e, he, rfl⟩ := List.mem_map.mp hw
    exact known e he
  | tuple | object => cases hv
  | null | unknown | bool | number | string | capsule => cases hw

/-! ### Places under keys -/

/-- The type of the place under a key. -/
def slotOf? (ty : Ty) (key : String) : Option Ty :=
  match ty with
  | .map t => some t
  | .object attrs => (Attr.find? attrs key).map (·.ty)
  | _ => none

/-- An object has places for its attributes. -/
theorem slotOf?_object {attrs : List (Attr Ty)} {a : Attr Ty} (hnames : (attrs.map (·.name)).Nodup)
    (ha : a ∈ attrs) : slotOf? (.object attrs) a.name = some a.ty := by
  rw [slotOf?, Attr.find?_eq_some_of_mem hnames ha, Option.map_some]

theorem mem_parts_of_slotOf? {key : String} {u : Ty} (h : slotOf? t key = some u) :
    u ∈ t.parts := by
  unfold slotOf? at h
  split at h
  · obtain rfl := Option.some.inj h
    simp [Ty.parts]
  · obtain ⟨a, ha, rfl⟩ := Option.map_eq_some_iff.mp h
    exact List.mem_map_of_mem (Attr.mem_of_find? ha)
  · cases h

/-- Values of equal types have equal places under each key. -/
theorem exists_slotOf_of_same {key : String} {u : Ty} (h : s.same t)
    (hu : slotOf? s key = some u) : ∃ u', slotOf? t key = some u' ∧ u.same u' := by
  unfold slotOf? at hu
  split at hu
  · cases t <;> simp only [Ty.same, Bool.false_eq_true] at h
    obtain rfl := Option.some.inj hu
    exact ⟨_, rfl, h⟩
  · cases t <;> simp only [Ty.same, Bool.false_eq_true, Bool.and_eq_true] at h
    obtain ⟨a, ha, rfl⟩ := Option.map_eq_some_iff.mp hu
    obtain ⟨b, hb, hty, -⟩ := Ty.sameAttrs_iff.mp h.2 a (Attr.mem_of_find? ha)
    rw [Attr.name_of_find? ha] at hb
    exact ⟨b.ty, by simp [slotOf?, hb], hty⟩
  · cases hu

theorem slotOf?_wellFormed {key : String} {u : Ty} (ht : t.WellFormed)
    (hu : slotOf? t key = some u) : u.WellFormed := by
  unfold slotOf? at hu
  cases ht with
  | map ht => exact Option.some.inj hu ▸ ht
  | object _ _ types =>
    obtain ⟨a, ha, rfl⟩ := Option.map_eq_some_iff.mp hu
    exact types a (Attr.mem_of_find? ha)
  | _ => cases hu

/-- The entries of a well-formed value stand in the slots of its type. -/
theorem WellFormed.exists_slotOf {es : Entries Value} {m : Marks}
    (h : WellFormed ⟨t, .entries es, m⟩) {e : String × Value} (he : e ∈ es) :
    ∃ u, slotOf? t e.1 = some u ∧ e.2.InSlot u := by
  cases h with
  | map _ _ slots => exact ⟨_, rfl, slots e he⟩
  | @object attrs _ _ _ _ keys slots =>
    have hmem : e.1 ∈ attrs.map (·.name) := by
      have : e.1 ∈ es.map (·.1) := List.mem_map_of_mem he
      rwa [keys, Attr.sortedNames, List.mem_mergeSort] at this
    obtain ⟨a, ha⟩ := Option.isSome_iff_exists.mp (Attr.find?_isSome_iff.mpr hmem)
    exact ⟨a.ty, by simp [slotOf?, ha], slots e he a ha⟩

/-- They also stand in the slots of every equal type. -/
theorem WellFormed.exists_slotOf_of_same {es : Entries Value} {m : Marks}
    (h : WellFormed ⟨s, .entries es, m⟩) (ht : t.WellFormed) (hst : s.same t)
    {e : String × Value} (he : e ∈ es) :
    ∃ u, slotOf? t e.1 = some u ∧ e.2.InSlot u ∧ u.WellFormed := by
  obtain ⟨u, hu, hin⟩ := h.exists_slotOf he
  obtain ⟨u', hu', hsame⟩ := Value.exists_slotOf_of_same hst hu
  exact ⟨u', hu', hin.trans_same (h.of_mem_entries he).type_wellFormed hsame,
    slotOf?_wellFormed ht hu'⟩

/-- Equal objects declare the same names. -/
theorem sortedNames_eq_of_same {as bs : List (Attr Ty)} (names : (as.map (·.name)).Nodup)
    (names' : (bs.map (·.name)).Nodup) (hlength : as.length = bs.length)
    (hsame : Ty.sameAttrs as bs) : Attr.sortedNames as = Attr.sortedNames bs := by
  refine (pairwise_lt_mergeSort names).eq_of_mem_iff (pairwise_lt_mergeSort names') fun name => ?_
  rw [List.mem_mergeSort, Attr.sortedNames, List.mem_mergeSort]
  refine ⟨fun hmem => ?_, Ty.mem_names_of_sameAttrs names hlength hsame⟩
  obtain ⟨a, ha, rfl⟩ := List.mem_map.mp hmem
  obtain ⟨b, hb, -⟩ := Ty.sameAttrs_iff.mp hsame a ha
  exact Attr.find?_isSome_iff.mp (hb ▸ rfl)

/-- A well-formed object has the declared names of every equal type. -/
theorem WellFormed.keys_of_same_object {es : Entries Value} {m : Marks} {attrs : List (Attr Ty)}
    (h : WellFormed ⟨s, .entries es, m⟩) (hattrs : (Ty.object attrs).WellFormed)
    (hst : s.same (.object attrs)) : es.map (·.1) = Attr.sortedNames attrs := by
  have hnames := (Attr.WellFormed.of_object hattrs).names
  cases h with
  | map => cases hst
  | @object attrs' _ _ type _ keys _ =>
    simp only [Ty.same, Bool.and_eq_true, beq_iff_eq] at hst
    have hnames' := (Attr.WellFormed.of_object type).names
    rw [keys, sortedNames_eq_of_same hnames' hnames hst.1 hst.2]

/-- Its keys are then declared there. -/
theorem WellFormed.mem_names_of_same_object {es : Entries Value} {m : Marks}
    {attrs : List (Attr Ty)} (h : WellFormed ⟨s, .entries es, m⟩)
    (hattrs : (Ty.object attrs).WellFormed) (hst : s.same (.object attrs)) :
    ∀ k ∈ es.map (·.1), k ∈ attrs.map (·.name) := by
  rw [h.keys_of_same_object hattrs hst, Attr.sortedNames]
  exact fun k hk => List.mem_mergeSort.mp hk

/-! ### Capsules -/

/-- A value without capsules inside. Types may still speak of them, where a null or an unknown or
no element stands for one. -/
def CapsuleFree (v : Value) : Prop := ∀ w, v.Contains w → ∀ h, w.content ≠ .capsule h

theorem CapsuleFree.of_mem_parts {v w : Value} (h : v.CapsuleFree) (hw : w ∈ parts v.content) :
    w.CapsuleFree :=
  fun x hx => h x (.of_mem_parts hw hx)

theorem capsuleFree_iff {v : Value} : v.CapsuleFree ↔
    (∀ h, v.content ≠ .capsule h) ∧ ∀ x ∈ parts v.content, x.CapsuleFree :=
  forall_contains_iff

/-! ### Plain types -/

/-- What stands directly inside stands in a slot whose type is part of every type that equals the
whole's. -/
theorem WellFormed.exists_slot_of_mem_parts {v w : Value} (h : v.WellFormed) (ht : t.WellFormed)
    (hsame : v.ty.same t) (hw : w ∈ parts v.content) :
    ∃ u ∈ t.parts, u.WellFormed ∧ w.InSlot u := by
  obtain ⟨own, content, marks⟩ := v
  cases content with
  | items vs =>
    obtain ⟨ts, hts, hin, hwell⟩ := h.exists_slots_of_same ht hsame
    obtain ⟨u, hu, hwu⟩ := hin.exists_of_mem_left hw
    exact ⟨u, mem_parts_of_slots? hts hu, hwell u hu, hwu⟩
  | entries es =>
    obtain ⟨e, he, rfl⟩ := List.mem_map.mp hw
    obtain ⟨u, hu, hin, hwell⟩ := h.exists_slotOf_of_same ht hsame he
    exact ⟨u, mem_parts_of_slotOf? hu, hwell, hin⟩
  | null | unknown | bool | number | string | capsule => cases hw

/-- Where the type has no `dynamic` inside, what stands directly inside has a type that equals one
of its parts. -/
theorem WellFormed.exists_same_of_mem_parts {v w : Value} (h : v.WellFormed)
    (hdynamic : v.ty.hasDynamic = false) (hw : w ∈ parts v.content) :
    ∃ u ∈ v.ty.parts, u.WellFormed ∧ w.ty.same u := by
  have hty := h.type_wellFormed
  obtain ⟨u, hu, hwell, hin⟩ := h.exists_slot_of_mem_parts hty hty.same_refl hw
  have hconcrete := Ty.isDynamic_of_hasDynamic (Ty.hasDynamic_of_mem_parts hdynamic hu)
  exact ⟨u, hu, hwell, hin.same hconcrete⟩

theorem WellFormed.hasDynamic_of_mem_parts {v w : Value} (h : v.WellFormed)
    (hdynamic : v.ty.hasDynamic = false) (hw : w ∈ parts v.content) : w.ty.hasDynamic = false := by
  obtain ⟨u, hu, hwell, hsame⟩ := h.exists_same_of_mem_parts hdynamic hw
  exact ((h.of_mem_parts hw).type_wellFormed.hasDynamic_of_same hwell hsame).trans
    (Ty.hasDynamic_of_mem_parts hdynamic hu)

/-- There is no `dynamic` inside the types of what stands in such a value. -/
theorem WellFormed.hasDynamic_of_contains {v w : Value} (h : v.WellFormed)
    (hdynamic : v.ty.hasDynamic = false) (hw : v.Contains w) : w.ty.hasDynamic = false := by
  induction hw with
  | self => exact hdynamic
  | inside hw hx ih => exact (h.of_contains hw).hasDynamic_of_mem_parts ih hx

/-- What stands in a value of plain type has plain type. -/
theorem WellFormed.plain_of_contains {v w : Value} (h : v.WellFormed) (hv : v.ty.Plain)
    (hw : v.Contains w) : w.ty.Plain := by
  induction hw with
  | self => exact hv
  | @inside w x hw hx ih =>
    have hwell := h.of_contains hw
    obtain ⟨u, hu, huwell, hsame⟩ := hwell.exists_same_of_mem_parts ih.noDynamic hx
    exact (ih.of_mem_parts hu).of_same (hwell.of_mem_parts hx).type_wellFormed huwell hsame

end Value

end TypedData
