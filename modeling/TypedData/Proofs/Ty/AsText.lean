import TypedData.Proofs.Ty.Convertible
import TypedData.Proofs.Value.Slots

/-!
# Types of texts

Booleans and numbers have texts. A type becomes a type of texts when strings take their places in
it, and it is convertible to the type of its texts and back. The containers stay as they are, so
each place goes over to the place of its texts.

## Main definitions

* `Ty.asText` — a type with strings in place of booleans and numbers

## Main results

* `Ty.WellFormed.convertible_asText` — types are convertible to their types of texts and back
* `Value.slots?_asText`, `Value.slotOf?_asText` — the places of texts
-/

namespace TypedData

namespace Ty

variable {t : Ty} {ts : List Ty} {attrs : List (Attr Ty)}

mutual

/-- A type with strings in place of booleans and numbers. -/
def asText : Ty → Ty
  | bool | number | string => string
  | dynamic => dynamic
  | list t => list t.asText
  | set t => set t.asText
  | map t => map t.asText
  | tuple ts => tuple (asTextEach ts)
  | object attrs => object (asTextAttrs attrs)
  | capsule kind => capsule kind

/-- Several types with strings in place of booleans and numbers. -/
def asTextEach : List Ty → List Ty
  | [] => []
  | t :: ts => t.asText :: asTextEach ts

/-- Several attributes with strings in place of booleans and numbers. -/
def asTextAttrs : List (Attr Ty) → List (Attr Ty)
  | [] => []
  | ⟨name, t, o⟩ :: attrs => ⟨name, t.asText, o⟩ :: asTextAttrs attrs

end

theorem asTextEach_eq_map (ts : List Ty) : asTextEach ts = ts.map asText := by
  induction ts with
  | nil => rfl
  | cons t ts ih => rw [asTextEach, ih, List.map_cons]

theorem asTextAttrs_eq_map (attrs : List (Attr Ty)) :
    asTextAttrs attrs = attrs.map fun a => ⟨a.name, a.ty.asText, a.isOptional⟩ := by
  induction attrs with
  | nil => rfl
  | cons a attrs ih => rw [asTextAttrs, ih, List.map_cons]

@[simp] theorem isDynamic_asText (t : Ty) : t.asText.isDynamic = t.isDynamic := by
  cases t <;> rfl

@[simp] theorem isSet_asText (t : Ty) : t.asText.isSet = t.isSet := by
  cases t <;> rfl

/-- What is directly inside a type of texts are types of texts. -/
theorem parts_asText (t : Ty) : t.asText.parts = t.parts.map asText := by
  cases t with
  | tuple ts => exact asTextEach_eq_map ts
  | object attrs => simp [asText, parts, asTextAttrs_eq_map]
  | _ => rfl

theorem names_asTextAttrs (attrs : List (Attr Ty)) :
    (asTextAttrs attrs).map (·.name) = attrs.map (·.name) := by
  simp [asTextAttrs_eq_map]

theorem find?_asTextAttrs (attrs : List (Attr Ty)) (name : String) :
    Attr.find? (asTextAttrs attrs) name =
      (Attr.find? attrs name).map fun a => ⟨a.name, a.ty.asText, a.isOptional⟩ := by
  rw [asTextAttrs_eq_map, Attr.find?, List.find?_map]
  rfl

theorem WellFormed.asText (ht : t.WellFormed) : t.asText.WellFormed := by
  induction ht with
  | bool | number | string => exact .string
  | dynamic => exact .dynamic
  | capsule => exact .capsule
  | list _ ih => exact .list ih
  | set _ ih => exact .set ih
  | map _ ih => exact .map ih
  | @tuple ts _ ih =>
    rw [Ty.asText, asTextEach_eq_map]
    exact .tuple (List.forall_mem_map.mpr ih)
  | @object attrs names composed types ih =>
    refine .object ((names_asTextAttrs attrs).symm ▸ names) ?_ ?_ <;>
      rw [asTextAttrs_eq_map, List.forall_mem_map]
    · exact composed
    · exact ih

/-- A type is convertible to the type of its texts and back. -/
theorem WellFormed.convertible_asText (ht : t.WellFormed) :
    t.convertible t.asText ∧ t.asText.convertible t := by
  induction ht with
  | bool | number | string | dynamic => exact ⟨rfl, rfl⟩
  | @capsule kind =>
    have hself : (Ty.capsule kind).convertible (Ty.capsule kind) :=
      Ty.convertible_of_same WellFormed.capsule.same_refl
    exact ⟨hself, hself⟩
  | list _ ih | set _ ih | map _ ih =>
    exact ⟨(convertible_iff_of_element? (by rfl) (by rfl) (by rfl)).mpr ih.1,
      (convertible_iff_of_element? (by rfl) (by rfl) (by rfl)).mpr ih.2⟩
  | @tuple ts _ ih =>
    rw [Ty.asText, asTextEach_eq_map, convertible_tuple_tuple, convertible_tuple_tuple,
      List.forall₂_map_left_iff, List.forall₂_map_right_iff, List.forall₂_same, List.forall₂_same]
    exact ⟨fun t ht => (ih t ht).1, fun t ht => (ih t ht).2⟩
  | @object attrs names composed types ih =>
    have hattrs : Attr.WellFormed attrs := ⟨names, composed, types⟩
    have htexts := Attr.WellFormed.of_object (WellFormed.object names composed types).asText
    rw [Ty.asText, convertible_object_object hattrs htexts,
      convertible_object_object htexts hattrs]
    -- Each side has just the attributes that the other asks for.
    refine ⟨fun b hb => .inl ?_, fun a ha => .inl ?_⟩
    · rw [asTextAttrs_eq_map] at hb
      obtain ⟨a, ha, rfl⟩ := List.mem_map.mp hb
      exact ⟨a, Attr.find?_eq_some_of_mem names ha, (ih a ha).1⟩
    · exact ⟨_, by rw [find?_asTextAttrs, Attr.find?_eq_some_of_mem names ha, Option.map_some],
        (ih a ha).2⟩

end Ty

namespace Value

theorem slots?_asText (t : Ty) (n : Nat) :
    slots? t.asText n = (slots? t n).map fun ts => ts.map Ty.asText := by
  cases t with
  | list t | set t => simp [Ty.asText, slots?]
  | tuple ts =>
    rw [Ty.asText, slots?, slots?, Ty.asTextEach_eq_map, List.length_map]
    split <;> rfl
  | _ => rfl

theorem slotOf?_asText (t : Ty) (key : String) :
    slotOf? t.asText key = (slotOf? t key).map Ty.asText := by
  cases t with
  | object attrs =>
    rw [Ty.asText, slotOf?, slotOf?, Ty.find?_asTextAttrs, Option.map_map, Option.map_map]
    rfl
  | _ => rfl

end Value

end TypedData
