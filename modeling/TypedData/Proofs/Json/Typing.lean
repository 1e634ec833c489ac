import Mathlib.Data.List.Nodup
import TypedData.Proofs.Inference
import TypedData.Proofs.Json.Induction
import TypedData.Proofs.Json.RoundTrip
import TypedData.Proofs.Ty.RoundTrip

/-!
# Types of JSON documents

A document has a type of its own, which is the one that is inferred for it as native data if the
limit on depth allows. The type asks for nothing that the document lacks: where several objects
share a type, that has the attributes which all of them have. So there may be attributes in a
document that the type at their place does not declare.

## Main definitions

* `Json.typeOf` — the type of a document
* `Json.Admissible` — documents whose numbers are within a limit and whose names stay apart
* `Json.Meets` — documents that have what a type asks for
* `Json.declared` — whether every attribute is declared by the type at its place

## Main results

* `Json.inferAt_ofJson` — the type of a document is the one that is inferred
* `Json.meets_typeOf` — a document has what its type asks for
-/

namespace TypedData.Json

/-! ### The type of a document -/

mutual

/-- The type of a document. -/
def typeOf : Json → Ty
  | null => .dynamic
  | bool _ => .bool
  | number _ => .number
  | string _ => .string
  | array js => .list (Ty.unify (typesOf js))
  | object fs => Ty.ofAttributes (typesOfFields fs)

/-- The types of several documents. -/
def typesOf : List Json → List Ty
  | [] => []
  | j :: js => j.typeOf :: typesOf js

/-- The types of several fields, by their names. -/
def typesOfFields : List (String × Json) → List (String × Ty)
  | [] => []
  | (k, j) :: fs => (k, j.typeOf) :: typesOfFields fs

end

theorem typesOf_eq_map (js : List Json) : typesOf js = js.map typeOf := by
  induction js with
  | nil => rfl
  | cons j js ih => rw [typesOf, ih, List.map_cons]

theorem typesOfFields_eq_map (fs : List (String × Json)) :
    typesOfFields fs = fs.map fun f => (f.1, f.2.typeOf) := by
  induction fs with
  | nil => rfl
  | cons f fs ih => rw [typesOfFields, ih, List.map_cons]

/-- Whether a document is nothing at all. -/
def isNull : Json → Bool
  | null => true
  | _ => false

/-- The type of a document says nothing only if the document does not either. -/
theorem isDynamic_typeOf (j : Json) : j.typeOf.isDynamic = j.isNull := by
  cases j <;> rfl

section Inference

open Native

variable {limit depth : Nat}

theorem inferEach_ofJsonItems {js : List Json}
    (h : ∀ j ∈ js, inferAt limit depth (ofJson j) = j.typeOf) :
    inferEach limit depth (ofJsonItems js) = typesOf js := by
  induction js with
  | nil => rfl
  | cons j js ih =>
    obtain ⟨hj, hjs⟩ := List.forall_mem_cons.mp h
    rw [ofJsonItems, inferEach, typesOf, hj, ih hjs]

theorem attributesOfKeys?_ofJsonFields {fs : List (String × Json)}
    (h : ∀ f ∈ fs, inferAt limit depth (ofJson f.2) = f.2.typeOf) :
    attributesOfKeys? (inferEntries limit depth (ofJsonFields fs)) = some (typesOfFields fs) := by
  induction fs with
  | nil => rfl
  | cons f fs ih =>
    obtain ⟨hf, hfs⟩ := List.forall_mem_cons.mp h
    simp only [ofJsonFields, inferEntries, attributesOfKeys?, asKey?, ih hfs, hf, typesOfFields,
      Option.bind_eq_bind, Option.bind_some]

/-- The type of a document is the one that is inferred, if that looks deep enough. -/
theorem inferAt_ofJson {j : Json} (hdepth : depth + j.nesting ≤ limit) :
    inferAt limit depth (ofJson j) = j.typeOf := by
  have hle : ¬ limit < depth := by omega
  induction j using Json.induction generalizing depth with
  | null | bool | string => rw [ofJson, inferAt, if_neg hle, typeOf]
  | number t =>
    rw [ofJson, ofJsonNumber]
    split <;> rw [inferAt, if_neg hle, typeOf]
  | array js ih =>
    rw [ofJson, inferAt, if_neg hle, typeOf, inferEach_ofJsonItems fun j hj => ?_]
    have := nesting_le_nestingOfItems hj
    rw [nesting] at hdepth
    exact ih j hj (by omega) (by omega)
  | object fs ih =>
    rw [ofJson, inferAt, if_neg hle, typeOf, inferMap,
      attributesOfKeys?_ofJsonFields fun f hf => ?_]
    have := nesting_le_nestingOfFields hf
    rw [nesting] at hdepth
    exact ih f hf (by omega) (by omega)

end Inference

/-! ### Admissible documents -/

/-- A document whose numbers are within a limit, and in whose objects names stay apart in composed
form. -/
inductive Admissible (limit : Nat) : Json → Prop
  | null : Admissible limit null
  | bool {b : Bool} : Admissible limit (bool b)
  | number {t : String} {n : Decimal} (value : Decimal.ofText t limit = .ok n) :
      Admissible limit (number t)
  | string {s : String} : Admissible limit (string s)
  | array {js : List Json} (items : ∀ j ∈ js, Admissible limit j) : Admissible limit (array js)
  | object {fs : List (String × Json)} (names : (fs.map fun f => Text.nfc f.1).Nodup)
      (values : ∀ f ∈ fs, Admissible limit f.2) : Admissible limit (object fs)

/-- The attributes of the type of an object. -/
def attributesOf (fs : List (String × Json)) : List (Attr Ty) :=
  fs.map fun f => ⟨Text.nfc f.1, f.2.typeOf, false⟩

/-- Where names stay apart, every field of an object is an attribute of its type. -/
theorem typeOf_object {fs : List (String × Json)}
    (names : (fs.map fun f => Text.nfc f.1).Nodup) :
    (object fs).typeOf = .object (attributesOf fs) := by
  have hcomposed (as : List (Attr Ty)) (f : String × Json) :
      Attr.declare as (Text.nfc f.1) f.2.typeOf =
        Attr.declare as (Text.nfc (Text.nfc f.1)) f.2.typeOf := by
    rw [Text.nfc_nfc]
  have hdeclared := @Attr.foldl_declare (fs.map fun f => (Text.nfc f.1, f.2.typeOf)) []
    (by simpa [Function.comp_def] using names)
    (by simp only [List.mem_map]; rintro _ ⟨f, -, rfl⟩; exact Text.nfc_nfc f.1)
  rw [List.foldl_map] at hdeclared
  rw [typeOf, typesOfFields_eq_map, Ty.ofAttributes, List.foldl_map]
  simp only [hcomposed, hdeclared, List.nil_append, List.map_map]
  rfl

/-- The type of a document is well-formed. -/
theorem wellFormed_typeOf (j : Json) : j.typeOf.WellFormed := by
  induction j using Json.induction with
  | null => exact .dynamic
  | bool => exact .bool
  | number => exact .number
  | string => exact .string
  | array js ih =>
    rw [typeOf, typesOf_eq_map]
    refine .list (Ty.wellFormed_unify fun t ht => ?_)
    obtain ⟨j, hj, rfl⟩ := List.mem_map.mp ht
    exact ih j hj
  | object fs ih =>
    rw [typeOf, typesOfFields_eq_map]
    refine Ty.wellFormed_ofAttributes fun a ha => ?_
    obtain ⟨f, hf, rfl⟩ := List.mem_map.mp ha
    exact ih f hf

variable {limit : Nat} {j : Json} {t u : Ty}

/-- Nothing may be left out in the type of an admissible document. -/
theorem Admissible.strict_typeOf (hj : j.Admissible limit) : j.typeOf.Strict := by
  induction hj with
  | null => exact .dynamic
  | bool => exact .bool
  | number => exact .number
  | string => exact .string
  | array _ ih =>
    rw [typeOf, typesOf_eq_map]
    refine .list (Ty.strict_unify fun t ht => ?_)
    obtain ⟨j, hj, rfl⟩ := List.mem_map.mp ht
    exact ih j hj
  | object names _ ih =>
    rw [typeOf_object names]
    refine .object (fun a ha => ?_) fun a ha => ?_
    all_goals obtain ⟨f, hf, rfl⟩ := List.mem_map.mp ha
    · rfl
    · exact ih f hf

/-! ### What a type asks for -/

/-- Whether a document has what a type asks for: it is of that kind, and every attribute is there,
at every depth. -/
inductive Meets : Ty → Json → Prop
  | dynamic {j : Json} : Meets .dynamic j
  | null {t : Ty} : Meets t null
  | bool {b : Bool} : Meets .bool (bool b)
  | number {s : String} : Meets .number (number s)
  | string {s : String} : Meets .string (string s)
  | array {t : Ty} {js : List Json} (items : ∀ j ∈ js, Meets t j) : Meets (.list t) (array js)
  | object {attrs : List (Attr Ty)} {fs : List (String × Json)}
      (present : ∀ a ∈ attrs, a.name ∈ fs.map fun f => Text.nfc f.1)
      (values : ∀ f ∈ fs, ∀ a, Attr.find? attrs (Text.nfc f.1) = some a → Meets a.ty f.2) :
      Meets (.object attrs) (object fs)

/-- What has what a type asks for has what a wider type asks for. -/
theorem Meets.of_usableAs (h : Meets t j) (huse : t.usableAs u) (hu : u.Strict) : Meets u j := by
  induction h generalizing u with
  | dynamic =>
    cases u <;> first | exact .dynamic | cases huse
  | null => exact .null
  | bool | number | string =>
    cases u <;> first | exact .dynamic | constructor | cases huse
  | array _ ih =>
    cases hu <;> first | exact .dynamic | cases huse | skip
    rename_i u hu
    exact .array fun j hj => ih j hj huse hu
  | @object as fs present _ ih =>
    cases hu <;> first | exact .dynamic | cases huse | skip
    rename_i bs required types
    -- Nothing is asked for but what the narrower type has.
    have hfound : ∀ b ∈ bs, ∃ a, Attr.find? as b.name = some a ∧ a.ty.usableAs b.ty := by
      intro b hb
      rcases Ty.usableAttrs_iff.mp huse b hb with ha | ⟨-, ho⟩
      · exact ha
      · rw [required b hb] at ho
        cases ho
    refine .object (fun b hb => ?_) fun f hf b hb => ?_
    · obtain ⟨a, ha, -⟩ := hfound b hb
      exact Attr.name_of_find? ha ▸ present a (Attr.mem_of_find? ha)
    · obtain ⟨a, ha, hab⟩ := hfound b (Attr.mem_of_find? hb)
      rw [Attr.name_of_find? hb] at ha
      exact ih f hf a ha hab (types b (Attr.mem_of_find? hb))

/-- A document has what its type asks for. -/
theorem Admissible.meets_typeOf (hj : j.Admissible limit) : Meets j.typeOf j := by
  induction hj with
  | null => exact .null
  | bool => exact .bool
  | number => exact .number
  | string => exact .string
  | @array js hjs ih =>
    rw [typeOf, typesOf_eq_map]
    have hwell : ∀ t ∈ js.map typeOf, t.WellFormed := by
      intro t ht
      obtain ⟨j, -, rfl⟩ := List.mem_map.mp ht
      exact wellFormed_typeOf j
    have hstrict : (Ty.unify (js.map typeOf)).Strict := by
      refine Ty.strict_unify fun t ht => ?_
      obtain ⟨j, hj, rfl⟩ := List.mem_map.mp ht
      exact (hjs j hj).strict_typeOf
    exact .array fun j hj =>
      (ih j hj).of_usableAs (Ty.usableAs_unify hwell (List.mem_map_of_mem hj)) hstrict
  | @object fs names _ ih =>
    rw [typeOf_object names]
    refine .object (fun a ha => ?_) fun f hf a ha => ?_
    · obtain ⟨f, hf, rfl⟩ := List.mem_map.mp ha
      exact List.mem_map_of_mem hf
    · obtain ⟨f', hf', rfl⟩ := List.mem_map.mp (Attr.mem_of_find? ha)
      obtain rfl := List.inj_on_of_nodup_map names hf' hf (Attr.name_of_find? ha)
      exact ih f' hf'

/-! ### Attributes that are declared -/

/-- The type at a place of a document. A place of type `dynamic` has the type of the document. -/
def placeType (ty : Ty) (j : Json) : Ty := ty.slotType j.typeOf

mutual

/-- Whether each attribute in a document is declared by the type at its place. -/
def declared (ty : Ty) : Json → Bool
  | array js => declaredItems ((placeType ty (array js)).element?.getD .dynamic) js
  | object fs => declaredFields ((placeType ty (object fs)).attributes?.getD []) fs
  | _ => true

/-- Whether each attribute in several items of one type is declared. -/
def declaredItems (ty : Ty) : List Json → Bool
  | [] => true
  | j :: js => declared ty j && declaredItems ty js

/-- Whether each of several fields, and each attribute in them, is declared. -/
def declaredFields (attrs : List (Attr Ty)) : List (String × Json) → Bool
  | [] => true
  | (k, j) :: fs =>
    (match Attr.find? attrs (Text.nfc k) with
      | some a => declared a.ty j
      | none => false) && declaredFields attrs fs

end

theorem declaredItems_iff {js : List Json} :
    declaredItems t js ↔ ∀ j ∈ js, declared t j := by
  induction js with
  | nil => simp [declaredItems]
  | cons j js ih => simp [declaredItems, ih]

theorem declaredFields_iff {attrs : List (Attr Ty)} {fs : List (String × Json)} :
    declaredFields attrs fs ↔
      ∀ f ∈ fs, ∃ a, Attr.find? attrs (Text.nfc f.1) = some a ∧ declared a.ty f.2 := by
  induction fs with
  | nil => simp [declaredFields]
  | cons f fs ih =>
    obtain ⟨k, j⟩ := f
    cases ha : Attr.find? attrs (Text.nfc k) <;> simp [declaredFields, ih, ha]

end TypedData.Json
