import TypedData.Proofs.Json.RoundTrip
import TypedData.Proofs.Ty.Text

/-!
# Types from their own text

A type without capsules has a description, and what the description says is the type with its
attributes in order. The text of a description is read as that description or not at all.

## Main definitions

* `Ty.inKeyOrder` — a type with its attributes in order
* `Ty.Describes` — the description of a type

## Main results

* `Ty.WellFormed.same_inKeyOrder` — the order of attributes does not matter
* `Ty.exists_describes` — types without capsules are described
* `Ty.eq_inKeyOrder_of_ofText` — the text of a type is read as the type itself, if it is read
-/

namespace TypedData

namespace Attr

variable {attrs : List (Attr Ty)}

/-- Attributes in the order of their names. -/
def inKeyOrder {α : Type} (attrs : List (Attr α)) : List (Attr α) :=
  attrs.mergeSort fun a b => decide (a.name ≤ b.name)

theorem perm_inKeyOrder {α : Type} (attrs : List (Attr α)) : (inKeyOrder attrs).Perm attrs :=
  List.mergeSort_perm _ _

theorem mem_inKeyOrder {α : Type} {attrs : List (Attr α)} {a : Attr α} :
    a ∈ inKeyOrder attrs ↔ a ∈ attrs := (perm_inKeyOrder attrs).mem_iff

/-- Declaring a new attribute puts it behind the others. -/
theorem declare_of_not_mem {name : String} {ty : Ty} (h : name ∉ attrs.map (·.name)) :
    declare attrs name ty = attrs ++ [⟨name, ty, false⟩] := by
  induction attrs with
  | nil => rfl
  | cons a as ih =>
    rw [List.map_cons, List.mem_cons, not_or] at h
    rw [declare, if_neg (Ne.symm h.1), ih h.2, List.cons_append]

/-- Declaring attributes under distinct names in composed form. -/
theorem foldl_declare {fields : List (String × Ty)} {declared : List (Attr Ty)}
    (names : (declared.map (·.name) ++ fields.map (·.1)).Nodup)
    (composed : ∀ f ∈ fields, Text.nfc f.1 = f.1) :
    fields.foldl (fun as (name, ty) => declare as (Text.nfc name) ty) declared =
      declared ++ fields.map fun f => ⟨f.1, f.2, false⟩ := by
  induction fields generalizing declared with
  | nil => simp
  | cons f fs ih =>
    obtain ⟨name, ty⟩ := f
    rw [List.forall_mem_cons] at composed
    have hnew : name ∉ declared.map (·.name) := fun hmem =>
      (List.nodup_append.mp names).2.2 _ hmem name (by simp) rfl
    rw [List.foldl_cons]
    simp only [composed.1, declare_of_not_mem hnew]
    rw [ih (by simpa using names) composed.2]
    simp

/-- Allowing omission of several attributes. -/
theorem foldl_allowOmission (names : List String) (attrs : List (Attr Ty)) :
    names.foldl allowOmission attrs =
      attrs.map fun a => ⟨a.name, a.ty, a.isOptional || names.contains a.name⟩ := by
  induction names generalizing attrs with
  | nil => simp
  | cons name names ih =>
    rw [List.foldl_cons, ih, allowOmission, List.map_map]
    refine List.map_congr_left fun a _ => ?_
    by_cases h : a.name = name <;> simp [h]

/-- The names of optional attributes are those of the attributes that are optional. -/
theorem mem_optionalNames {a : Attr Ty} (names : (attrs.map (·.name)).Nodup) (ha : a ∈ attrs) :
    a.name ∈ optionalNames attrs ↔ a.isOptional := by
  rw [optionalNames, sortedNames, List.mem_mergeSort, List.mem_map]
  constructor
  · rintro ⟨b, hb, hname⟩
    rw [List.mem_filter] at hb
    have hfind := find?_eq_some_of_mem names hb.1
    rw [hname, find?_eq_some_of_mem names ha] at hfind
    exact Option.some.inj hfind ▸ hb.2
  · exact fun h => ⟨a, List.mem_filter.mpr ⟨ha, h⟩, rfl⟩

end Attr

namespace Ty

/-! ### Attributes in order -/

mutual

/-- A type with its attributes in order, at every depth. -/
def inKeyOrder : Ty → Ty
  | list t => list t.inKeyOrder
  | set t => set t.inKeyOrder
  | map t => map t.inKeyOrder
  | tuple ts => tuple (inKeyOrderEach ts)
  | object attrs => object (Attr.inKeyOrder (inKeyOrderAttrs attrs))
  | bool => bool
  | number => number
  | string => string
  | dynamic => dynamic
  | capsule kind => capsule kind

/-- Several types with their attributes in order. -/
def inKeyOrderEach : List Ty → List Ty
  | [] => []
  | t :: ts => t.inKeyOrder :: inKeyOrderEach ts

/-- Attributes whose types have their attributes in order. -/
def inKeyOrderAttrs : List (Attr Ty) → List (Attr Ty)
  | [] => []
  | ⟨name, t, o⟩ :: as => ⟨name, t.inKeyOrder, o⟩ :: inKeyOrderAttrs as

end

theorem inKeyOrderEach_eq_map (ts : List Ty) : inKeyOrderEach ts = ts.map inKeyOrder := by
  induction ts with
  | nil => rfl
  | cons t ts ih => rw [inKeyOrderEach, ih, List.map_cons]

theorem inKeyOrderAttrs_eq_map (attrs : List (Attr Ty)) :
    inKeyOrderAttrs attrs = attrs.map fun a => ⟨a.name, a.ty.inKeyOrder, a.isOptional⟩ := by
  induction attrs with
  | nil => rfl
  | cons a as ih => rw [inKeyOrderAttrs, ih, List.map_cons]

/-- Attributes may be put in order before or after their types. -/
theorem inKeyOrder_object (attrs : List (Attr Ty)) : (object attrs).inKeyOrder =
    object ((Attr.inKeyOrder attrs).map fun a => ⟨a.name, a.ty.inKeyOrder, a.isOptional⟩) := by
  rw [inKeyOrder, inKeyOrderAttrs_eq_map]
  refine congrArg object (Eq.symm ?_)
  unfold Attr.inKeyOrder
  exact List.map_mergeSort fun _ _ _ _ => rfl

@[simp] theorem isDynamic_inKeyOrder (t : Ty) : t.inKeyOrder.isDynamic = t.isDynamic := by
  cases t <;> rfl

/-- A type equals itself with its attributes in order. -/
theorem WellFormed.same_inKeyOrder {t : Ty} (h : t.WellFormed) : t.same t.inKeyOrder := by
  induction h with
  | bool | number | string | dynamic => rfl
  | capsule => simp [inKeyOrder, same, CapsuleType.same]
  | list _ ih | set _ ih | map _ ih => simpa [inKeyOrder, same] using ih
  | tuple _ ih =>
    rw [inKeyOrder, inKeyOrderEach_eq_map, same, sameEach_iff, List.forall₂_map_right_iff,
      List.forall₂_same]
    exact ih
  | @object attrs names _ _ ih =>
    rw [inKeyOrder_object, same, Bool.and_eq_true, beq_iff_eq, sameAttrs_iff]
    refine ⟨by simp [(Attr.perm_inKeyOrder attrs).length_eq], fun a ha => ?_⟩
    refine ⟨⟨a.name, a.ty.inKeyOrder, a.isOptional⟩, ?_, ih a ha, rfl⟩
    refine Attr.find?_eq_some_of_mem ?_ (List.mem_map_of_mem (Attr.mem_inKeyOrder.mpr ha))
    rw [List.map_map]
    exact ((Attr.perm_inKeyOrder attrs).map _).nodup_iff.mpr names

/-! ### Descriptions -/

/-- What the description of a type is like. -/
structure Describes (j : Json) (t : Ty) : Prop where
  written : t.toJson = .ok j
  read : ofJson j = .ok t.inKeyOrder
  /-- Nothing in it spells out a number. -/
  spelled : j.Spelled fun f => Json.Reader.spellsNumber f = false
  shape : (∃ s, j = .string s) ∨ ∃ js, j = .array js
  noNumber : ∀ k, Json.Reader.spellsNumber (k, j) = false

theorem describes_array {js : List Json} {t : Ty} (hwritten : t.toJson = .ok (.array js))
    (hread : ofJson (.array js) = .ok t.inKeyOrder)
    (hspelled : ∀ j ∈ js, j.Spelled fun f => Json.Reader.spellsNumber f = false) :
    Describes (.array js) t :=
  ⟨hwritten, hread, .array hspelled, .inr ⟨js, rfl⟩, fun k => by
    simp [Json.Reader.spellsNumber, Json.asString?]⟩

theorem describes_primitive {name : String} {t : Ty} (hwritten : t.toJson = .ok (.string name))
    (hread : ofPrimitiveName name = .ok t.inKeyOrder)
    (hnumber : Json.Token.wholeNumber? name.toList = none) : Describes (.string name) t :=
  ⟨hwritten, hread, .string name, .inl ⟨name, rfl⟩, fun k => by
    simp [Json.Reader.spellsNumber, Json.asString?, hnumber]⟩

theorem ofJson_collection {j : Json} (h : (∃ s, j = .string s) ∨ ∃ js, j = .array js) :
    ofJson (.array [.string "list", j]) = (ofJson j).map .list ∧
      ofJson (.array [.string "set", j]) = (ofJson j).map .set ∧
      ofJson (.array [.string "map", j]) = (ofJson j).map .map := by
  rcases h with ⟨s, rfl⟩ | ⟨js, rfl⟩ <;> simp [ofJson]

/-- The description of a collection names its kind and describes its elements. -/
theorem Describes.collection {j : Json} {t : Ty} (h : Describes j t) :
    Describes (.array [.string "list", j]) (.list t) ∧
      Describes (.array [.string "set", j]) (.set t) ∧
      Describes (.array [.string "map", j]) (.map t) := by
  obtain ⟨hwritten, hread, hspelled, hshape, -⟩ := h
  have hparts (kind : String) : ∀ i ∈ [.string kind, j],
      i.Spelled fun f => Json.Reader.spellsNumber f = false := by
    simp [hspelled, Json.Spelled.string]
  obtain ⟨hlist, hset, hmap⟩ := ofJson_collection hshape
  refine ⟨?_, ?_, ?_⟩ <;>
    refine describes_array (by simp [toJson, hwritten, Except.map]) ?_ (hparts _)
  · rw [hlist, hread]
    rfl
  · rw [hset, hread]
    rfl
  · rw [hmap, hread]
    rfl

theorem exists_describesEach {ts : List Ty} (h : ∀ t ∈ ts, ∃ j, Describes j t) :
    ∃ js, elemsToJson ts = .ok js ∧ ofJsonElems js = .ok (inKeyOrderEach ts) ∧
      ∀ j ∈ js, j.Spelled fun f => Json.Reader.spellsNumber f = false := by
  induction ts with
  | nil => exact ⟨[], rfl, rfl, nofun⟩
  | cons t ts ih =>
    rw [List.forall_mem_cons] at h
    obtain ⟨j, hj⟩ := h.1
    obtain ⟨js, hwritten, hread, hspelled⟩ := ih h.2
    refine ⟨j :: js, ?_, ?_, List.forall_mem_cons.mpr ⟨hj.spelled, hspelled⟩⟩
    · simp [elemsToJson, hj.written, hwritten, Except.map]
    · simp [ofJsonElems, hj.read, hread, Except.map, inKeyOrderEach]

/-- The description of an attribute stands under its name. -/
private def DescribesAttr (a : Attr Ty) (f : String × Json) : Prop :=
  a.name = f.1 ∧ Describes f.2 a.ty

private theorem exists_describesAttrs {attrs : List (Attr Ty)}
    (h : ∀ a ∈ attrs, ∃ j, Describes j a.ty) :
    ∃ fields, List.Forall₂ DescribesAttr attrs fields := by
  induction attrs with
  | nil => exact ⟨[], .nil⟩
  | cons a as ih =>
    rw [List.forall_mem_cons] at h
    obtain ⟨j, hj⟩ := h.1
    obtain ⟨fields, hfields⟩ := ih h.2
    exact ⟨(a.name, j) :: fields, .cons ⟨rfl, hj⟩ hfields⟩

private theorem ofJsonFields_of_describes {attrs : List (Attr Ty)} {fields : List (String × Json)}
    (h : List.Forall₂ DescribesAttr attrs fields) :
    ofJsonFields fields = .ok (attrs.map fun a => (a.name, a.ty.inKeyOrder)) := by
  induction h with
  | nil => rfl
  | @cons a f as fs hf _ ih =>
    obtain ⟨name, j⟩ := f
    obtain ⟨hname, hj⟩ := hf
    simp only at hname hj
    simp [ofJsonFields, hj.read, ih, hname, Except.map]

theorem attrsToJson_eq_map (attrs : List (Attr Ty)) :
    attrsToJson attrs = attrs.map fun a => (a.name, a.ty.toJson) := by
  induction attrs with
  | nil => rfl
  | cons a as ih => rw [attrsToJson, ih, List.map_cons]

/-- The description of an object has its attributes in key order. -/
theorem toJson_object (attrs : List (Attr Ty)) : (object attrs).toJson =
    (firstError ((Attr.inKeyOrder attrs).map fun a => (a.name, a.ty.toJson))).map fun fields =>
      .array ([.string "object", .object fields] ++ optionalPart (Attr.optionalNames attrs)) := by
  have hsorted : (attrsToJson attrs).mergeSort (fun a b => decide (a.1 ≤ b.1)) =
      (Attr.inKeyOrder attrs).map fun a => (a.name, a.ty.toJson) := by
    rw [attrsToJson_eq_map]
    refine Eq.symm ?_
    unfold Attr.inKeyOrder
    exact List.map_mergeSort fun _ _ _ _ => rfl
  rw [toJson, hsorted]

theorem optionalNamesOf_map (names : List String) :
    optionalNamesOf (names.map .string) = .ok names := by
  induction names with
  | nil => rfl
  | cons name names ih => simp [optionalNamesOf, ih, Except.map]

/-- The parts of an object type make the type with its attributes in order. -/
private theorem ofObjectParts_inKeyOrder {attrs : List (Attr Ty)} (h : Attr.WellFormed attrs) :
    ofObjectParts ((Attr.inKeyOrder attrs).map fun a => (a.name, a.ty.inKeyOrder))
      ((Attr.optionalNames attrs).map .string) = .ok (object attrs).inKeyOrder := by
  have hcomposed : ∀ f ∈ (Attr.inKeyOrder attrs).map fun a => (a.name, a.ty.inKeyOrder),
      Text.nfc f.1 = f.1 := by
    intro f hf
    obtain ⟨a, ha, rfl⟩ := List.mem_map.mp hf
    exact h.composed a (Attr.mem_inKeyOrder.mp ha)
  have hnames : ((Attr.inKeyOrder attrs).map (·.name)).Nodup :=
    ((Attr.perm_inKeyOrder attrs).map _).nodup_iff.mpr h.names
  have hdeclared := @Attr.foldl_declare _ [] (by simpa [Function.comp_def] using hnames) hcomposed
  have hoptional : (Attr.optionalNames attrs).map Text.nfc = Attr.optionalNames attrs := by
    rw [List.map_congr_left (g := id) fun name hname => ?_, List.map_id]
    rw [Attr.optionalNames, Attr.sortedNames, List.mem_mergeSort] at hname
    obtain ⟨a, ha, rfl⟩ := List.mem_map.mp hname
    exact h.composed a (List.mem_filter.mp ha).1
  rw [ofObjectParts, optionalNamesOf_map]
  simp only [ofAttributesWithOptional, hdeclared, hoptional, List.nil_append]
  -- Every optional name is declared.
  have hfind : (Attr.optionalNames attrs).find? (fun name => (Attr.find? (List.map (fun f =>
      (⟨f.1, f.2, false⟩ : Attr Ty)) ((Attr.inKeyOrder attrs).map fun a =>
        (a.name, a.ty.inKeyOrder))) name).isNone) = none := by
    rw [List.find?_eq_none]
    intro name hname
    rw [Attr.optionalNames, Attr.sortedNames, List.mem_mergeSort] at hname
    obtain ⟨a, ha, rfl⟩ := List.mem_map.mp hname
    have hmem : a ∈ Attr.inKeyOrder attrs := Attr.mem_inKeyOrder.mpr (List.mem_filter.mp ha).1
    simp only [Option.isNone_iff_eq_none, ← Option.not_isSome_iff_eq_none, not_not,
      Attr.find?_isSome_iff, List.map_map, Function.comp_def]
    exact List.mem_map_of_mem hmem
  rw [hfind]
  simp only [Attr.foldl_allowOmission, List.map_map, Function.comp_def, Bool.false_or,
    inKeyOrder_object]
  refine congrArg (fun as => Except.ok (object as)) (List.map_congr_left fun a ha => ?_)
  have := Attr.mem_optionalNames h.names (Attr.mem_inKeyOrder.mp ha)
  rw [Attr.mk.injEq]
  refine ⟨rfl, rfl, ?_⟩
  rw [Bool.eq_iff_iff, List.contains_iff_mem]
  exact this

/-- The description of an object type describes its attributes in order, and names those that are
optional. -/
private theorem describes_object {attrs : List (Attr Ty)} {fields : List (String × Json)}
    (h : Attr.WellFormed attrs)
    (hfields : List.Forall₂ DescribesAttr (Attr.inKeyOrder attrs) fields) :
    Describes (.array ([.string "object", .object fields] ++
      optionalPart (Attr.optionalNames attrs))) (object attrs) := by
  -- Fields stand in the order of their names, each with the description of a type.
  have hwritten : firstError ((Attr.inKeyOrder attrs).map fun a => (a.name, a.ty.toJson)) =
      .ok fields :=
    firstError_map_eq_ok_iff.mpr (hfields.imp fun _ _ h => ⟨h.1, h.2.written⟩)
  have hnames : (fields.map (·.1)).Nodup := by
    rw [← hfields.map_eq_map fun _ _ h => h.1]
    exact ((Attr.perm_inKeyOrder attrs).map _).nodup_iff.mpr h.names
  have hdescribed : ∀ f ∈ fields, ∃ t, Describes f.2 t := by
    intro f hf
    obtain ⟨a, -, -, ha⟩ := hfields.exists_of_mem_right hf
    exact ⟨_, ha⟩
  have hspelled : (Json.object fields).Spelled fun f => Json.Reader.spellsNumber f = false := by
    refine .object hnames (fun f hf => ?_) fun f hf => ?_
    · obtain ⟨t, ht⟩ := hdescribed f (List.mem_of_head? hf)
      exact ht.noNumber f.1
    · obtain ⟨t, ht⟩ := hdescribed f hf
      exact ht.spelled
  have hread := ofJsonFields_of_describes hfields
  have hparts := ofObjectParts_inKeyOrder h
  refine describes_array ?_ ?_ ?_
  · rw [toJson_object, hwritten]
    rfl
  · cases hoptional : Attr.optionalNames attrs with
    | nil =>
      rw [hoptional] at hparts
      simpa [optionalPart, ofJson, hread] using hparts
    | cons name names =>
      rw [hoptional] at hparts
      simpa [optionalPart, ofJson, hread] using hparts
  · rw [optionalPart]
    split <;> simp only [List.append_nil, List.cons_append, List.nil_append, List.forall_mem_cons]
    · exact ⟨.string _, hspelled, nofun⟩
    · refine ⟨.string _, hspelled, .array fun j hj => ?_, nofun⟩
      obtain ⟨name, -, rfl⟩ := List.mem_map.mp hj
      exact .string name

/-- Types without capsules are described. -/
theorem exists_describes {t : Ty} (h : t.WellFormed) (hcapsule : t.hasCapsule = false) :
    ∃ j, Describes j t := by
  -- A type is written by name, or as its kind in front of what describes its parts.
  induction h with
  | bool => exact ⟨_, describes_primitive rfl rfl (by decide)⟩
  | number => exact ⟨_, describes_primitive rfl rfl (by decide)⟩
  | string => exact ⟨_, describes_primitive rfl rfl (by decide)⟩
  | dynamic => exact ⟨_, describes_primitive rfl rfl (by decide)⟩
  | capsule => cases hcapsule
  | list _ ih =>
    obtain ⟨j, hj⟩ := ih hcapsule
    exact ⟨_, hj.collection.1⟩
  | set _ ih =>
    obtain ⟨j, hj⟩ := ih hcapsule
    exact ⟨_, hj.collection.2.1⟩
  | map _ ih =>
    obtain ⟨j, hj⟩ := ih hcapsule
    exact ⟨_, hj.collection.2.2⟩
  | @tuple ts _ ih =>
    rw [hasCapsule, anyCapsule_eq_any, List.any_eq_false] at hcapsule
    obtain ⟨js, hwritten, hread, hspelled⟩ :=
      exists_describesEach fun t ht => ih t ht (by simpa using hcapsule t ht)
    refine ⟨_, @describes_array [.string "tuple", .array js] _ ?_ ?_ ?_⟩
    · simp [toJson, hwritten, Except.map]
    · simp [ofJson, hread, inKeyOrder, Except.map]
    · simp [Json.Spelled.string, Json.Spelled.array hspelled]
  | @object attrs names composed types ih =>
    rw [hasCapsule, anyCapsuleAttr_eq_any, List.any_eq_false] at hcapsule
    have hattrs : Attr.WellFormed attrs := ⟨names, composed, types⟩
    obtain ⟨fields, hfields⟩ := @exists_describesAttrs (Attr.inKeyOrder attrs) fun a ha =>
      ih a (Attr.mem_inKeyOrder.mp ha) (by simpa using hcapsule a (Attr.mem_inKeyOrder.mp ha))
    exact ⟨_, describes_object hattrs hfields⟩

private theorem exists_of_elemsToJson {ts : List Ty} {js : List Json}
    (h : elemsToJson ts = .ok js) : ∀ t ∈ ts, ∃ j, t.toJson = .ok j := by
  induction ts generalizing js with
  | nil => nofun
  | cons t ts ih =>
    rw [elemsToJson] at h
    split at h
    · cases h
    · rename_i j hj
      obtain ⟨js', hjs, -⟩ := Except.map_eq_ok_iff.mp h
      exact List.forall_mem_cons.mpr ⟨⟨j, hj⟩, ih hjs⟩

/-- Only types without capsules are written. -/
theorem hasCapsule_of_toJson {t : Ty} {j : Json} (h : t.WellFormed) (hj : t.toJson = .ok j) :
    t.hasCapsule = false := by
  induction h generalizing j with
  | bool | number | string | dynamic => rfl
  | capsule => cases hj
  | list _ ih | set _ ih | map _ ih =>
    obtain ⟨_, hj, -⟩ := Except.map_eq_ok_iff.mp hj
    exact ih hj
  | @tuple ts _ ih =>
    obtain ⟨js, hjs, -⟩ := Except.map_eq_ok_iff.mp hj
    rw [hasCapsule, anyCapsule_eq_any, List.any_eq_false]
    intro t ht
    obtain ⟨_, hj⟩ := exists_of_elemsToJson hjs t ht
    simp [ih t ht hj]
  | @object attrs _ _ _ ih =>
    obtain ⟨fields, hfields, -⟩ := Except.map_eq_ok_iff.mp hj
    rw [firstError_eq_ok_iff, attrsToJson_eq_map] at hfields
    rw [hasCapsule, anyCapsuleAttr_eq_any, List.any_eq_false]
    intro a ha
    obtain ⟨f, -, -, hf⟩ :=
      hfields.exists_of_mem_left (List.mem_mergeSort.mpr (List.mem_map_of_mem ha))
    simp [ih a ha hf]

/-- What a type is written as describes it. -/
theorem describes_of_toJson {t : Ty} {j : Json} (h : t.WellFormed) (hj : t.toJson = .ok j) :
    Describes j t := by
  obtain ⟨j', hj'⟩ := exists_describes h (hasCapsule_of_toJson h hj)
  obtain rfl := Except.ok.inj (hj.symm.trans hj'.written)
  exact hj'

/-- The text of a type is read as the type itself, if it is read at all. -/
theorem eq_inKeyOrder_of_ofText {t u : Ty} {j : Json} (h : t.WellFormed) (hj : t.toJson = .ok j)
    (hu : ofText j.compact = .ok u) : u = t.inKeyOrder := by
  have hj' := describes_of_toJson h hj
  rw [ofText, Json.compact, String.toList_ofList] at hu
  cases hread : Json.read j.chars with
  | error e =>
    rw [hread] at hu
    cases hu
  | ok j' =>
    rw [hread, Json.eq_of_read_chars hj'.spelled hread, ofRead, hj'.read] at hu
    exact (Except.ok.inj hu).symm

end Ty

end TypedData
