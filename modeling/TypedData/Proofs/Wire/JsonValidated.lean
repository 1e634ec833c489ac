import TypedData.Proofs.Json.Documented
import TypedData.Proofs.Json.Validation
import TypedData.Proofs.Value.Equivalence
import TypedData.Proofs.Wire.JsonRoundTrip

/-!
# Documents that validate are decoded

A JSON document may be validated as native data, or be decoded from its text. Under a type without
`dynamic` decoding accepts whatever validation accepts, and it gives the same value. It accepts
more, since texts are read leniently and any attribute may be left out.

## Main definitions

* `Json.Plain` — documents that stand for nothing but themselves

## Main results

* `Json.toValue_of_validateAt` — what validates at a place is decoded there
* `Value.decodeJson_of_validate` — a text is decoded as the value its document validates to
-/

namespace TypedData

namespace Json

open Native

variable {limits : Limits} {depth : Nat} {ty : Ty} {j : Json} {v : Value}

/-- A document that stands for nothing but itself: its numbers are exact as native data, and no
field has the name that is reserved for unknowns. -/
inductive Plain : Json → Prop
  | null : Plain null
  | bool {b : Bool} : Plain (bool b)
  | number {t : String} {n : Decimal} (exact : Decimal.ofText t maxJsonExponent = .ok n) :
      Plain (number t)
  | string {s : String} : Plain (string s)
  | array {js : List Json} (items : ∀ j ∈ js, Plain j) : Plain (array js)
  | object {fs : List (String × Json)} (names : ∀ f ∈ fs, f.1 ≠ unknownKey)
      (values : ∀ f ∈ fs, Plain f.2) : Plain (object fs)

theorem decidedType_eq {raw : Native} (hty : ty.hasDynamic = false) :
    decidedType limits depth ty raw = .ok ty := by
  rw [decidedType, if_neg (Bool.eq_false_iff.mp (Ty.isDynamic_of_hasDynamic hty))]

/-! ### Scalars -/

/-- A number validates in place of a number only, and there is read from its text. -/
theorem toScalar_number {t : String} {n : Decimal}
    (hn : Decimal.ofText t maxJsonExponent = .ok n)
    (h : validateScalar limits ty (.number n) = .ok v) :
    toScalar limits ty (number t) = .ok v := by
  cases ty with
  | number =>
    obtain ⟨m, hm, rfl⟩ := Except.map_eq_ok_iff.mp h
    simp only [toNumber] at hm
    split at hm
    · rename_i hwithin
      obtain rfl := Except.ok.inj hm
      have hread := Decimal.ofText_of_parse? (Decimal.parse?_of_ofText hn) hwithin
      rw [toScalar, numberOfText, hread]
    · cases hm
  | _ => simp only [validateScalar, refuse, reduceCtorEq] at h

theorem toScalar_string {s : String} (h : validateScalar limits ty (.string s) = .ok v) :
    toScalar limits ty (string s) = .ok v := by
  cases ty with
  | number =>
    obtain ⟨n, hn, rfl⟩ := Except.map_eq_ok_iff.mp h
    simp only [toNumber] at hn
    split at hn
    · rename_i hread
      obtain rfl := Except.ok.inj hn
      rw [toScalar, numberOfText, hread]
    · cases hn
  | string =>
    simp only [validateScalar, Except.ok.injEq] at h
    rw [toScalar, h]
  | _ => simp only [validateScalar, refuse, reduceCtorEq] at h

theorem toScalar_bool {b : Bool} (h : validateScalar limits ty (.bool b) = .ok v) :
    toScalar limits ty (bool b) = .ok v := by
  cases ty with
  | bool =>
    simp only [validateScalar, Except.ok.injEq] at h
    rw [toScalar, h]
  | _ => simp [validateScalar, toNumber, refuse, Except.map] at h

/-! ### Containers -/

/-- Items that validate are decoded one by one. -/
theorem itemsToValues_of_validateItems {js : List Json} {types : List Ty} {vs : List Value}
    {i : Nat} (hlength : js.length = types.length)
    (h : validateItems limits depth i types (ofJsonItems js) = .ok vs)
    (hitems : ∀ j ∈ js, ∀ t ∈ types, ∀ v, validateAt limits depth t (ofJson j) = .ok v →
      j.toValue limits depth t = .ok v) :
    itemsToValues limits depth i types js = .ok vs := by
  induction js generalizing types vs i with
  | nil => exact congrArg Except.ok (Except.ok.inj h)
  | cons j js ih =>
    cases types with
    | nil => cases hlength
    | cons t types =>
      rw [ofJsonItems, validateItems] at h
      split at h
      · cases h
      rename_i v hv
      obtain ⟨vs', hvs, rfl⟩ := Except.map_eq_ok_iff.mp h
      have hfirst := hitems j (by simp) t (by simp) v hv
      have hrest := ih (Nat.succ.inj hlength) hvs fun j hj t ht =>
        hitems j (by simp [hj]) t (by simp [ht])
      simp only [itemsToValues, List.headD_cons, List.tail_cons, hfirst, hrest, Except.map]

/-- Names that stay apart in composed form are accepted as keys. -/
theorem keysOf_of_nodup {fs : List (String × Json)} (h : (fs.map fun f => Text.nfc f.1).Nodup) :
    keysOf fs = .ok (fs.map fun f => Text.nfc f.1) := by
  have hnames : (fs.map (·.1)).map Text.nfc = fs.map fun f => Text.nfc f.1 := by
    rw [List.map_map]
    rfl
  have haccepted := @Wire.distinctKeys_map_ok (fs.map (·.1)) [] (by simpa [hnames])
  rw [hnames, List.map_map] at haccepted
  exact haccepted

/-- The names of members that go into an object stay apart. -/
theorem nodup_of_gatherNames {typeOf : Native → Ty} {fs : List (String × Json)}
    {seen : List String} {named : List (String × Except ValidationError Value)}
    (h : gatherNames seen (validateEntries limits depth typeOf (ofJsonFields fs)) = .ok named) :
    (fs.map fun f => Text.nfc f.1).Nodup ∧ ∀ f ∈ fs, Text.nfc f.1 ∉ seen := by
  induction fs generalizing seen named with
  | nil => simp
  | cons f fs ih =>
    simp only [ofJsonFields, validateEntries, gatherNames, asKey?] at h
    split at h
    · cases h
    rename_i hnew
    obtain ⟨named', hnamed, -⟩ := Except.map_eq_ok_iff.mp h
    obtain ⟨hnodup, hrest⟩ := ih hnamed
    refine ⟨List.nodup_cons.mpr ⟨fun hmem => ?_, hnodup⟩, List.forall_mem_cons.mpr ⟨?_, ?_⟩⟩
    · obtain ⟨g, hg, heq⟩ := List.mem_map.mp hmem
      exact hrest g hg (by simp [heq])
    · simpa using hnew
    · exact fun g hg hmem => hrest g hg (by simp [hmem])

/-- The fields of a map stay apart by their keys, and each of them validates. -/
theorem forall₂_gatherMap {t : Ty} {fs : List (String × Json)} {seen : List String}
    {es : Entries Value}
    (h : gatherMap seen (validateEntries limits depth (fun _ => t) (ofJsonFields fs)) = .ok es) :
    List.Forall₂ (fun f e => Text.nfc f.1 = e.1 ∧
      validateAt limits depth t (ofJson f.2) = .ok e.2) fs es := by
  induction fs generalizing seen es with
  | nil =>
    obtain rfl := Except.ok.inj h
    exact .nil
  | cons f fs ih =>
    simp only [ofJsonFields, validateEntries, gatherMap, asKey?] at h
    split at h
    · cases h
    split at h
    · cases h
    rename_i v hv
    obtain ⟨es', hes, rfl⟩ := Except.map_eq_ok_iff.mp h
    exact .cons ⟨rfl, hv⟩ (ih hes)

/-- Fields under the types of their keys, decoded one by one. -/
theorem fieldsToMembers_eq_map (typeOf : String → Ty) (fs : List (String × Json)) :
    fieldsToMembers limits depth typeOf (fs.map fun f => Text.nfc f.1) fs =
      fs.map fun f => (Text.nfc f.1, f.2.toValue limits depth (typeOf (Text.nfc f.1))) := by
  induction fs with
  | nil => rfl
  | cons f fs ih =>
    simp only [List.map_cons, fieldsToMembers, List.headD_cons, List.tail_cons, ih]

/-- A map that validates is decoded. -/
theorem toValue_of_gatherMap {t : Ty} {fs : List (String × Json)} {es : Entries Value}
    (hdepth : depth ≤ limits.maxDepth) (hunknown : isUnknown fs = false)
    (h : gatherMap [] (validateEntries limits (depth + 1) (fun _ => t) (ofJsonFields fs)) = .ok es)
    (hfields : ∀ f ∈ fs, ∀ v, validateAt limits (depth + 1) t (ofJson f.2) = .ok v →
      f.2.toValue limits (depth + 1) t = .ok v) :
    (object fs).toValue limits depth (.map t) =
      .ok (Value.mapping (.map t) (Value.sortEntries es)) := by
  have heach := forall₂_gatherMap h
  have hnames : (fs.map fun f => Text.nfc f.1) = es.map (·.1) :=
    heach.map_eq_map fun _ _ h => h.1
  have hkeys := keysOf_of_nodup (hnames ▸ (gatherMap_spec h).1)
  have hmembers : (fs.map fun f => (Text.nfc f.1, f.2.toValue limits (depth + 1) t)) =
      es.map fun e => (e.1, .ok e.2) := by
    refine List.Forall₂.map_eq_map (heach.imp_of_mem fun f hf e _ h => ?_) fun _ _ h => h
    rw [h.1, hfields f hf e.2 h.2]
  rw [toValue_map hunknown hkeys hdepth, fieldsToMembers_eq_map, hmembers]
  exact Wire.mapOf_map_ok es

/-- An object that validates is decoded. -/
theorem toValue_of_objectOf {attrs : List (Attr Ty)} {fs : List (String × Json)}
    (hdepth : depth ≤ limits.maxDepth) (hunknown : isUnknown fs = false)
    (h : objectOf (.object attrs) attrs
      (validateEntries limits (depth + 1) (memberType attrs) (ofJsonFields fs)) = .ok v)
    (hfields : ∀ f ∈ fs, ∀ a ∈ attrs, ∀ v,
      validateAt limits (depth + 1) a.ty (ofJson f.2) = .ok v →
        f.2.toValue limits (depth + 1) a.ty = .ok v) :
    (object fs).toValue limits depth (.object attrs) = .ok v := by
  rw [objectOf] at h
  split at h
  · cases h
  rename_i named hnamed
  have hnames := (nodup_of_gatherNames hnamed).1
  obtain rfl := Except.ok.inj (hnamed.symm.trans (gatherNames_ofJsonFields hnames (by simp)))
  split at h
  · cases h
  rename_i hdeclared
  rw [map_fst_checkedFields, Wire.undeclared?_eq_none_iff] at hdeclared
  obtain ⟨es, hes, rfl⟩ := Except.map_eq_ok_iff.mp h
  rw [toValue_object hunknown (keysOf_of_nodup hnames) hdeclared hdepth, fieldsToMembers_eq_map,
    Wire.objectOf, Except.map_eq_ok_iff]
  refine ⟨es, ?_, rfl⟩
  rw [declaredMembers, Ty.firstError_map_eq_ok_iff] at hes
  rw [Wire.attributesOf, Ty.firstError_map_eq_ok_iff]
  -- Both take the attributes in order and look for the first field of each name.
  refine hes.imp_of_mem fun a ha e _ he => ⟨he.1, ?_⟩
  have hvalue := he.2
  simp only [checkedFields, List.find?_map, Function.comp_def] at hvalue ⊢
  cases hfind : fs.find? (fun f => Text.nfc f.1 == a.name) with
  | none =>
    simp only [hfind, Option.map_none] at hvalue ⊢
    split at hvalue
    · rw [Except.ok.inj hvalue]
    · cases hvalue
  | some f =>
    simp only [hfind, Option.map_some, Except.mapError_eq_ok_iff] at hvalue ⊢
    have hname : Text.nfc f.1 = a.name := by simpa using List.find?_some hfind
    have hmem : Text.nfc f.1 ∈ attrs.map (·.name) := hname ▸ List.mem_map_of_mem ha
    obtain ⟨b, hb⟩ := Option.isSome_iff_exists.mp (Attr.find?_isSome_iff.mpr hmem)
    have htype : Wire.attrType attrs (Text.nfc f.1) = b.ty := by rw [Wire.attrType, hb]; rfl
    rw [htype] at hvalue ⊢
    exact hfields f (List.mem_of_find?_eq_some hfind) b (Attr.mem_of_find? hb) e.2 hvalue

/-! ### Documents -/

/-- What validates under a type without `dynamic` is decoded as the same value. -/
theorem toValue_of_validateAt (hj : j.Plain) (hty : ty.hasDynamic = false)
    (h : validateAt limits depth ty (ofJson j) = .ok v) : j.toValue limits depth ty = .ok v := by
  have hdepth := depth_le_of_validateAt h
  have hle : ¬ limits.maxDepth < depth := by omega
  -- Both walks take each part of the document to the same slot, one container deeper.
  induction hj generalizing ty depth v with
  | null =>
    rw [ofJson, validateAt, if_neg hle] at h
    rw [toValue, if_neg hle]
    exact congrArg Except.ok (Except.ok.inj h)
  | bool =>
    simp only [ofJson, validateAt, if_neg hle, decidedType_eq hty] at h
    unfold toValue
    rw [if_neg hle]
    exact toScalar_bool h
  | string =>
    simp only [ofJson, validateAt, if_neg hle, decidedType_eq hty] at h
    unfold toValue
    rw [if_neg hle]
    exact toScalar_string h
  | number exact =>
    simp only [ofJson, ofJsonNumber, exact, validateAt, if_neg hle, decidedType_eq hty] at h
    unfold toValue
    rw [if_neg hle]
    exact toScalar_number exact h
  | @array js items ih =>
    simp only [ofJson, validateAt, if_neg hle, decidedType_eq hty] at h
    split at h
    · cases h
    rename_i types htypes
    obtain ⟨vs, hvs, rfl⟩ := Except.map_eq_ok_iff.mp h
    have hslots := slots?_of_itemTypes htypes
    rw [length_ofJsonItems] at hslots
    have hread := itemsToValues_of_validateItems (Value.length_of_slots? hslots) hvs
      fun j hj t ht v hv => ih j hj (Ty.hasDynamic_of_mem_parts hty
        (Value.mem_parts_of_slots? hslots ht)) hv (depth_le_of_validateAt hv)
        (not_lt.mpr (depth_le_of_validateAt hv))
    rw [toValue_array hslots hdepth, hread]
    rfl
  | @object fs names values ih =>
    have hunknown : isUnknown fs = false := isUnknown_eq_false fun k hk => by
      obtain ⟨f, hf, rfl⟩ := List.mem_map.mp hk
      exact names f hf
    have hfields (f : String × Json) (hf : f ∈ fs) (t : Ty) (ht : t ∈ ty.parts) (v : Value)
        (hv : validateAt limits (depth + 1) t (ofJson f.2) = .ok v) :
        f.2.toValue limits (depth + 1) t = .ok v :=
      ih f hf (Ty.hasDynamic_of_mem_parts hty ht) hv (depth_le_of_validateAt hv)
        (not_lt.mpr (depth_le_of_validateAt hv))
    simp only [ofJson, validateAt, if_neg hle, decidedType_eq hty] at h
    split at h
    · rename_i t
      obtain ⟨es, hes, rfl⟩ := Except.map_eq_ok_iff.mp h
      exact toValue_of_gatherMap hdepth hunknown hes fun f hf => hfields f hf t (by simp [Ty.parts])
    · rename_i attrs
      exact toValue_of_objectOf hdepth hunknown h fun f hf a ha =>
        hfields f hf a.ty (List.mem_map_of_mem ha)
    · simp only [refuse, reduceCtorEq] at h

end Json

namespace Value

variable {limits : Limits} {ty : Ty} {j : Json} {v : Value} {bytes : List UInt8}

/-- The text of a document is decoded under a type without `dynamic` as the value that the document
validates to under the same limits, whichever these are. -/
theorem decodeJson_of_validate (hty : ty.WellFormed) (hdynamic : ty.hasDynamic = false)
    (hread : Json.readBytes bytes = .ok j) (hj : j.Plain)
    (h : (Native.ofJson j).validate limits ty = .ok v) :
    ∃ w, decodeJson limits ty bytes = .ok w ∧ w.identical v := by
  have hv : v.WellFormed :=
    (Native.wellFormed_validateAt hty (by simp [Native.values_ofJson]) h).1
  refine ⟨v, ?_, hv.identical_refl⟩
  rw [decodeJson, hread]
  simp only [Json.toValue_of_validateAt hj hdynamic h]
  rfl

/-- Of a number, a text and nothing at all, the text `[1.5,"2",null]` makes a list of numbers. -/
theorem decodeJson_of_validate_mixed :
    ∃ w, decodeJson .default (.list .number)
        [0x5B, 0x31, 0x2E, 0x35, 0x2C, 0x22, 0x32, 0x22, 0x2C, 0x6E, 0x75, 0x6C, 0x6C, 0x5D] =
          .ok w ∧
      w.identical
        ⟨.list .number, .items [.number ⟨15, 1⟩, .number ⟨2, 0⟩, .null .number], .empty⟩ :=
  have hread : Json.readBytes
      [0x5B, 0x31, 0x2E, 0x35, 0x2C, 0x22, 0x32, 0x22, 0x2C, 0x6E, 0x75, 0x6C, 0x6C, 0x5D] =
        .ok (.array [.number "1.5", .string "2", .null]) := by rfl
  have hplain : (Json.array [.number "1.5", .string "2", .null]).Plain := by
    refine .array ?_
    simp only [List.forall_mem_cons]
    exact ⟨.number rfl, .string, .null, List.forall_mem_nil _⟩
  decodeJson_of_validate (.list .number) rfl hread hplain rfl

end Value

end TypedData
