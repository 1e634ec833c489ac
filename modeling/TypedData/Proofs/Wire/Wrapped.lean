import TypedData.Proofs.Json.Validation
import TypedData.Proofs.Wire.Bounded
import TypedData.Proofs.Wire.Documents

/-!
# Documents in `dynamic` slots over MessagePack

A JSON document that is validated as `dynamic` is encoded with the text of its type beside it, and
with more such texts inside wherever its type says `dynamic`. The reader can pay for the bytes of
every document that was read from JSON. The texts are a matter of their own: JSON may not nest too
deep, and where objects stand inside one another, the text of their type has two levels for each.

## Main definitions

* `Value.typesBeside` — the types that are written beside a value and inside it
* `Json.tower`, `Ty.tower`, `Value.tower` — objects inside one another, their type and their value

## Main results

* `Native.decodeMsgpack_tower_iff` — how many objects inside one another come back
* `Native.decodeMsgpack_validate_dynamic` — which documents come back from a `dynamic` slot
-/

namespace TypedData

namespace Value

variable {c : Wire.Echo} {s t own : Ty} {v w : Value} {vs : List Value} {es : Entries Value}

/-! ### Types beside values -/

/-- The type that is written beside a known value, if its slot is `dynamic`. -/
def typeBeside (slot own : Ty) : List Ty := if slot.isDynamic then [own] else []

mutual

/-- The types that are written beside a value in a slot and beside the values in it, which stand in
the slots of its type. -/
def typesBeside (slot : Ty) : Value → List Ty
  | ⟨_, .null, _⟩ | ⟨_, .unknown _, _⟩ => []
  | ⟨own, .items vs, _⟩ => typeBeside slot own ++ typesBesideEach (itemSlots own vs.length) vs
  | ⟨own, .entries es, _⟩ => typeBeside slot own ++ typesBesideEntries (entrySlot own) es
  | ⟨own, _, _⟩ => typeBeside slot own

/-- The types that are written beside several elements. -/
def typesBesideEach (slots : List Ty) : List Value → List Ty
  | [] => []
  | v :: vs => v.typesBeside (slots.headD .dynamic) ++ typesBesideEach slots.tail vs

/-- The types that are written beside several entries. -/
def typesBesideEntries (slotOf : String → Ty) : Entries Value → List Ty
  | [] => []
  | (k, v) :: es => v.typesBeside (slotOf k) ++ typesBesideEntries slotOf es

end

theorem typesBesideEach_replicate :
    typesBesideEach (List.replicate vs.length t) vs = vs.flatMap (typesBeside t) := by
  induction vs with
  | nil => rfl
  | cons v vs ih => simp [typesBesideEach, List.replicate_succ, ih]

theorem typesBesideEntries_eq_flatMap (slotOf : String → Ty) :
    typesBesideEntries slotOf es = es.flatMap fun e => e.2.typesBeside (slotOf e.1) := by
  induction es with
  | nil => rfl
  | cons e es ih => rw [typesBesideEntries, ih, List.flatMap_cons]

theorem eq_of_mem_typeBeside (ht : t ∈ typeBeside s own) : own = t := by
  rw [typeBeside] at ht
  split at ht
  · exact (List.mem_singleton.mp ht).symm
  · cases ht

theorem exists_of_mem_typesBesideEach {slots : List Ty} (ht : t ∈ typesBesideEach slots vs) :
    ∃ v ∈ vs, ∃ s, t ∈ v.typesBeside s := by
  induction vs generalizing slots with
  | nil => cases ht
  | cons v vs ih =>
    rw [typesBesideEach, List.mem_append] at ht
    rcases ht with ht | ht
    · exact ⟨v, by simp, _, ht⟩
    · obtain ⟨w, hw, hmem⟩ := ih ht
      exact ⟨w, by simp [hw], hmem⟩

/-- Each of them is the type of a known value. -/
theorem exists_of_mem_typesBeside (ht : t ∈ v.typesBeside s) :
    ∃ w, v.Contains w ∧ w.isKnown ∧ w.ty = t := by
  induction v using Value.induction generalizing s with
  | null | unknown => cases ht
  | bool | number | string | capsule => exact ⟨_, .self, rfl, eq_of_mem_typeBeside ht⟩
  | items own vs m ih =>
    rw [typesBeside, List.mem_append] at ht
    rcases ht with ht | ht
    · exact ⟨_, .self, rfl, eq_of_mem_typeBeside ht⟩
    · obtain ⟨v, hv, s, ht⟩ := exists_of_mem_typesBesideEach ht
      obtain ⟨w, hw, hknown⟩ := ih v hv ht
      exact ⟨w, .of_mem_parts hv hw, hknown⟩
  | entries own es m ih =>
    rw [typesBeside, List.mem_append, typesBesideEntries_eq_flatMap, List.mem_flatMap] at ht
    rcases ht with ht | ⟨e, he, ht⟩
    · exact ⟨_, .self, rfl, eq_of_mem_typeBeside ht⟩
    · obtain ⟨w, hw, hknown⟩ := ih e he ht
      exact ⟨w, .of_mem_parts (List.mem_map_of_mem he) hw, hknown⟩

theorem typeRead_iff (hts : t.same s) :
    typeRead c t own ↔ ∀ u ∈ typeBeside s own, (c.type? u).isSome := by
  rw [typeRead, typeBeside, isDynamic_of_same hts]
  cases s.isDynamic <;> simp

/-- All types beside the value of a document are read if each of them is. -/
theorem Documented.typesRead_iff (hc : c.Faithful) (hd : v.Documented s) (hv : v.WellFormed)
    (hs : s.WellFormed) (ht : t.WellFormed) (hts : t.same s) (hin : v.InSlot s) :
    v.typesRead c t ↔ ∀ u ∈ v.typesBeside s, (c.type? u).isSome := by
  have hown := hv.type_wellFormed
  induction hd generalizing t with
  | null => simp [typesRead, typesBeside]
  | bool | number | string => exact typeRead_iff hts
  | @list s u vs m _ _ ih =>
    rw [typesRead, Bool.and_eq_true, typesBeside, List.forall_mem_append, typeRead_iff hts]
    refine and_congr_right fun hread => ?_
    obtain ⟨hwell, hsame, -⟩ :=
      slotType_spec hc hown hs ht hts hin ((typeRead_iff hts).mpr hread)
    obtain ⟨u', heq⟩ := exists_list_of_same hsame
    rw [heq] at hwell hsame ⊢
    have hu' : u'.WellFormed := by
      cases hwell
      assumption
    cases hv with
    | list type elems slots =>
      have hslots (t : Ty) : itemSlots (.list t) vs.length = List.replicate vs.length t := rfl
      rw [hslots, hslots, typesReadEach_replicate_iff, typesBesideEach_replicate,
        List.forall_mem_flatMap]
      exact forall₂_congr fun v hv => ih v hv (elems v hv) type hu' hsame (slots v hv)
        (elems v hv).type_wellFormed
  | @object s attrs es m _ _ ih =>
    rw [typesRead, Bool.and_eq_true, typesBeside, List.forall_mem_append, typeRead_iff hts]
    refine and_congr_right fun hread => ?_
    obtain ⟨hwell, hsame, -⟩ :=
      slotType_spec hc hown hs ht hts hin ((typeRead_iff hts).mpr hread)
    obtain ⟨attrs', heq⟩ := exists_object_of_same hsame
    rw [heq] at hwell hsame ⊢
    rw [typesReadEntries_iff, typesBesideEntries_eq_flatMap, List.forall_mem_flatMap]
    refine forall₂_congr fun e he => ?_
    have hmember := hv.of_mem_entries he
    obtain ⟨u, hu, -⟩ := hv.exists_slotOf he
    obtain ⟨htype, htype', hin, huu'⟩ :=
      hv.entry_slots hown hwell hown.same_refl (hwell.same_symm hown hsame) he hu
    obtain ⟨a, ha, rfl⟩ := Option.map_eq_some_iff.mp hu
    have hslot : entrySlot (.object attrs) e.1 = a.ty := by
      rw [entrySlot, hu, Option.getD_some]
    rw [hslot]
    exact ih e he a ha hmember htype htype' (htype.same_symm htype' huu') hin
      hmember.type_wellFormed

end Value

open Value

namespace Native

variable {j : Json} {t : Ty} {v : Value}

/-- A document that was validated as `dynamic` became the value of a document, which can be sent. -/
theorem portable_validate_dynamic (h : (ofJson j).validate .default .dynamic = .ok v) :
    v.Portable Limits.default.maxNumberExponent ∧ v.InSlot .dynamic ∧ v.Documented .dynamic := by
  have hdocumented := documented_validateAt .dynamic .dynamic h
  obtain ⟨hwell, hin⟩ := wellFormed_validateAt .dynamic (by simp [values_ofJson]) h
  refine ⟨⟨hwell, hdocumented.hasCapsule_eq_false hwell .dynamic,
    (bounded_validateAt .dynamic h).numbers, fun w hw r hr => ?_⟩, hin, hdocumented⟩
  rw [refinement?_of_isWhollyKnown (hdocumented.isWhollyKnown hwell) w hw] at hr
  cases hr

/-- The types that are written beside a value that can be sent are read if their texts are. -/
theorem typesBeside_read_iff {limit : Nat} {s : Ty} (hv : v.Portable limit) :
    (∀ t ∈ v.typesBeside s, (Msgpack.echo.type? t).isSome) ↔ ∀ t ∈ v.typesBeside s, ∀ spec,
      t.toJson = .ok spec → spec.nesting ≤ Json.maxOpen ∧ ¬ spec.Refused := by
  refine forall₂_congr fun t ht => ?_
  obtain ⟨w, hw, hknown, rfl⟩ := exists_of_mem_typesBeside ht
  have hwell := hv.wellFormed.of_contains hw
  obtain ⟨spec, hspec⟩ := Ty.exists_describes hwell.type_wellFormed (hv.noCapsule w hw)
  have hread := Msgpack.isSome_typeBack?_iff hwell.type_wellFormed
    (hwell.isDynamic_eq_false hknown) hspec.written
  simp only [hspec.written, Except.ok.injEq, forall_eq']
  exact hread

/-- Something carries the document as `dynamic`, and the reader can pay for it if the document was
read from JSON. -/
theorem exists_carries_dynamic (h : (ofJson j).validate .default .dynamic = .ok v) :
    ∃ m, Msgpack.Carries .default v .dynamic .dynamic m ∧
      (j.nesting ≤ Json.maxOpen → m.cost ≤ Msgpack.budget .default) := by
  obtain ⟨hportable, hin, -⟩ := portable_validate_dynamic h
  obtain ⟨m, hm⟩ := Msgpack.exists_carries (by decide) (by decide) hportable .dynamic .dynamic hin
    Ty.WellFormed.dynamic.same_refl
  refine ⟨m, hm, fun hnesting => ?_⟩
  have hcost := Msgpack.cost_le_of_wellFormed hportable.wellFormed hm.written
  have hbound := (bounded_validateAt .dynamic h).nesting
  have hopen : Json.maxOpen = 127 := rfl
  have hbudget : Msgpack.budget .default = 1001 := by decide
  omega

/-- What carries a document is decoded as an equal value exactly if the reader can pay for it and
each type in it has a text that is read. -/
theorem exists_decodeMsgpack_iff {m : Msgpack}
    (h : (ofJson j).validate .default .dynamic = .ok v)
    (hm : Msgpack.Carries .default v .dynamic .dynamic m) (hfits : m.Fits) :
    (∃ w, decodeMsgpack .default .dynamic m.write = .ok w ∧ w == v) ↔
      m.cost ≤ Msgpack.budget .default ∧ ∀ t ∈ v.typesBeside .dynamic, ∀ spec,
        t.toJson = .ok spec → spec.nesting ≤ Json.maxOpen ∧ ¬ spec.Refused := by
  obtain ⟨hportable, hin, hdocumented⟩ := portable_validate_dynamic h
  have hwell := hportable.wellFormed
  have hsame := Ty.WellFormed.dynamic.same_refl
  rw [← typesBeside_read_iff hportable,
    ← hdocumented.typesRead_iff Msgpack.faithful_echo hwell .dynamic .dynamic hsame hin]
  constructor
  · rintro ⟨w, hw, -⟩
    obtain ⟨hcost, hvalue⟩ := (Msgpack.decodeMsgpack_write_iff hfits).mp hw
    exact ⟨hcost, hm.types 0 w hvalue⟩
  · rintro ⟨hcost, hread⟩
    have hrestored :=
      hdocumented.restored Msgpack.faithful_echo hwell .dynamic .dynamic hsame hin hread
    exact ⟨_, (Msgpack.decodeMsgpack_write_iff hfits).mpr
      ⟨hcost, hm.read hfits hread 0 (cost_le_of_le_budget hcost)⟩, hrestored.same⟩

end Native

/-! ### Objects inside one another -/

/-- Objects of one attribute inside one another, around a Boolean. -/
def Json.tower : Nat → Json
  | 0 => .bool true
  | n + 1 => .object [("a", tower n)]

/-- The type of objects of one attribute inside one another. -/
def Ty.tower : Nat → Ty
  | 0 => .bool
  | n + 1 => .object [⟨"a", tower n, false⟩]

/-- What describes that type. -/
def Ty.towerText : Nat → Json
  | 0 => .string "bool"
  | n + 1 => .array [.string "object", .object [("a", towerText n)]]

/-- The value of objects of one attribute inside one another. -/
def Value.tower : Nat → Value
  | 0 => .bool true
  | n + 1 => ofContent (Ty.tower (n + 1)) (.entries [("a", tower n)])

/-- What that value is written as. -/
def Msgpack.tower : Nat → Msgpack
  | 0 => .bool true
  | n + 1 => .map [(.ofText "a", tower n)]

theorem nfc_a : Text.nfc "a" = "a" := by decide +kernel

theorem Json.nesting_tower (n : Nat) : (Json.tower n).nesting = n := by
  induction n with
  | zero => rfl
  | succ n ih => simp [Json.tower, nesting, nestingOfFields, ih]

theorem Json.typeOf_tower (n : Nat) : (Json.tower n).typeOf = Ty.tower n := by
  induction n with
  | zero => rfl
  | succ n ih =>
    rw [Json.tower, typeOf_object (by simp), Ty.tower, attributesOf, List.map_singleton, nfc_a, ih]

theorem Ty.nesting_towerText (n : Nat) : (Ty.towerText n).nesting = 2 * n := by
  induction n with
  | zero => rfl
  | succ n ih =>
    simp only [Ty.towerText, Json.nesting, Json.nestingOfItems, Json.nestingOfFields, ih]
    omega

theorem Ty.toJson_tower (n : Nat) : (Ty.tower n).toJson = .ok (Ty.towerText n) := by
  induction n with
  | zero => rfl
  | succ n ih =>
    rw [Ty.tower, Ty.toJson_object]
    simp [Attr.inKeyOrder, ih, Ty.firstError, Except.map, Attr.optionalNames, Attr.sortedNames,
      optionalPart, Ty.towerText]

theorem Ty.length_chars_towerText (n : Nat) : (Ty.towerText n).chars.length ≤ 32 * (n + 1) := by
  induction n with
  | zero => decide +kernel
  | succ n ih =>
    have hkind : (Json.quoteChars "object").length = 8 := by decide +kernel
    have hkey : (Json.quoteChars "a").length = 3 := by decide +kernel
    simp only [Ty.towerText, Json.chars, Json.itemChars, Json.fieldChars, List.length_cons,
      List.length_append, List.length_nil, hkind, hkey]
    omega

theorem Value.ty_tower (n : Nat) : (Value.tower n).ty = Ty.tower n := by
  cases n <;> rfl

/-- One attribute makes an object. -/
theorem Native.objectOf_singleton {t : Ty} {v : Value} : objectOf (.object [⟨"a", t, false⟩])
    [⟨"a", t, false⟩] [(.string "a", .ok v)] =
      .ok (ofContent (.object [⟨"a", t, false⟩]) (.entries [("a", v)])) := by
  have hnames : gatherNames [] [(.string "a", .ok v)] = .ok [("a", .ok v)] := by rfl
  have hdeclared : Wire.undeclared? [(⟨"a", t, false⟩ : Attr Ty)] ["a"] = none :=
    Wire.undeclared?_eq_none_iff.mpr (by simp)
  have hmembers : Ty.firstError (declaredMembers [⟨"a", t, false⟩] [("a", .ok v)]) =
      .ok [("a", v)] := rfl
  simp only [objectOf, hnames, List.map, hdeclared, hmembers, Except.map, sortEntries,
    List.mergeSort_singleton]
  rfl

theorem Native.validateAt_tower {limits : Limits} {depth n : Nat} {t : Ty}
    (h : depth + n ≤ limits.maxDepth)
    (hdecided : decidedType limits depth t (ofJson (Json.tower n)) = .ok (Ty.tower n)) :
    validateAt limits depth t (ofJson (Json.tower n)) = .ok (Value.tower n) := by
  have hle : ¬ limits.maxDepth < depth := by omega
  induction n generalizing depth t with
  | zero =>
    simp only [Json.tower, ofJson] at hdecided
    simp only [Json.tower, ofJson, validateAt, hle, if_false, hdecided]
    rfl
  | succ n ih =>
    simp only [Json.tower, ofJson, ofJsonFields] at hdecided
    have hmember := ih (by omega : depth + 1 + n ≤ _)
      (by cases n <;> rfl : decidedType limits (depth + 1) (Ty.tower n) _ = _) (by omega)
    have htype : memberType [⟨"a", Ty.tower n, false⟩] (string "a") = Ty.tower n := by rfl
    simp only [Json.tower, ofJson, ofJsonFields, validateAt, hle, if_false, hdecided, Ty.tower,
      validateEntries, htype, hmember]
    exact objectOf_singleton

theorem Value.toMsgpack_tower (n : Nat) :
    (Value.tower n).toMsgpack (Ty.tower n) = .ok (Msgpack.tower n) := by
  induction n with
  | zero => rfl
  | succ n ih =>
    simp [Value.tower, Ty.tower, ofContent, toMsgpack, wrapMsgpack, Ty.isDynamic, Ty.slotType,
      entriesToMsgpack, Attr.find?, ih, Except.map, Msgpack.tower]

theorem Msgpack.fits_tower (n : Nat) : (Msgpack.tower n).Fits := by
  induction n with
  | zero => exact .bool true
  | succ n ih =>
    refine .map (show 1 < 0x100000000 by decide) ?_ ?_ <;> simp only [List.forall_mem_singleton]
    · exact .str (by decide +kernel)
    · exact ih

/-- Only the outermost object has its type beside it. -/
theorem Value.typesBeside_tower (n : Nat) :
    (Value.tower n).typesBeside .dynamic = [Ty.tower n] := by
  have hinside (n : Nat) : (Value.tower n).typesBeside (Ty.tower n) = [] := by
    induction n with
    | zero => rfl
    | succ n ih => simpa [Value.tower, Ty.tower, ofContent, typesBeside, typeBeside, Ty.isDynamic,
        typesBesideEntries, entrySlot, slotOf?, Attr.find?] using ih
  cases n with
  | zero => rfl
  | succ n =>
    simpa [Value.tower, Ty.tower, ofContent, typesBeside, typeBeside, Ty.isDynamic,
      typesBesideEntries, entrySlot, slotOf?, Attr.find?] using hinside n

theorem Ty.not_refused_towerText (n : Nat) : ¬ (Ty.towerText n).Refused := by
  induction n with
  | zero => exact fun h => by cases h
  | succ n ih =>
    intro h
    cases h with
    | item hj h =>
      simp only [List.mem_cons, List.not_mem_nil, or_false] at hj
      rcases hj with rfl | rfl
      · cases h
      · generalize hfields : [("a", towerText n)] = fields at h
        cases h with
        | here => simp [Json.numberName] at hfields
        | field hf h =>
          obtain rfl := List.mem_singleton.mp (hfields ▸ hf)
          exact ih h

namespace Native

theorem validate_tower {n : Nat} (h : n ≤ Limits.default.maxDepth) :
    (ofJson (Json.tower n)).validate .default .dynamic = .ok (Value.tower n) := by
  have hnull : (Json.tower n).isNull = false := by cases n <;> rfl
  have hdecided := @Json.decidedType_ofJson .default 0 .dynamic (Json.tower n) hnull
    (by rw [Json.nesting_tower]; omega)
  have hplace : Json.placeType .dynamic (Json.tower n) = Ty.tower n := Json.typeOf_tower n
  exact validateAt_tower (by omega) (hplace ▸ hdecided)

/-- Up to 127 objects of one attribute inside one another are encoded, but only up to 63 are decoded
again: their type has two levels for each of them. -/
theorem decodeMsgpack_tower_iff {n : Nat} (h : n ≤ Json.maxOpen) :
    ∃ bytes, (Value.tower n).encodeMsgpack .dynamic = .ok bytes ∧
      ((∃ w, decodeMsgpack .default .dynamic bytes = .ok w ∧ w == Value.tower n) ↔
        2 * n ≤ Json.maxOpen) := by
  have hopen : Json.maxOpen = 127 := rfl
  have hvalid := @validate_tower n (h.trans (by decide))
  obtain ⟨m, hm, hcost⟩ := exists_carries_dynamic hvalid
  have hcost := hcost (by rwa [Json.nesting_tower])
  have hwritten : (Value.tower n).toMsgpack .dynamic = .ok
      (.array [.bin (Text.Utf8.ofString (Ty.towerText n).compact), Msgpack.tower n]) := by
    rw [Msgpack.toMsgpack_of_isDynamic rfl (by cases n <;> rfl) (by cases n <;> rfl), ty_tower,
      wrapMsgpack, Ty.toJson_tower, toMsgpack_tower]
    rfl
  have hfits : m.Fits := by
    obtain rfl := Except.ok.inj (hm.written.symm.trans hwritten)
    refine .array (show 2 < 0x100000000 by decide) ?_
    simp only [List.forall_mem_cons]
    refine ⟨.bin ?_, Msgpack.fits_tower n, List.forall_mem_nil _⟩
    have hbytes := Text.Utf8.length_encode_le (Ty.towerText n).chars
    have hchars := Ty.length_chars_towerText n
    rw [Text.Utf8.ofString, Json.compact, String.toList_ofList]
    omega
  refine ⟨m.write, ?_, ?_⟩
  · rw [encodeMsgpack, hm.written]
    rfl
  · rw [exists_decodeMsgpack_iff hvalid hm hfits, typesBeside_tower]
    simp [hcost, Ty.toJson_tower, Ty.nesting_towerText, Ty.not_refused_towerText]

/-! ### Documents that come back -/

/-- A document that is validated as `dynamic` is encoded as such, and if it was read from JSON, the
reader can pay for the bytes. They are decoded as an equal value exactly if the reader can pay, and
each type in them has a text that nests no deeper than JSON may and misuses no reserved name. -/
theorem decodeMsgpack_validate_dynamic (h : (ofJson j).validate .default .dynamic = .ok v) :
    ∃ m, v.toMsgpack .dynamic = .ok m ∧ v.encodeMsgpack .dynamic = .ok m.write ∧
      (j.nesting ≤ Json.maxOpen → m.cost ≤ Msgpack.budget .default) ∧
      (m.Fits → ((∃ w, decodeMsgpack .default .dynamic m.write = .ok w ∧ w == v) ↔
        m.cost ≤ Msgpack.budget .default ∧ ∀ t ∈ v.typesBeside .dynamic, ∀ spec,
          t.toJson = .ok spec → spec.nesting ≤ Json.maxOpen ∧ ¬ spec.Refused)) := by
  obtain ⟨m, hm, hcost⟩ := exists_carries_dynamic h
  refine ⟨m, hm.written, ?_, hcost, exists_decodeMsgpack_iff h hm⟩
  rw [encodeMsgpack, hm.written]
  rfl

/-- A number and a text in an array come back, each with its type beside it. -/
theorem decodeMsgpack_validate_dynamic_mixed :
    ∃ v bytes w, (ofJson (.array [.number "1", .string "a"])).validate .default .dynamic = .ok v ∧
      v.encodeMsgpack .dynamic = .ok bytes ∧
      decodeMsgpack .default .dynamic bytes = .ok w ∧ w == v := by
  -- Elements of two kinds make a list of `dynamic` elements.
  have hunify : Ty.unify [.number, .string] = .dynamic := by
    have hdynamic : (Ty.unify [.number, .string]).isDynamic := by decide +kernel
    revert hdynamic
    cases Ty.unify [.number, .string] <;> simp [Ty.isDynamic]
  have hdecided : decidedType .default 0 .dynamic (.list [.number ⟨1, 0⟩, .string "a"]) =
      .ok (.list .dynamic) := congrArg (fun t => Except.ok (Ty.list t)) hunify
  have hvalid : (ofJson (.array [.number "1", .string "a"])).validate .default .dynamic =
      .ok (ofContent (.list .dynamic) (.items [.number ⟨1, 0⟩, .string "a"])) := by
    show validateAt .default 0 .dynamic (.list [.number ⟨1, 0⟩, .string "a"]) = _
    have hle : ¬ Limits.default.maxDepth < 0 := by decide
    simp only [validateAt, hle, if_false, hdecided]
    rfl
  obtain ⟨m, hm, hbytes, hcost, hagain⟩ := decodeMsgpack_validate_dynamic hvalid
  have hwritten : (ofContent (.list .dynamic) (.items [.number ⟨1, 0⟩, .string "a"])).toMsgpack
      .dynamic = .ok (.array [
        .bin (Text.Utf8.ofString (Json.array [.string "list", .string "dynamic"]).compact),
        .array [.array [.bin (Text.Utf8.ofString (Json.string "number").compact), .ofNumber ⟨1, 0⟩],
          .array [.bin (Text.Utf8.ofString (Json.string "string").compact), .ofText "a"]]]) := rfl
  obtain rfl := Except.ok.inj (hm.symm.trans hwritten)
  -- Each type and each value is short, and no type spells out a number.
  have hpair {text : String} {inner : Msgpack} (h : (Text.Utf8.ofString text).length < 0x100000000)
      (hinner : inner.Fits) : (Msgpack.array [.bin (Text.Utf8.ofString text), inner]).Fits := by
    refine .array (show 2 < 0x100000000 by decide) ?_
    simp only [List.forall_mem_cons]
    exact ⟨.bin h, hinner, List.forall_mem_nil _⟩
  have hfits := @hpair (Json.array [.string "list", .string "dynamic"]).compact (.array [
      .array [.bin (Text.Utf8.ofString (Json.string "number").compact), .ofNumber ⟨1, 0⟩],
      .array [.bin (Text.Utf8.ofString (Json.string "string").compact), .ofText "a"]])
    (by decide +kernel) <| .array (by decide) <| by
      simp only [List.forall_mem_cons]
      exact ⟨hpair (by decide +kernel) (Msgpack.fits_ofNumber (by decide +kernel)),
        hpair (by decide +kernel) (.str (by decide +kernel)), List.forall_mem_nil _⟩
  have htexts : ∀ t ∈ [Ty.list .dynamic, .number, .string], ∀ spec, t.toJson = .ok spec →
      spec.nesting ≤ Json.maxOpen ∧ ¬ spec.Refused := by
    simp only [List.forall_mem_cons]
    refine ⟨fun spec hspec => ?_, fun spec hspec => ?_, fun spec hspec => ?_,
      List.forall_mem_nil _⟩ <;> obtain rfl := Except.ok.inj hspec
    · refine ⟨by decide, fun h => ?_⟩
      cases h with
      | item hj h =>
        simp only [List.mem_cons, List.not_mem_nil, or_false] at hj
        rcases hj with rfl | rfl <;> cases h
    all_goals exact ⟨by decide, fun h => by cases h⟩
  obtain ⟨w, hw, hsame⟩ := (hagain hfits).mpr ⟨hcost (by decide), htexts⟩
  exact ⟨_, _, w, hvalid, hbytes, hw, hsame⟩

/-- Not every document that is validated as `dynamic` comes back, even if it was read from JSON. -/
theorem decodeMsgpack_validate_dynamic_nested :
    ¬ ∀ (j : Json) (v : Value), j.nesting ≤ Json.maxOpen →
      (ofJson j).validate .default .dynamic = .ok v → v.isKnown → ∃ bytes w,
        v.encodeMsgpack .dynamic = .ok bytes ∧ decodeMsgpack .default .dynamic bytes = .ok w ∧
          w == v := by
  intro h
  have hnesting : 64 ≤ Json.maxOpen := by decide
  obtain ⟨bytes, w, hbytes, hw, hsame⟩ := h (Json.tower 64) (Value.tower 64)
    (by rwa [Json.nesting_tower]) (validate_tower (by decide)) rfl
  obtain ⟨bytes', hbytes', hiff⟩ := decodeMsgpack_tower_iff hnesting
  obtain rfl := Except.ok.inj (hbytes.symm.trans hbytes')
  exact absurd (hiff.mp ⟨w, hw, hsame⟩) (by decide)

end Native

end TypedData
