import TypedData.Proofs.Decimal.Literal
import TypedData.Proofs.Json.Typing
import TypedData.Proofs.Validation
import TypedData.Proofs.Wire.Members

/-!
# Validation of JSON documents

A document that has what a type asks for fails to validate under it for one reason only: an
attribute that the type at its place does not declare. Where the type is left to the document
this still may happen, since several objects in one array have a common type, and that declares
the attributes which all of them have.

## Main definitions

* `Json.Verdict` — an outcome of validation that tells whether every attribute is declared

## Main results

* `Json.verdict_validateAt` — validation tells whether every attribute is declared
* `Json.validate_dynamic_iff_declared` — which documents validate where nothing is asked for
-/

namespace TypedData

namespace Json

variable {limits : Limits} {limit depth : Nat} {t : Ty} {j : Json}

/-! ### Numbers and types of documents -/

/-- A number within a bound that native data allows is exact. -/
theorem ofJsonNumber_of_ofText {s : String} {n : Decimal} (hlimit : limit ≤ Native.maxJsonExponent)
    (h : Decimal.ofText s limit = .ok n) : Native.ofJsonNumber s = .number n := by
  rw [Native.ofJsonNumber, Decimal.ofText_of_le hlimit h]

/-- A document has what the type at its place asks for. -/
theorem Meets.placeType (hj : j.Admissible limit) (h : Meets t j) : Meets (placeType t j) j := by
  rw [Json.placeType, Ty.slotType]
  split
  · exact hj.meets_typeOf
  · exact h

/-- An array that has what a type asks for goes with a list. -/
theorem Meets.exists_list {js : List Json} (h : Meets t (.array js)) (ht : t.isDynamic = false) :
    ∃ u, t = .list u ∧ ∀ j ∈ js, Meets u j := by
  cases h with
  | dynamic => cases ht
  | array hitems => exact ⟨_, rfl, hitems⟩

/-- An object that has what a type asks for goes with an object of attributes that it has. -/
theorem Meets.exists_object {fs : List (String × Json)} (h : Meets t (.object fs))
    (ht : t.isDynamic = false) : ∃ attrs, t = .object attrs ∧
      (∀ a ∈ attrs, a.name ∈ fs.map fun f => Text.nfc f.1) ∧
      ∀ f ∈ fs, ∀ a, Attr.find? attrs (Text.nfc f.1) = some a → Meets a.ty f.2 := by
  cases h with
  | dynamic => cases ht
  | object present values => exact ⟨_, rfl, present, values⟩

theorem isDynamic_placeType (hj : j.isNull = false) : (placeType t j).isDynamic = false := by
  rw [placeType, Ty.slotType]
  split
  · rw [isDynamic_typeOf, hj]
  · rename_i h
    exact Bool.eq_false_iff.mpr h

/-- A document is validated under the type at its place. -/
theorem decidedType_ofJson (hj : j.isNull = false) (hdepth : depth + j.nesting ≤ limits.maxDepth) :
    Native.decidedType limits depth t (Native.ofJson j) = .ok (placeType t j) := by
  have hinfer : (Native.ofJson j).infer (limits.maxDepth - depth) = j.typeOf :=
    inferAt_ofJson (by omega)
  rw [Native.decidedType, placeType, Ty.slotType, hinfer]
  split
  · simp only [isDynamic_typeOf, hj, Bool.false_eq_true, if_false]
  · rfl

/-! ### Verdicts -/

/-- An outcome of the validation of a document that tells whether every attribute is declared. A
value is known and of the type at its place, unless there is no document. -/
def Verdict (t : Ty) (j : Json) : Except ValidationError Value → Prop
  | .ok v => declared t j ∧ v.isUnknown = false ∧
      if j.isNull then v = .null t else v.isNull = false ∧ v.ty = placeType t j
  | .error e => declared t j = false ∧ ∃ name, e.reason = .extraneousAttribute name

/-- The verdict on a document that declares all, if validation comes to one. -/
theorem Verdict.exists_ok {r : Except ValidationError Value} (h : Verdict t j r)
    (hj : declared t j) : ∃ v, r = .ok v ∧ v.isUnknown = false ∧
      if j.isNull then v = .null t else v.isNull = false ∧ v.ty = placeType t j := by
  cases r with
  | ok v => exact ⟨v, rfl, h.2⟩
  | error e => rw [h.1] at hj; cases hj

theorem Verdict.exists_error {r : Except ValidationError Value} (h : Verdict t j r)
    (hj : declared t j = false) :
    ∃ path name, r = .error ⟨path, .extraneousAttribute name⟩ := by
  cases r with
  | ok v => rw [h.1] at hj; cases hj
  | error e =>
    obtain ⟨name, hname⟩ := h.2
    exact ⟨e.path, name, by rw [← hname]⟩

/-! ### Items of arrays -/

/-- Items of one type are valid if each of them is, and the first that is not gives the reason. -/
theorem verdict_validateItems {js : List Json} {i : Nat}
    (h : ∀ j ∈ js, Verdict t j (Native.validateAt limits depth t (Native.ofJson j))) :
    match Native.validateItems limits depth i (List.replicate js.length t)
      (Native.ofJsonItems js) with
    | .ok vs => (∀ j ∈ js, declared t j) ∧ ∀ v ∈ vs, v.isUnknown = false
    | .error e => (∃ j ∈ js, declared t j = false) ∧
        ∃ name, e.reason = .extraneousAttribute name := by
  induction js generalizing i with
  | nil => exact ⟨nofun, nofun⟩
  | cons j js ih =>
    obtain ⟨hj, hjs⟩ := List.forall_mem_cons.mp h
    rw [List.length_cons, List.replicate_succ, Native.ofJsonItems, Native.validateItems,
      List.headD_cons, List.tail_cons]
    cases hr : Native.validateAt limits depth t (Native.ofJson j) with
    | error e =>
      rw [hr] at hj
      exact ⟨⟨j, by simp, hj.1⟩, hj.2⟩
    | ok v =>
      rw [hr] at hj
      have hrest := @ih (i + 1) hjs
      cases hrs : Native.validateItems limits depth (i + 1) (List.replicate js.length t)
          (Native.ofJsonItems js) with
      | error e =>
        rw [hrs] at hrest
        obtain ⟨⟨j', hj', hfalse⟩, hname⟩ := hrest
        exact ⟨⟨j', by simp [hj'], hfalse⟩, hname⟩
      | ok vs =>
        rw [hrs] at hrest
        exact ⟨List.forall_mem_cons.mpr ⟨hj.1, hrest.1⟩,
          List.forall_mem_cons.mpr ⟨hj.2.1, hrest.2⟩⟩

theorem length_ofJsonItems (js : List Json) : (Native.ofJsonItems js).length = js.length := by
  induction js with
  | nil => rfl
  | cons j js ih => rw [Native.ofJsonItems, List.length_cons, ih, List.length_cons]

/-- An array is valid if its items are, and else the reason is that of one of them. -/
theorem verdict_array {u : Ty} {js : List Json} (hplace : placeType t (array js) = .list u)
    (hdecided : Native.decidedType limits depth t (.list (Native.ofJsonItems js)) =
      .ok (.list u)) (hle : ¬ limits.maxDepth < depth)
    (h : ∀ j ∈ js, Verdict u j (Native.validateAt limits (depth + 1) u (Native.ofJson j))) :
    Verdict t (array js) (Native.validateAt limits depth t (Native.ofJson (array js))) := by
  have hdeclared : declared t (array js) = declaredItems u js := by
    rw [declared, hplace]
    rfl
  have hverdicts := @verdict_validateItems limits (depth + 1) u js 0 h
  simp only [Native.ofJson, Native.validateAt, hle, if_false, hdecided, Native.itemTypes,
    length_ofJsonItems]
  cases hvs : Native.validateItems limits (depth + 1) 0 (List.replicate js.length u)
      (Native.ofJsonItems js) with
  | ok vs =>
    rw [hvs] at hverdicts
    have hknown : vs.any Value.isUnknown = false :=
      List.any_eq_false.mpr fun v hv => Bool.eq_false_iff.mp (hverdicts.2 v hv)
    refine ⟨?_, ?_, ?_, ?_⟩
    · rw [hdeclared, declaredItems_iff]
      exact hverdicts.1
    all_goals simp only [Value.sequence, hknown, Bool.false_eq_true, if_false]
    · rfl
    · rfl
    · exact hplace.symm
  | error e =>
    rw [hvs] at hverdicts
    obtain ⟨⟨j, hj, hfalse⟩, hname⟩ := hverdicts
    refine ⟨?_, hname⟩
    rw [hdeclared, Bool.eq_false_iff, ne_eq, declaredItems_iff]
    exact fun hall => Bool.eq_false_iff.mp hfalse (hall j hj)

/-! ### Fields of objects -/

/-- The fields of an object by their names, each validated under the type of its attribute. -/
def checkedFields (limits : Limits) (depth : Nat) (attrs : List (Attr Ty))
    (fs : List (String × Json)) : List (String × Except ValidationError Value) :=
  fs.map fun f => (Text.nfc f.1,
    Native.validateAt limits depth (Wire.attrType attrs (Text.nfc f.1)) (Native.ofJson f.2))

theorem gatherNames_ofJsonFields {attrs : List (Attr Ty)} {fs : List (String × Json)}
    {seen : List String} (names : (fs.map fun f => Text.nfc f.1).Nodup)
    (hseen : ∀ f ∈ fs, Text.nfc f.1 ∉ seen) :
    Native.gatherNames seen (Native.validateEntries limits depth (Native.memberType attrs)
      (Native.ofJsonFields fs)) = .ok (checkedFields limits depth attrs fs) := by
  induction fs generalizing seen with
  | nil => rfl
  | cons f fs ih =>
    rw [List.map_cons, List.nodup_cons] at names
    obtain ⟨hf, hfs⟩ := List.forall_mem_cons.mp hseen
    have hrest : ∀ g ∈ fs, Text.nfc g.1 ∉ Text.nfc f.1 :: seen := fun g hg hmem => by
      rcases List.mem_cons.mp hmem with heq | hmem
      · exact names.1 (heq ▸ List.mem_map_of_mem hg)
      · exact hfs g hg hmem
    simp only [Native.ofJsonFields, Native.validateEntries, Native.gatherNames, Native.asKey?,
      List.contains_eq_mem, hf, decide_false, Bool.false_eq_true, if_false, ih names.2 hrest]
    rfl

theorem map_fst_checkedFields (attrs : List (Attr Ty)) (fs : List (String × Json)) :
    (checkedFields limits depth attrs fs).map (·.1) = fs.map fun f => Text.nfc f.1 := by
  rw [checkedFields, List.map_map]
  rfl

/-- The value of a declared attribute is the field of that name, validated under its type. -/
theorem find?_checkedFields {attrs : List (Attr Ty)} {fs : List (String × Json)} {a : Attr Ty}
    (names : (fs.map fun f => Text.nfc f.1).Nodup) {f : String × Json} (hf : f ∈ fs)
    (ha : Attr.find? attrs (Text.nfc f.1) = some a) :
    (checkedFields limits depth attrs fs).find? (·.1 == a.name) =
      some (a.name, Native.validateAt limits depth a.ty (Native.ofJson f.2)) := by
  have hmem : (Text.nfc f.1, Native.validateAt limits depth a.ty (Native.ofJson f.2)) ∈
      checkedFields limits depth attrs fs :=
    List.mem_map.mpr ⟨f, hf, by rw [Wire.attrType, ha]; rfl⟩
  rw [← @map_fst_checkedFields limits depth attrs fs] at names
  rw [Attr.name_of_find? ha]
  exact Wire.find?_key_eq names hmem

theorem declared_object {attrs : List (Attr Ty)} {fs : List (String × Json)}
    (hplace : placeType t (object fs) = .object attrs) :
    declared t (object fs) = declaredFields attrs fs := by
  rw [declared, hplace]
  rfl

/-- A field for which no attribute is declared, or in which one is not, tells so of its object. -/
theorem declared_object_eq_false {attrs : List (Attr Ty)} {fs : List (String × Json)}
    (hplace : placeType t (object fs) = .object attrs) {f : String × Json} (hf : f ∈ fs)
    (h : ∀ a, Attr.find? attrs (Text.nfc f.1) = some a → declared a.ty f.2 = false) :
    declared t (object fs) = false := by
  rw [declared_object hplace, Bool.eq_false_iff, ne_eq, declaredFields_iff]
  -- All fields would be declared, this one among them.
  intro hall
  obtain ⟨a, ha, htrue⟩ := hall f hf
  exact Bool.eq_false_iff.mp (h a ha) htrue

/-- If no attribute is missing, members are refused because one of the fields is. -/
theorem verdict_of_firstError {attrs : List (Attr Ty)} {fs : List (String × Json)}
    {e : ValidationError} (hplace : placeType t (object fs) = .object attrs)
    (names : (fs.map fun f => Text.nfc f.1).Nodup)
    (present : ∀ a ∈ attrs, a.name ∈ fs.map fun f => Text.nfc f.1)
    (hdeclared : ∀ f ∈ fs, ∃ a, Attr.find? attrs (Text.nfc f.1) = some a)
    (h : ∀ f ∈ fs, ∀ a, Attr.find? attrs (Text.nfc f.1) = some a →
      Verdict a.ty f.2 (Native.validateAt limits depth a.ty (Native.ofJson f.2)))
    (hmembers : Ty.firstError (Native.declaredMembers attrs
      (checkedFields limits depth attrs fs)) = .error e) :
    Verdict t (object fs) (.error e) := by
  obtain ⟨x, hx, he⟩ := Ty.exists_of_firstError_eq_error hmembers
  obtain ⟨a, ha, rfl⟩ := List.mem_map.mp hx
  obtain ⟨f, hf, hname⟩ := List.mem_map.mp (present a ha)
  obtain ⟨b, hb⟩ := hdeclared f hf
  have hverdict := h f hf b hb
  have hsame : b.name = a.name := (Attr.name_of_find? hb).trans hname
  simp only [← hsame, find?_checkedFields names hf hb] at he
  cases hr : Native.validateAt limits depth b.ty (Native.ofJson f.2) with
  | ok v => rw [hr] at he; cases he
  | error e' =>
    rw [hr] at he hverdict
    obtain rfl := Except.error.inj he
    refine ⟨declared_object_eq_false hplace hf fun b' hb' => ?_, hverdict.2⟩
    obtain rfl := Option.some.inj (hb.symm.trans hb')
    exact hverdict.1

/-- An object that has every attribute is valid if each of its fields is, and else the reason is
an attribute that is not declared. -/
theorem verdict_objectOf {attrs : List (Attr Ty)} {fs : List (String × Json)}
    (hplace : placeType t (object fs) = .object attrs)
    (names : (fs.map fun f => Text.nfc f.1).Nodup)
    (present : ∀ a ∈ attrs, a.name ∈ fs.map fun f => Text.nfc f.1)
    (h : ∀ f ∈ fs, ∀ a, Attr.find? attrs (Text.nfc f.1) = some a →
      Verdict a.ty f.2 (Native.validateAt limits depth a.ty (Native.ofJson f.2))) :
    Verdict t (object fs) (Native.objectOf (.object attrs) attrs
      (Native.validateEntries limits depth (Native.memberType attrs)
        (Native.ofJsonFields fs))) := by
  rw [Native.objectOf, gatherNames_ofJsonFields names (by simp)]
  simp only [map_fst_checkedFields]
  split
  · -- A field is not declared.
    rename_i k hk
    obtain ⟨hmem, hnone⟩ := Wire.not_mem_of_undeclared? hk
    obtain ⟨f, hf, rfl⟩ := List.mem_map.mp hmem
    refine ⟨declared_object_eq_false hplace hf fun a ha => ?_, _, rfl⟩
    rw [hnone] at ha
    cases ha
  rename_i hnames
  rw [Wire.undeclared?_eq_none_iff] at hnames
  have hdeclared : ∀ f ∈ fs, ∃ a, Attr.find? attrs (Text.nfc f.1) = some a := fun f hf =>
    Option.isSome_iff_exists.mp (Attr.find?_isSome_iff.mpr (hnames _ (List.mem_map_of_mem hf)))
  cases hmembers : Ty.firstError (Native.declaredMembers attrs
      (checkedFields limits depth attrs fs)) with
  | error e => exact verdict_of_firstError hplace names present hdeclared h hmembers
  | ok es =>
    refine ⟨?_, rfl, rfl, ?_⟩
    · rw [declared_object hplace, declaredFields_iff]
      intro f hf
      obtain ⟨a, ha⟩ := hdeclared f hf
      rw [Native.declaredMembers, Ty.firstError_map_eq_ok_iff] at hmembers
      obtain ⟨e, -, -, hok⟩ := hmembers.exists_of_mem_left (Attr.mem_of_find? ha)
      simp only [find?_checkedFields names hf ha, Except.mapError_eq_ok_iff] at hok
      have hverdict := h f hf a ha
      rw [hok] at hverdict
      exact ⟨a, ha, hverdict.1⟩
    · rw [hplace]
      exact Value.mapping_ty _ _

/-! ### Documents -/

/-- Validation under a type that asks for nothing more than there is tells whether every attribute
is declared. -/
theorem verdict_validateAt (hlimit : limits.maxNumberExponent ≤ Native.maxJsonExponent)
    (hj : j.Admissible limits.maxNumberExponent) (hmeets : Meets t j)
    (hdepth : depth + j.nesting ≤ limits.maxDepth) :
    Verdict t j (Native.validateAt limits depth t (Native.ofJson j)) := by
  have hle : ¬ limits.maxDepth < depth := by omega
  -- The type at each place of the document is decided before its parts are looked at.
  induction hj generalizing t depth with
  | null =>
    rw [Native.ofJson, Native.validateAt, if_neg hle]
    exact ⟨rfl, rfl, rfl⟩
  | @bool b =>
    have hplace : placeType t (bool b) = .bool := by cases hmeets <;> rfl
    have hdecided := @decidedType_ofJson limits depth t (bool b) rfl hdepth
    rw [hplace, Native.ofJson] at hdecided
    simp only [Native.ofJson, Native.validateAt, hle, if_false, hdecided]
    exact ⟨rfl, rfl, rfl, hplace.symm⟩
  | @number s n hn =>
    have hplace : placeType t (number s) = .number := by cases hmeets <;> rfl
    have hdecided := @decidedType_ofJson limits depth t (number s) rfl hdepth
    rw [hplace, Native.ofJson, ofJsonNumber_of_ofText hlimit hn] at hdecided
    simp only [Native.ofJson, ofJsonNumber_of_ofText hlimit hn, Native.validateAt, hle, if_false,
      hdecided, Native.validateScalar, Native.toNumber, Decimal.within_of_ofText hn, if_true]
    exact ⟨rfl, rfl, rfl, hplace.symm⟩
  | @string s =>
    have hplace : placeType t (string s) = .string := by cases hmeets <;> rfl
    have hdecided := @decidedType_ofJson limits depth t (string s) rfl hdepth
    rw [hplace, Native.ofJson] at hdecided
    simp only [Native.ofJson, Native.validateAt, hle, if_false, hdecided]
    exact ⟨rfl, rfl, rfl, hplace.symm⟩
  | @array js hjs ih =>
    obtain ⟨u, hplace, hitems⟩ := (hmeets.placeType (.array hjs)).exists_list
      (isDynamic_placeType rfl)
    have hdecided := @decidedType_ofJson limits depth t (array js) rfl hdepth
    rw [hplace, Native.ofJson] at hdecided
    refine verdict_array hplace hdecided hle fun j hj => ?_
    have := nesting_le_nestingOfItems hj
    rw [nesting] at hdepth
    exact ih j hj (hitems j hj) (by omega) (by omega)
  | @object fs names hfs ih =>
    obtain ⟨attrs, hplace, present, hvalues⟩ := (hmeets.placeType (.object names hfs)).exists_object
      (isDynamic_placeType rfl)
    have hdecided := @decidedType_ofJson limits depth t (object fs) rfl hdepth
    rw [hplace, Native.ofJson] at hdecided
    simp only [Native.ofJson, Native.validateAt, hle, if_false, hdecided]
    refine verdict_objectOf hplace names present fun f hf a ha => ?_
    have := nesting_le_nestingOfFields hf
    rw [nesting] at hdepth
    exact ih f hf (hvalues f hf a ha) (by omega) (by omega)

/-! ### Documents of any type -/

/-- Where nothing is asked for, a document is accepted exactly if every attribute in it is declared
by the type that is inferred for its place, and what is accepted is known and has the type that
is inferred for the document. The only other outcome is that an attribute is not supported. -/
theorem validate_dynamic_iff_declared
    (hlimit : limits.maxNumberExponent ≤ Native.maxJsonExponent)
    (hj : j.Admissible limits.maxNumberExponent) (hdepth : j.nesting ≤ limits.maxDepth) :
    (declared .dynamic j → ∃ v, Native.validate limits .dynamic (Native.ofJson j) = .ok v ∧
      if j.isNull then v = .null .dynamic
      else v.isKnown ∧ v.ty = (Native.ofJson j).infer limits.maxDepth) ∧
    (declared .dynamic j = false → ∃ path name,
      Native.validate limits .dynamic (Native.ofJson j) =
        .error ⟨path, .extraneousAttribute name⟩) := by
  have hdepth' : 0 + j.nesting ≤ limits.maxDepth := by omega
  have hverdict := verdict_validateAt hlimit hj .dynamic hdepth'
  refine ⟨fun hdeclared => ?_, hverdict.exists_error⟩
  obtain ⟨v, hv, hunknown, hkind⟩ := hverdict.exists_ok hdeclared
  refine ⟨v, hv, ?_⟩
  split at hkind
  · rwa [if_pos ‹_›]
  · rw [if_neg ‹_›, Value.isKnown, hunknown, hkind.1, hkind.2, Native.infer, inferAt_ofJson hdepth']
    exact ⟨rfl, rfl⟩

theorem validate_dynamic_alike :
    let j := array [object [("a", number "1")], object [("a", number "2")]]
    declared .dynamic j ∧ ∃ v, Native.validate .default .dynamic (Native.ofJson j) = .ok v ∧
      v.isKnown ∧ v.ty.same (.list (.object [⟨"a", .number, false⟩])) := by
  intro j
  have hdeclared : declared .dynamic j := by decide +kernel
  have hj : j.Admissible Limits.default.maxNumberExponent := by
    refine .array ?_
    simp only [List.forall_mem_cons]
    refine ⟨.object (by decide +kernel) ?_, .object (by decide +kernel) ?_, nofun⟩
      <;> simp only [List.forall_mem_cons]
    · exact ⟨.number (by rfl : Decimal.ofText "1" _ = .ok ⟨1, 0⟩), nofun⟩
    · exact ⟨.number (by rfl : Decimal.ofText "2" _ = .ok ⟨2, 0⟩), nofun⟩
  obtain ⟨v, hv, hknown, hty⟩ :=
    (validate_dynamic_iff_declared (by decide) hj (by decide +kernel)).1 hdeclared
  refine ⟨hdeclared, v, hv, hknown, ?_⟩
  rw [hty]
  decide +kernel

/-- Not every document is accepted: where two objects in an array differ in an attribute, neither
may have it. -/
theorem validate_dynamic_unlike :
    ¬ ∀ (limits : Limits) (j : Json), limits.maxNumberExponent ≤ Native.maxJsonExponent →
      j.Admissible limits.maxNumberExponent → j.nesting ≤ limits.maxDepth →
        ∃ v, Native.validate limits .dynamic (Native.ofJson j) = .ok v := by
  intro h
  let j := array [object [("a", number "1")], object [("a", number "2"), ("b", number "3")]]
  have hj : j.Admissible Limits.default.maxNumberExponent := by
    refine .array ?_
    simp only [List.forall_mem_cons]
    refine ⟨.object (by decide +kernel) ?_, .object (by decide +kernel) ?_, nofun⟩
      <;> simp only [List.forall_mem_cons]
    · exact ⟨.number (by rfl : Decimal.ofText "1" _ = .ok ⟨1, 0⟩), nofun⟩
    · exact ⟨.number (by rfl : Decimal.ofText "2" _ = .ok ⟨2, 0⟩),
        .number (by rfl : Decimal.ofText "3" _ = .ok ⟨3, 0⟩), nofun⟩
  obtain ⟨v, hv⟩ := h .default j (by decide) hj (by decide +kernel)
  have hverdict := @verdict_validateAt .default 0 .dynamic j (by decide) hj .dynamic
    (by decide +kernel)
  rw [show Native.validateAt .default 0 .dynamic (Native.ofJson j) = .ok v from hv] at hverdict
  exact absurd hverdict.1 (by decide +kernel)

end Json

end TypedData
