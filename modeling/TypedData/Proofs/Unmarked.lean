import TypedData.Proofs.Conversion
import TypedData.Proofs.Checks
import TypedData.Proofs.Inference
import TypedData.Proofs.Value.Unmarked
import TypedData.Validation
import TypedData.Wire.ToJson

/-!
# Marks have no say in what is done with data

Marks travel with values and decide nothing. Taking them away before a conversion or a validation
gives what taking them away afterwards gives, failures included, and encodings do not change at all.
So nothing that is observed of data, apart from marks, tells which marks there are.

## Main definitions

* `Native.withoutMarks` — native data without the marks of the values in it

## Main results

* `Value.convertAt_withoutMarks` — conversion of values without marks
* `Native.validateAt_withoutMarks` — validation of native data without marks
* `Native.same_outcome_of_withoutMarks_eq` — data that differs in marks only is treated alike
-/

namespace TypedData

namespace Value

variable {limits : Limits} {ε : Type}

/-- The results of checks without marks. -/
abbrev unmarkedChecks (xs : List (String × Except ε Value)) : List (String × Except ε Value) :=
  xs.map fun x => (x.1, x.2.map withoutMarks)

theorem sortEntries_unmarkedEntries (es : Entries Value) :
    sortEntries (unmarkedEntries es) = unmarkedEntries (sortEntries es) := by
  rw [sortEntries, sortEntries, unmarkedEntries, unmarkedEntries]
  symm
  apply List.map_mergeSort
  intro a _ b _
  rfl

theorem firstError_unmarkedChecks (xs : List (String × Except ε Value)) :
    Ty.firstError (unmarkedChecks xs) = (Ty.firstError xs).map unmarkedEntries :=
  Ty.firstError_map withoutMarks xs

theorem unmarkedChecks_mapError {ε' : Type} (f : String → ε → ε')
    (xs : List (String × Except ε Value)) :
    (unmarkedChecks xs).map (fun x => (x.1, x.2.mapError (f x.1))) =
      unmarkedChecks (xs.map fun x => (x.1, x.2.mapError (f x.1))) := by
  rw [unmarkedChecks, unmarkedChecks, List.map_map, List.map_map]
  refine List.map_congr_left fun x _ => ?_
  simp only [Function.comp_apply, Except.mapError_map]

/-! ### Conversion -/

theorem convertItems_withoutMarks {vs : List Value}
    (h : ∀ v ∈ vs, ∀ depth target,
      v.withoutMarks.convertAt limits depth target =
        (v.convertAt limits depth target).map withoutMarks)
    (depth i : Nat) (targets : List Ty) :
    convertItems limits depth i targets (vs.map withoutMarks) =
      (convertItems limits depth i targets vs).map (List.map withoutMarks) := by
  induction vs generalizing i targets with
  | nil => rfl
  | cons v vs ih =>
    rw [List.forall_mem_cons] at h
    rw [List.map_cons, convertItems, convertItems, h.1, ih h.2]
    cases v.convertAt limits depth (targets.headD .dynamic) with
    | error e => rfl
    | ok w => cases convertItems limits depth (i + 1) targets.tail vs <;> rfl

theorem convertEntries_withoutMarks {es : Entries Value}
    (h : ∀ e ∈ es, ∀ depth target, e.2.withoutMarks.convertAt limits depth target =
      (e.2.convertAt limits depth target).map withoutMarks)
    (depth : Nat) (targetOf : String → Option Ty) :
    convertEntries limits depth targetOf (unmarkedEntries es) =
      unmarkedChecks (convertEntries limits depth targetOf es) := by
  induction es with
  | nil => rfl
  | cons e es ih =>
    obtain ⟨k, v⟩ := e
    rw [List.forall_mem_cons] at h
    rw [unmarkedEntries, List.map_cons, convertEntries, convertEntries]
    cases targetOf k with
    | none => exact ih h.2
    | some t => simp only [h.1, ih h.2, List.map_cons]

theorem find?_unmarkedChecks (xs : List (String × Except ε Value)) (name : String) :
    (unmarkedChecks xs).find? (·.1 == name) =
      (xs.find? (·.1 == name)).map fun x => (x.1, x.2.map withoutMarks) := by
  rw [unmarkedChecks, List.find?_map]
  rfl

theorem convertedAttributes_withoutMarks (source target : Ty) (attrs : List (Attr Ty))
    (members : List (String × Except ConversionError Value)) :
    convertedAttributes source target attrs (unmarkedChecks members) =
      unmarkedChecks (convertedAttributes source target attrs members) := by
  unfold convertedAttributes
  rw [unmarkedChecks, unmarkedChecks, List.map_map]
  refine List.map_congr_left fun a _ => ?_
  rw [find?_unmarkedChecks, Function.comp_apply]
  cases members.find? (·.1 == a.name) with
  | none =>
    simp only [Option.map_none]
    split <;> rfl
  | some x => simp only [Option.map_some, Except.mapError_map]

theorem extraneous?_unmarkedEntries (attrs : List (Attr Ty)) (es : Entries Value) :
    extraneous? attrs (unmarkedEntries es) = extraneous? attrs es := by
  rw [extraneous?, extraneous?, unmarkedEntries, List.find?_map, Option.map_map]
  rfl

/-- What a scalar becomes has no marks yet. -/
theorem withoutMarks_of_convertScalar {target : Ty} {c : Content Value} {w : Value}
    (h : convertScalar limits target c = .ok w) : w.withoutMarks = w := by
  cases primitive_of_convertScalar h <;> rfl

/-- Conversion of a value without marks gives what it gives with them, without marks. -/
theorem convertAt_withoutMarks (v : Value) (depth : Nat) (target : Ty) :
    v.withoutMarks.convertAt limits depth target =
      (v.convertAt limits depth target).map withoutMarks := by
  -- Whatever is asked before conversion goes inside has the same answer without marks.
  induction v using Value.induction generalizing depth target with
  | null ty m | unknown ty r m =>
    simp only [withoutMarks, convertAt, retype?]
    split
    · rfl
    · split
      · rfl
      · split <;> rfl
  | bool ty b m | number ty n m | string ty s m | capsule ty h m =>
    simp only [withoutMarks, convertAt, retype?]
    split
    · rfl
    · split
      · rfl
      · split
        · rename_i w hw
          rw [withMarks_empty, Except.map, withoutMarks_withMarks, withoutMarks_of_convertScalar hw]
        · rfl
  | items ty vs m ih =>
    rw [withoutMarks_items]
    simp only [convertAt, retype?, List.length_map]
    split
    · exact congrArg Except.ok (withoutMarks_items ty vs m).symm
    · split
      · rfl
      · split
        · split
          · rfl
          · rename_i targets _
            rw [convertItems_withoutMarks ih]
            cases convertItems limits (depth + 1) 0 targets vs with
            | error e => rfl
            | ok ws => simp [Except.map, sequence_withoutMarks]
        · rfl
  | entries ty es m ih =>
    rw [withoutMarks_entries]
    simp only [convertAt, retype?]
    split
    · exact congrArg Except.ok (withoutMarks_entries ty es m).symm
    · split
      · rfl
      · split
        · rw [convertEntries_withoutMarks ih,
            unmarkedChecks_mapError fun k (e : ConversionError) => e.inside (.key k),
            firstError_unmarkedChecks, Except.map_map, Except.map_map]
          simp only [mapping_withoutMarks, withMarks_empty, withoutMarks_withMarks]
        · rw [extraneous?_unmarkedEntries]
          split
          · rfl
          · rw [convertEntries_withoutMarks ih, convertedAttributes_withoutMarks,
              firstError_unmarkedChecks, Except.map_map, Except.map_map]
            simp only [sortEntries_unmarkedEntries, mapping_withoutMarks, withMarks_empty,
              withoutMarks_withMarks]
        · rfl

/-! ### Encodings -/

private theorem itemsToJson_withoutMarks {vs : List Value}
    (h : ∀ v ∈ vs, ∀ slot, v.withoutMarks.toJson slot = v.toJson slot) (i : Nat)
    (slots : List Ty) : itemsToJson i slots (vs.map withoutMarks) = itemsToJson i slots vs := by
  induction vs generalizing i slots with
  | nil => rfl
  | cons v vs ih =>
    rw [List.forall_mem_cons] at h
    rw [List.map_cons, itemsToJson, itemsToJson, h.1, ih h.2]

private theorem entriesToJson_withoutMarks {es : Entries Value}
    (h : ∀ e ∈ es, ∀ slot, e.2.withoutMarks.toJson slot = e.2.toJson slot)
    (slotOf : String → Option Ty) :
    entriesToJson slotOf (unmarkedEntries es) = entriesToJson slotOf es := by
  induction es with
  | nil => rfl
  | cons e es ih =>
    obtain ⟨k, v⟩ := e
    rw [List.forall_mem_cons] at h
    rw [unmarkedEntries, List.map_cons, entriesToJson, entriesToJson, ih h.2]
    cases slotOf k with
    | none => rfl
    | some slot => simp only [h.1 slot]

private theorem unlessReserved_unmarkedEntries (es : Entries Value)
    (body : Except EncodeError Json) :
    unlessReserved (unmarkedEntries es) body = unlessReserved es body := by
  rw [unlessReserved, unlessReserved, unmarkedEntries, List.any_map]
  rfl

/-- Marks are not written. -/
theorem toJson_withoutMarks (v : Value) (slot : Ty) :
    v.withoutMarks.toJson slot = v.toJson slot := by
  induction v using Value.induction generalizing slot with
  | null | unknown | bool | number | string | capsule => rfl
  | items ty vs m ih =>
    rw [withoutMarks_items]
    simp only [toJson, itemsToJson_withoutMarks ih, List.length_map]
  | entries ty es m ih =>
    rw [withoutMarks_entries]
    simp only [toJson, entriesToJson_withoutMarks ih, unlessReserved_unmarkedEntries]

end Value

namespace Native

open Value

variable {limits : Limits}

/-! ### Native data without marks -/

mutual

/-- Native data without the marks of the values in it, also those in keys. -/
def withoutMarks : Native → Native
  | .value v => .value v.withoutMarks
  | .list items => .list (withoutMarksEach items)
  | .tuple items => .tuple (withoutMarksEach items)
  | .set items => .set (withoutMarksEach items)
  | .map entries => .map (withoutMarksEntries entries)
  | raw => raw

/-- Several items without marks. -/
def withoutMarksEach : List Native → List Native
  | [] => []
  | raw :: rest => raw.withoutMarks :: withoutMarksEach rest

/-- Several entries without marks. -/
def withoutMarksEntries : List (Native × Native) → List (Native × Native)
  | [] => []
  | (k, raw) :: rest => (k.withoutMarks, raw.withoutMarks) :: withoutMarksEntries rest

end

theorem length_withoutMarksEach (items : List Native) :
    (withoutMarksEach items).length = items.length := by
  induction items with
  | nil => rfl
  | cons raw rest ih => rw [withoutMarksEach, List.length_cons, ih, List.length_cons]

@[simp] theorem kindName_withoutMarks (raw : Native) :
    raw.withoutMarks.kindName = raw.kindName := by
  cases raw <;> rfl

@[simp] theorem asKey?_withoutMarks (raw : Native) : raw.withoutMarks.asKey? = raw.asKey? := by
  cases raw with
  | value v =>
    obtain ⟨ty, c, m⟩ := v
    cases c <;> rfl
  | _ => rfl

/-! ### Inference -/

theorem inferEach_withoutMarks {limit : Nat} {items : List Native}
    (h : ∀ raw ∈ items, ∀ depth, inferAt limit depth raw.withoutMarks = inferAt limit depth raw)
    (depth : Nat) :
    inferEach limit depth (withoutMarksEach items) = inferEach limit depth items := by
  induction items with
  | nil => rfl
  | cons raw rest ih =>
    rw [List.forall_mem_cons] at h
    rw [withoutMarksEach, inferEach, inferEach, h.1, ih h.2]

theorem inferEntries_withoutMarks {limit : Nat} {entries : List (Native × Native)}
    (h : ∀ e ∈ entries, ∀ depth,
      inferAt limit depth e.2.withoutMarks = inferAt limit depth e.2) (depth : Nat) :
    inferEntries limit depth (withoutMarksEntries entries) =
      (inferEntries limit depth entries).map fun e => (e.1.withoutMarks, e.2) := by
  induction entries with
  | nil => rfl
  | cons e rest ih =>
    obtain ⟨k, raw⟩ := e
    rw [List.forall_mem_cons] at h
    rw [withoutMarksEntries, inferEntries, inferEntries, h.1, ih h.2, List.map_cons]

theorem inferMap_withoutMarks (entries : List (Native × Ty)) :
    inferMap (entries.map fun e => (e.1.withoutMarks, e.2)) = inferMap entries := by
  have hkeys : attributesOfKeys? (entries.map fun e => (e.1.withoutMarks, e.2)) =
      attributesOfKeys? entries := by
    induction entries with
    | nil => rfl
    | cons e rest ih =>
      rw [List.map_cons, attributesOfKeys?, attributesOfKeys?, ih, asKey?_withoutMarks]
  rw [inferMap, inferMap, hkeys, List.map_map]
  rfl

/-- The type of native data does not depend on marks. -/
theorem inferAt_withoutMarks (limit depth : Nat) (raw : Native) :
    inferAt limit depth raw.withoutMarks = inferAt limit depth raw := by
  induction raw using Native.induction generalizing depth with
  | absent | bool | int | float | number | string | bytes | capsule => rfl
  | value v => simp only [withoutMarks, inferAt, withoutMarks_ty]
  | list items ih | tuple items ih | set items ih =>
    simp only [withoutMarks, inferAt, inferEach_withoutMarks ih]
  | map entries ih =>
    simp only [withoutMarks, inferAt, inferEntries_withoutMarks ih, inferMap_withoutMarks]

/-! ### Validation -/

/-- A value is accepted as it is without marks. -/
theorem accept_withoutMarks (ty : Ty) (v : Value) :
    accept limits ty v.withoutMarks = (accept limits ty v).map Value.withoutMarks := by
  unfold accept convert
  rw [withoutMarks_ty, retype?_withoutMarks, convertAt_withoutMarks]
  split
  · rfl
  · split
    · rfl
    · cases v.retype? ty with
      | none => exact Except.mapError_map _ _ _
      | some w => rfl

theorem declaredMembers_unmarkedChecks (attrs : List (Attr Ty))
    (members : List (String × Except ValidationError Value)) :
    declaredMembers attrs (unmarkedChecks members) =
      unmarkedChecks (declaredMembers attrs members) := by
  unfold declaredMembers
  rw [unmarkedChecks, unmarkedChecks, List.map_map]
  refine List.map_congr_left fun a _ => ?_
  rw [find?_unmarkedChecks, Function.comp_apply]
  cases members.find? (·.1 == a.name) with
  | none =>
    simp only [Option.map_none]
    split <;> rfl
  | some x => simp only [Option.map_some, Except.mapError_map]

/-- The refusal of data does not depend on marks. -/
@[simp] theorem refuse_withoutMarks {α : Type} (ty : Ty) (raw : Native) :
    (refuse ty raw.withoutMarks : Except ValidationError α) = refuse ty raw := by
  simp only [refuse, kindName_withoutMarks]

theorem decidedType_withoutMarks (depth : Nat) (ty : Ty) (raw : Native) :
    decidedType limits depth ty raw.withoutMarks = decidedType limits depth ty raw := by
  have ht (limit : Nat) : raw.withoutMarks.infer limit = raw.infer limit :=
    inferAt_withoutMarks limit 0 raw
  rw [decidedType, decidedType, ht, refuse_withoutMarks]

theorem itemTypes_withoutMarks (ty : Ty) (raw : Native) (n : Nat) :
    itemTypes ty raw.withoutMarks n = itemTypes ty raw n := by
  cases ty <;> cases raw <;> rfl

/-- Members without the marks of what they hold and of their keys. -/
abbrev unmarkedMembers (members : List Member) : List Member :=
  members.map fun m => (m.1.withoutMarks, m.2.map Value.withoutMarks)

theorem gatherMap_unmarkedMembers (seen : List String) (members : List Member) :
    gatherMap seen (unmarkedMembers members) = (gatherMap seen members).map unmarkedEntries := by
  induction members generalizing seen with
  | nil => rfl
  | cons m rest ih =>
    obtain ⟨k, r⟩ := m
    rw [unmarkedMembers, List.map_cons, gatherMap, gatherMap]
    simp only [asKey?_withoutMarks, kindName_withoutMarks]
    cases k.asKey? with
    | none => rfl
    | some s =>
      simp only
      split
      · rfl
      · cases r with
        | error e => rfl
        | ok v =>
          simp only [ih]
          cases gatherMap (Text.nfc s :: seen) rest <;> rfl

theorem gatherNames_unmarkedMembers (seen : List String) (members : List Member) :
    gatherNames seen (unmarkedMembers members) =
      (gatherNames seen members).map unmarkedChecks := by
  induction members generalizing seen with
  | nil => rfl
  | cons m rest ih =>
    obtain ⟨k, r⟩ := m
    rw [unmarkedMembers, List.map_cons, gatherNames, gatherNames]
    simp only [asKey?_withoutMarks, kindName_withoutMarks]
    cases k.asKey? with
    | none => rfl
    | some s =>
      simp only
      split
      · rfl
      · rw [ih]
        cases gatherNames (Text.nfc s :: seen) rest <;> rfl

theorem objectOf_unmarkedMembers (ty : Ty) (attrs : List (Attr Ty)) (members : List Member) :
    objectOf ty attrs (unmarkedMembers members) =
      (objectOf ty attrs members).map Value.withoutMarks := by
  rw [objectOf, objectOf, gatherNames_unmarkedMembers]
  cases gatherNames [] members with
  | error e => rfl
  | ok named =>
    have hnames : (unmarkedChecks named).map (·.1) = named.map (·.1) := by
      rw [unmarkedChecks, List.map_map]
      rfl
    have hok : Except.map unmarkedChecks (.ok named) =
      (.ok (unmarkedChecks named) : Except ValidationError _) := rfl
    rw [hok]
    simp only [hnames]
    split
    · rfl
    · rw [declaredMembers_unmarkedChecks, firstError_unmarkedChecks, Except.map_map,
        Except.map_map]
      simp only [sortEntries_unmarkedEntries, mapping_withoutMarks]

theorem validateScalar_withoutMarks (ty : Ty) (raw : Native) :
    (validateScalar limits ty raw).map Value.withoutMarks = validateScalar limits ty raw := by
  unfold validateScalar
  split
  · rfl
  · cases toNumber limits raw <;> rfl
  · rfl
  · split <;> rfl
  · split <;> rfl
  · rfl

theorem validateItems_withoutMarks {items : List Native}
    (h : ∀ raw ∈ items, ∀ depth ty, validateAt limits depth ty raw.withoutMarks =
      (validateAt limits depth ty raw).map Value.withoutMarks) (depth i : Nat) (types : List Ty) :
    validateItems limits depth i types (withoutMarksEach items) =
      (validateItems limits depth i types items).map (List.map Value.withoutMarks) := by
  induction items generalizing i types with
  | nil => rfl
  | cons raw rest ih =>
    rw [List.forall_mem_cons] at h
    rw [withoutMarksEach, validateItems, validateItems, h.1, ih h.2]
    cases validateAt limits depth (types.headD .dynamic) raw with
    | error e => rfl
    | ok v => cases validateItems limits depth (i + 1) types.tail rest <;> rfl

theorem validateEntries_withoutMarks {entries : List (Native × Native)} {typeOf : Native → Ty}
    (h : ∀ e ∈ entries, ∀ depth ty, validateAt limits depth ty e.2.withoutMarks =
      (validateAt limits depth ty e.2).map Value.withoutMarks)
    (htype : ∀ k, typeOf k.withoutMarks = typeOf k) (depth : Nat) :
    validateEntries limits depth typeOf (withoutMarksEntries entries) =
      unmarkedMembers (validateEntries limits depth typeOf entries) := by
  induction entries with
  | nil => rfl
  | cons e rest ih =>
    obtain ⟨k, raw⟩ := e
    rw [List.forall_mem_cons] at h
    rw [withoutMarksEntries, validateEntries, validateEntries, h.1, htype, ih h.2]
    rfl

/-- Items become a sequence as they do without marks, once its type is decided. -/
theorem sequenceOf_withoutMarks {items : List Native}
    (h : ∀ raw ∈ items, ∀ depth ty, validateAt limits depth ty raw.withoutMarks =
      (validateAt limits depth ty raw).map Value.withoutMarks) (depth : Nat) (ty : Ty)
    (raw : Native) :
    (match itemTypes ty raw.withoutMarks (withoutMarksEach items).length with
      | .error e => Except.error e
      | .ok types =>
        (validateItems limits depth 0 types (withoutMarksEach items)).map (Value.sequence ty)) =
    (match itemTypes ty raw items.length with
      | .error e => Except.error e
      | .ok types => (validateItems limits depth 0 types items).map (Value.sequence ty)).map
        Value.withoutMarks := by
  rw [itemTypes_withoutMarks, length_withoutMarksEach]
  split
  · rfl
  · rw [validateItems_withoutMarks h, Except.map_map, Except.map_map]
    simp only [sequence_withoutMarks]

/-- Lists, tuples and sets of items are validated alike. -/
theorem validateAt_items_withoutMarks {items : List Native} {raw : Native} {depth : Nat} {ty : Ty}
    (h : ∀ raw ∈ items, ∀ depth ty, validateAt limits depth ty raw.withoutMarks =
      (validateAt limits depth ty raw).map Value.withoutMarks)
    (hraw : raw = list items ∨ raw = tuple items ∨ raw = set items) :
    validateAt limits depth ty raw.withoutMarks =
      (validateAt limits depth ty raw).map Value.withoutMarks := by
  have hdecided := @decidedType_withoutMarks limits depth ty raw
  have hsequence (ty : Ty) := sequenceOf_withoutMarks h (depth + 1) ty raw
  obtain rfl | rfl | rfl := hraw
  all_goals
    simp only [withoutMarks, validateAt] at hdecided hsequence ⊢
    rw [hdecided]
    split
    · rfl
    · split
      · rfl
      · exact hsequence _

/-- Validation of data without marks gives what it gives with them, without marks. -/
theorem validateAt_withoutMarks (raw : Native) (depth : Nat) (ty : Ty) :
    validateAt limits depth ty raw.withoutMarks =
      (validateAt limits depth ty raw).map Value.withoutMarks := by
  induction raw using Native.induction generalizing depth ty with
  | absent =>
    simp only [withoutMarks, validateAt]
    split <;> rfl
  | value v =>
    simp only [withoutMarks, validateAt, accept_withoutMarks]
    split <;> rfl
  | bool | int | float | number | string | bytes | capsule =>
    simp only [withoutMarks, validateAt]
    split
    · rfl
    · split
      · rfl
      · exact (validateScalar_withoutMarks _ _).symm
  | list items ih => exact validateAt_items_withoutMarks ih (.inl rfl)
  | tuple items ih => exact validateAt_items_withoutMarks ih (.inr (.inl rfl))
  | set items ih => exact validateAt_items_withoutMarks ih (.inr (.inr rfl))
  | map entries ih =>
    have hdecided := @decidedType_withoutMarks limits depth ty (map entries)
    simp only [withoutMarks, validateAt] at hdecided ⊢
    rw [hdecided]
    split
    · rfl
    · split
      · rfl
      · split
        · rw [validateEntries_withoutMarks ih fun _ => rfl, gatherMap_unmarkedMembers,
            Except.map_map, Except.map_map]
          simp only [sortEntries_unmarkedEntries, mapping_withoutMarks]
        · rename_i attrs _
          have htype (k : Native) : memberType attrs k.withoutMarks = memberType attrs k := by
            rw [memberType, memberType, asKey?_withoutMarks]
          rw [validateEntries_withoutMarks ih htype, objectOf_unmarkedMembers]
        · rfl

/-! ### Data that differs in marks only -/

/-- Data that differs in marks only, at whatever depth, is treated alike. Validation and conversion
both succeed, with results that differ in marks only, or both fail, in the same way and at the same
place. Encodings are the same, or fail in the same way. -/
theorem same_outcome_of_withoutMarks_eq {raw raw' : Native} {v w : Value}
    (hraw : raw.withoutMarks = raw'.withoutMarks) (hv : v.withoutMarks = w.withoutMarks)
    (limits : Limits) (ty : Ty) :
    (raw.validate limits ty).map Value.withoutMarks =
      (raw'.validate limits ty).map Value.withoutMarks ∧
    (v.convert limits ty).map Value.withoutMarks = (w.convert limits ty).map Value.withoutMarks ∧
    v.encodeMsgpack ty = w.encodeMsgpack ty ∧ v.encodeJson ty = w.encodeJson ty := by
  refine ⟨?_, ?_, ?_, ?_⟩
  · rw [validate, validate, ← validateAt_withoutMarks, ← validateAt_withoutMarks, hraw]
  · rw [convert, convert, ← convertAt_withoutMarks, ← convertAt_withoutMarks, hv]
  · rw [encodeMsgpack, encodeMsgpack, ← toMsgpack_withoutMarks v, ← toMsgpack_withoutMarks w, hv]
  · rw [encodeJson, encodeJson, ← toJson_withoutMarks v, ← toJson_withoutMarks w, hv]

/-- A mark on the first of two equal elements of a set, and the same elements with a mark on the
second. -/
theorem same_outcome_of_marks_moved :
    let a := Value.string "a"
    let raw := Native.set [.value (a.mark "x"), .value a]
    let raw' := Native.set [.value a, .value (a.mark "y")]
    let v : Value := ⟨.tuple [.string, .string], .items [a.mark "x", a], .empty⟩
    let w : Value := ⟨.tuple [.string, .string], .items [a, a.mark "y"], .empty⟩
    let ty := Ty.set .string
    (raw.validate .default ty).map Value.withoutMarks =
      (raw'.validate .default ty).map Value.withoutMarks ∧
    (v.convert .default ty).map Value.withoutMarks =
      (w.convert .default ty).map Value.withoutMarks ∧
    v.encodeMsgpack ty = w.encodeMsgpack ty ∧ v.encodeJson ty = w.encodeJson ty := by
  intro a raw raw' v w ty
  have hraw : raw.withoutMarks = raw'.withoutMarks := rfl
  have hv : v.withoutMarks = w.withoutMarks := rfl
  exact same_outcome_of_withoutMarks_eq hraw hv .default ty

end Native

end TypedData
