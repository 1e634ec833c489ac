import TypedData.Proofs.Checks
import TypedData.Proofs.Inference
import TypedData.Proofs.Ty.Spelling
import TypedData.Validation

/-!
# Spellings of keys do not matter

Wherever native data is looked at, its keys are taken in composed form. So data with other spellings
of the keys, at whatever depth, has the same type and becomes the same value, or is refused for the
same reason at the same place.

## Main definitions

* `Native.composed` — native data with all keys in composed form

## Main results

* `Native.inferAt_composed` — the spelling of keys does not matter to the type of data
* `Native.validateAt_composed` — nor to its validation
* `Native.same_outcome_of_composed_eq` — spellings matter neither to types nor to data nor to paths
-/

namespace TypedData

namespace Native

variable {limits : Limits}

/-! ### Data with composed keys -/

/-- A key in composed form. Typed strings may be keys, too. -/
def composedKey : Native → Native
  | .string s => .string (Text.nfc s)
  | .value ⟨ty, .string s, m⟩ => .value ⟨ty, .string (Text.nfc s), m⟩
  | k => k

mutual

/-- Native data with the keys of all maps in it in composed form. -/
def composed : Native → Native
  | .list items => .list (composedEach items)
  | .tuple items => .tuple (composedEach items)
  | .set items => .set (composedEach items)
  | .map entries => .map (composedEntries entries)
  | raw => raw

/-- Several items with keys in composed form. -/
def composedEach : List Native → List Native
  | [] => []
  | raw :: rest => raw.composed :: composedEach rest

/-- Several entries with their own keys and those inside in composed form. -/
def composedEntries : List (Native × Native) → List (Native × Native)
  | [] => []
  | (k, raw) :: rest => (k.composed.composedKey, raw.composed) :: composedEntries rest

end

theorem length_composedEach (items : List Native) :
    (composedEach items).length = items.length := by
  induction items with
  | nil => rfl
  | cons raw rest ih => rw [composedEach, List.length_cons, ih, List.length_cons]

@[simp] theorem kindName_composed (raw : Native) : raw.composed.kindName = raw.kindName := by
  cases raw <;> rfl

@[simp] theorem kindName_composedKey (k : Native) : k.composedKey.kindName = k.kindName := by
  unfold composedKey
  split <;> rfl

@[simp] theorem asKey?_composed (k : Native) : k.composed.asKey? = k.asKey? := by
  cases k <;> rfl

@[simp] theorem asKey?_composedKey (k : Native) : k.composedKey.asKey? = k.asKey?.map Text.nfc := by
  cases k with
  | value v =>
    obtain ⟨ty, content, m⟩ := v
    cases content <;> rfl
  | _ => rfl

/-! ### Inference -/

theorem inferEach_composed {limit : Nat} {items : List Native}
    (h : ∀ raw ∈ items, ∀ depth, inferAt limit depth raw.composed = inferAt limit depth raw)
    (depth : Nat) :
    inferEach limit depth (composedEach items) = inferEach limit depth items := by
  induction items with
  | nil => rfl
  | cons raw rest ih =>
    rw [List.forall_mem_cons] at h
    rw [composedEach, inferEach, inferEach, h.1, ih h.2]

theorem inferEntries_composed {limit : Nat} {entries : List (Native × Native)}
    (h : ∀ e ∈ entries, ∀ depth, inferAt limit depth e.2.composed = inferAt limit depth e.2)
    (depth : Nat) :
    inferEntries limit depth (composedEntries entries) =
      (inferEntries limit depth entries).map fun e => (e.1.composed.composedKey, e.2) := by
  induction entries with
  | nil => rfl
  | cons e rest ih =>
    obtain ⟨k, raw⟩ := e
    rw [List.forall_mem_cons] at h
    rw [composedEntries, inferEntries, inferEntries, h.1, ih h.2, List.map_cons]

theorem attributesOfKeys?_composed (entries : List (Native × Ty)) :
    attributesOfKeys? (entries.map fun e => (e.1.composed.composedKey, e.2)) =
      (attributesOfKeys? entries).map (List.map fun a => (Text.nfc a.1, a.2)) := by
  induction entries with
  | nil => rfl
  | cons e rest ih =>
    obtain ⟨k, t⟩ := e
    rw [List.map_cons, attributesOfKeys?, attributesOfKeys?, ih, asKey?_composedKey,
      asKey?_composed]
    cases k.asKey? with
    | none => rfl
    | some s => cases attributesOfKeys? rest <;> rfl

theorem inferMap_composed (entries : List (Native × Ty)) :
    inferMap (entries.map fun e => (e.1.composed.composedKey, e.2)) = inferMap entries := by
  rw [inferMap, inferMap, attributesOfKeys?_composed]
  cases attributesOfKeys? entries with
  | none => simp only [Option.map_none, List.map_map, Function.comp_def]
  | some attrs =>
    simp only [Option.map_some, Ty.ofAttributes, List.foldl_map, Text.nfc_nfc]

/-- The type of native data does not depend on the spelling of keys. -/
theorem inferAt_composed (limit depth : Nat) (raw : Native) :
    inferAt limit depth raw.composed = inferAt limit depth raw := by
  induction raw using Native.induction generalizing depth with
  | absent | bool | int | float | number | string | bytes | capsule | value => rfl
  | list items ih | tuple items ih | set items ih =>
    simp only [composed, inferAt, inferEach_composed ih]
  | map entries ih =>
    simp only [composed, inferAt, inferEntries_composed ih, inferMap_composed]

/-! ### Validation -/

@[simp] theorem refuse_composed {α : Type} (ty : Ty) (raw : Native) :
    (refuse ty raw.composed : Except ValidationError α) = refuse ty raw := by
  simp only [refuse, kindName_composed]

theorem decidedType_composed (depth : Nat) (ty : Ty) (raw : Native) :
    decidedType limits depth ty raw.composed = decidedType limits depth ty raw := by
  have ht (limit : Nat) : raw.composed.infer limit = raw.infer limit :=
    inferAt_composed limit 0 raw
  rw [decidedType, decidedType, ht, refuse_composed]

theorem itemTypes_composed (ty : Ty) (raw : Native) (n : Nat) :
    itemTypes ty raw.composed n = itemTypes ty raw n := by
  cases ty <;> cases raw <;> rfl

/-- Members under their keys in composed form. -/
abbrev composedMembers (members : List Member) : List Member :=
  members.map fun m => (m.1.composed.composedKey, m.2)

/-- A map takes its keys in composed form anyway. -/
theorem gatherMap_composedMembers (seen : List String) (members : List Member) :
    gatherMap seen (composedMembers members) = gatherMap seen members := by
  induction members generalizing seen with
  | nil => rfl
  | cons m rest ih =>
    obtain ⟨k, r⟩ := m
    rw [composedMembers, List.map_cons, gatherMap, gatherMap]
    simp only [asKey?_composedKey, asKey?_composed, kindName_composedKey, kindName_composed]
    cases k.asKey? with
    | none => rfl
    | some s => simp only [Option.map_some, Text.nfc_nfc, ih]

/-- So does an object. -/
theorem gatherNames_composedMembers (seen : List String) (members : List Member) :
    gatherNames seen (composedMembers members) = gatherNames seen members := by
  induction members generalizing seen with
  | nil => rfl
  | cons m rest ih =>
    obtain ⟨k, r⟩ := m
    rw [composedMembers, List.map_cons, gatherNames, gatherNames]
    simp only [asKey?_composedKey, asKey?_composed, kindName_composedKey, kindName_composed]
    cases k.asKey? with
    | none => rfl
    | some s => simp only [Option.map_some, Text.nfc_nfc, ih]

theorem memberType_composed (attrs : List (Attr Ty)) (k : Native) :
    memberType attrs k.composed.composedKey = memberType attrs k := by
  rw [memberType, memberType, asKey?_composedKey, asKey?_composed, Option.map_map]
  simp only [Function.comp_def, Text.nfc_nfc]

theorem validateItems_composed {items : List Native}
    (h : ∀ raw ∈ items, ∀ depth ty,
      validateAt limits depth ty raw.composed = validateAt limits depth ty raw)
    (depth i : Nat) (types : List Ty) :
    validateItems limits depth i types (composedEach items) =
      validateItems limits depth i types items := by
  induction items generalizing i types with
  | nil => rfl
  | cons raw rest ih =>
    rw [List.forall_mem_cons] at h
    rw [composedEach, validateItems, validateItems, h.1, ih h.2]

theorem validateEntries_composed {entries : List (Native × Native)} {typeOf : Native → Ty}
    (h : ∀ e ∈ entries, ∀ depth ty,
      validateAt limits depth ty e.2.composed = validateAt limits depth ty e.2)
    (htype : ∀ k, typeOf k.composed.composedKey = typeOf k) (depth : Nat) :
    validateEntries limits depth typeOf (composedEntries entries) =
      composedMembers (validateEntries limits depth typeOf entries) := by
  induction entries with
  | nil => rfl
  | cons e rest ih =>
    obtain ⟨k, raw⟩ := e
    rw [List.forall_mem_cons] at h
    rw [composedEntries, validateEntries, validateEntries, h.1, htype, ih h.2]
    rfl

/-- Lists, tuples and sets of items are validated alike. -/
theorem validateAt_items_composed {items : List Native} {raw : Native} {depth : Nat} {ty : Ty}
    (h : ∀ raw ∈ items, ∀ depth ty,
      validateAt limits depth ty raw.composed = validateAt limits depth ty raw)
    (hraw : raw = list items ∨ raw = tuple items ∨ raw = set items) :
    validateAt limits depth ty raw.composed = validateAt limits depth ty raw := by
  have hdecided := @decidedType_composed limits depth ty raw
  have htypes (ty : Ty) := itemTypes_composed ty raw items.length
  obtain rfl | rfl | rfl := hraw
  all_goals
    simp only [composed] at hdecided htypes
    simp only [composed, validateAt, hdecided, htypes, length_composedEach,
      validateItems_composed h]

/-- Validation of data does not depend on the spelling of keys. -/
theorem validateAt_composed (raw : Native) (depth : Nat) (ty : Ty) :
    validateAt limits depth ty raw.composed = validateAt limits depth ty raw := by
  induction raw using Native.induction generalizing depth ty with
  | absent | bool | int | float | number | string | bytes | capsule | value => rfl
  | list items ih => exact validateAt_items_composed ih (.inl rfl)
  | tuple items ih => exact validateAt_items_composed ih (.inr (.inl rfl))
  | set items ih => exact validateAt_items_composed ih (.inr (.inr rfl))
  | map entries ih =>
    have hdecided := @decidedType_composed limits depth ty (map entries)
    simp only [composed, validateAt] at hdecided ⊢
    rw [hdecided]
    split
    · rfl
    split
    · rfl
    split
    · rw [validateEntries_composed ih fun _ => rfl, gatherMap_composedMembers]
    · rename_i attrs _
      rw [validateEntries_composed ih (memberType_composed attrs), objectOf, objectOf,
        gatherNames_composedMembers]
    · rfl

/-! ### Data that differs in spelling only -/

/-- Spellings do not matter. Declarations of types that agree in composed form declare the same
type, or fail alike. Data that agrees in composed form has the same type and becomes the same value
of every type, or is refused for the same reason at the same place. Paths that agree in composed
form lead from every value and every type to the same place, or fail at the same step. -/
theorem same_outcome_of_composed_eq {d d' : Declaration} {raw raw' : Native} {p p' : Path}
    (hd : d.composed = d'.composed) (hraw : raw.composed = raw'.composed)
    (hp : p.composed = p'.composed) :
    d.build = d'.build ∧
    (∀ limit, raw.infer limit = raw'.infer limit) ∧
    (∀ limits ty, raw.validate limits ty = raw'.validate limits ty) ∧
    (∀ v : Value, (v.follow p).mapError PathError.composed =
      (v.follow p').mapError PathError.composed) ∧
    ∀ t : Ty, (t.follow p).mapError PathError.composed =
      (t.follow p').mapError PathError.composed := by
  refine ⟨?_, fun limit => ?_, fun limits ty => ?_, fun v => ?_, fun t => ?_⟩
  · rw [← d.build_composed, hd, d'.build_composed]
  · rw [infer, infer, ← inferAt_composed, hraw, inferAt_composed]
  · rw [validate, validate, ← validateAt_composed, hraw, validateAt_composed]
  · rw [← Value.follow_composed, ← Value.follow_composed, hp]
  · rw [← Ty.follow_composed, ← Ty.follow_composed, hp]

/-- A letter with its accent as one character, or as two. -/
theorem same_outcome_of_accents_composed :
    let one := "\u00e9"
    let two := "e\u0301"
    let d := Declaration.object [(one, .list (.map .string))] [two]
    let d' := Declaration.object [(two, .list (.map .string))] [one]
    let raw := Native.map [(.string one, .list [.map [(.value (.string two), .string two)]])]
    let raw' := Native.map [(.string two, .list [.map [(.value (.string one), .string two)]])]
    let p := [.attr one, .index 0, .key two]
    let p' := [.attr two, .index 0, .key one]
    d.composed = d'.composed ∧ raw.composed = raw'.composed ∧
    Path.composed p = Path.composed p' ∧
    d.build = d'.build ∧
    (∀ limit, raw.infer limit = raw'.infer limit) ∧
    (∀ limits ty, raw.validate limits ty = raw'.validate limits ty) ∧
    (∀ v : Value, (v.follow p).mapError PathError.composed =
      (v.follow p').mapError PathError.composed) ∧
    ∀ t : Ty, (t.follow p).mapError PathError.composed =
      (t.follow p').mapError PathError.composed := by
  intro one two d d' raw raw' p p'
  -- Both spellings are composed to the first one.
  have hone : Text.nfc one = one := by decide +kernel
  have htwo : Text.nfc two = one := by decide +kernel
  have hd : d.composed = d'.composed := by
    simp only [d, d', Declaration.composed, Declaration.composedAttrs, List.map_cons, List.map_nil,
      hone, htwo]
  have hraw : raw.composed = raw'.composed := by
    simp only [raw, raw', composed, composedEntries, composedEach, composedKey, Value.string,
      Value.ofContent, hone, htwo]
  have hp : Path.composed p = Path.composed p' := by
    simp only [p, p', Path.composed, Step.composed, List.map_cons, hone, htwo]
  exact ⟨hd, hraw, hp, same_outcome_of_composed_eq hd hraw hp⟩

end Native

end TypedData
