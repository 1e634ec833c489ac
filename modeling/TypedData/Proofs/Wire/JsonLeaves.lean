import TypedData.Proofs.Json.Numbers
import TypedData.Proofs.Json.RoundTrip
import TypedData.Proofs.Ty.RoundTrip
import TypedData.Proofs.Wire.OfJson
import TypedData.Proofs.Wire.ReadBack

/-!
# Numbers, unknowns and types in JSON

What is written without members is read again: numbers in written form, the refinement of an
unknown with bounds in written form, and the description of a type as the type with its
attributes in order.

## Main definitions

* `Json.echo` — what JSON makes of numbers and types

## Main results

* `Json.toValue_ofUnknown` — unknowns come back with their refinements
* `Json.spelled_ofUnknown` — and their text is read
-/

namespace TypedData.Json

variable {limit : Nat} {P : String × Json → Prop}

/-! ### Refinements -/

theorem asBound?_ofBound {b : NumberBound} (hlimit : limit < Word.signedBound)
    (h : b.value.withinExponent limit) : (ofBound b).asBound? limit = some b.written := by
  simp only [ofBound, asBound?, asBool?, Option.bind_eq_bind, Option.bind_some,
    Decimal.ofText_plain h hlimit, Except.toOption]
  rfl

theorem asWord?_ofNat {n : Nat} (h : n < Word.unsignedBound) : (ofNat n).asWord? = some n := by
  have hdigits : ∀ c ∈ Nat.toDigits 10 n, c.isDigit := fun _ => Decimal.isDigit_of_mem_toDigits
  have hne : Nat.toDigits 10 n ≠ [] := Nat.toDigits_ne_nil
  simp only [ofNat, asWord?, Nat.repr, String.toList_ofList]
  rw [if_pos ⟨hne, List.all_eq_true.mpr hdigits⟩, Decimal.natOfDigits_toDigits]
  simp [h]

theorem field?_append (xs ys : List (String × Json)) (key : String) :
    field? (xs ++ ys) key = (field? xs key).or (field? ys key) := by
  rw [field?, List.find?_append, field?, field?]
  cases xs.find? (·.1 == key) <;> rfl

theorem field?_refinementField (name key : String) (o : Option Json) :
    field? (refinementField name o) key = if name = key then o else none := by
  cases o with
  | none => simp [refinementField, field?]
  | some j =>
    by_cases h : name = key
    · simp [refinementField, field?, h]
    · simp [refinementField, field?, h]

/-- The fields of a refinement say again what it says. -/
theorem readRefinement_refinementFields {r : Refinement} (hlimit : limit < Word.signedBound)
    (hr : r.Writable limit) (hstart : r.StartKept) :
    readRefinement limit (refinementFields r) = .ok r.written := by
  obtain ⟨notNull, start, lower, upper, lengthLower, lengthUpper⟩ := r
  obtain ⟨hlower, hupper, hlengthLower, hlengthUpper⟩ := hr
  -- What has been said after each of the fields in turn.
  have h₁ : refineField (refinementFields ⟨notNull, start, lower, upper, lengthLower,
      lengthUpper⟩) "is_known_null" asBool?
      (fun r isNull => if isNull then r else r.withNotNull) .none =
      .ok ⟨notNull, none, none, none, none, none⟩ := by
    cases notNull <;>
      simp [refineField, refinementFields, field?_append, field?_refinementField, asBool?,
        Refinement.none, Refinement.withNotNull]
  have h₂ : refineField (refinementFields ⟨notNull, start, lower, upper, lengthLower,
      lengthUpper⟩) "string_prefix" asString? Refinement.withStart
      ⟨notNull, none, none, none, none, none⟩ =
      .ok ⟨notNull, start, none, none, none, none⟩ := by
    cases start with
    | none => simp [refineField, refinementFields, field?_append, field?_refinementField]
    | some s =>
      simp [refineField, refinementFields, field?_append, field?_refinementField, asString?,
        hstart.withStart_eq rfl]
  have h₃ : refineField (refinementFields ⟨notNull, start, lower, upper, lengthLower,
      lengthUpper⟩) "number_lower_bound" (asBound? limit)
      (fun r b => r.withLower b.value b.inclusive) ⟨notNull, start, none, none, none, none⟩ =
      .ok ⟨notNull, start, lower.map (·.written), none, none, none⟩ := by
    cases lower with
    | none => simp [refineField, refinementFields, field?_append, field?_refinementField]
    | some b =>
      simp [refineField, refinementFields, field?_append, field?_refinementField,
        asBound?_ofBound hlimit (hlower b rfl), Refinement.withLower]
  have h₄ : refineField (refinementFields ⟨notNull, start, lower, upper, lengthLower,
      lengthUpper⟩) "number_upper_bound" (asBound? limit)
      (fun r b => r.withUpper b.value b.inclusive)
      ⟨notNull, start, lower.map (·.written), none, none, none⟩ =
      .ok ⟨notNull, start, lower.map (·.written), upper.map (·.written), none, none⟩ := by
    cases upper with
    | none => simp [refineField, refinementFields, field?_append, field?_refinementField]
    | some b =>
      simp [refineField, refinementFields, field?_append, field?_refinementField,
        asBound?_ofBound hlimit (hupper b rfl), Refinement.withUpper]
  have h₅ : refineField (refinementFields ⟨notNull, start, lower, upper, lengthLower,
      lengthUpper⟩) "collection_length_lower_bound" asWord? Refinement.withLengthLower
      ⟨notNull, start, lower.map (·.written), upper.map (·.written), none, none⟩ =
      .ok ⟨notNull, start, lower.map (·.written), upper.map (·.written), lengthLower, none⟩ := by
    cases lengthLower with
    | none => simp [refineField, refinementFields, field?_append, field?_refinementField]
    | some n =>
      simp [refineField, refinementFields, field?_append, field?_refinementField,
        asWord?_ofNat (hlengthLower n rfl), Refinement.withLengthLower]
  have h₆ : refineField (refinementFields ⟨notNull, start, lower, upper, lengthLower,
      lengthUpper⟩) "collection_length_upper_bound" asWord? Refinement.withLengthUpper
      ⟨notNull, start, lower.map (·.written), upper.map (·.written), lengthLower, none⟩ =
      .ok ⟨notNull, start, lower.map (·.written), upper.map (·.written), lengthLower,
        lengthUpper⟩ := by
    cases lengthUpper with
    | none => simp [refineField, refinementFields, field?_append, field?_refinementField]
    | some n =>
      simp [refineField, refinementFields, field?_append, field?_refinementField,
        asWord?_ofNat (hlengthUpper n rfl), Refinement.withLengthUpper]
  simp only [readRefinement, h₁, h₂, h₃, h₄, h₅, h₆, bind, Except.bind]
  rfl

/-- An unknown comes back with its refinement. -/
theorem toValue_ofUnknown {limits : Limits} {depth : Nat} {r : Refinement} (ty : Ty)
    (hlimit : limits.maxNumberExponent < Word.signedBound)
    (hr : r.Writable limits.maxNumberExponent) (hstart : r.StartKept)
    (hdepth : depth ≤ limits.maxDepth) :
    toValue limits depth ty (ofUnknown r) = .ok (.unknownRefined ty r.written) := by
  have hfields := readRefinement_refinementFields hlimit hr hstart
  have hunknown (rest : List (String × Json)) :
      isUnknown ((unknownKey, .string unknownWord) :: rest) = true := by
    simp [isUnknown, field?, asString?]
  rw [ofUnknown]
  split
  · -- A refinement that says nothing is written without its fields.
    rename_i hnone
    rw [hnone] at hfields
    obtain heq := Except.ok.inj hfields
    have hplain : unknownRefinement limits.maxNumberExponent
        [(unknownKey, .string unknownWord)] = .ok .none := by
      simp [unknownRefinement, field?, unknownKey]
    unfold toValue
    rw [if_neg (by omega)]
    simp only [hunknown, if_true, hplain]
    rw [← heq]
  · have hrefined : unknownRefinement limits.maxNumberExponent
        [(unknownKey, .string unknownWord), ("refinements", .object (refinementFields r))] =
        .ok r.written := by
      simp [unknownRefinement, field?, unknownKey, hfields]
    unfold toValue
    rw [if_neg (by omega)]
    simp only [hunknown, if_true, hrefined]

/-! ### The text of an unknown -/

/-- The names of the fields of a refinement. -/
def refinementNames : List String :=
  ["is_known_null", "string_prefix", "number_lower_bound", "number_upper_bound",
    "collection_length_lower_bound", "collection_length_upper_bound"]

theorem names_refinementFields (r : Refinement) :
    ((refinementFields r).map (·.1)).Sublist refinementNames := by
  have hfield (name : String) (o : Option Json) :
      ((refinementField name o).map (·.1)).Sublist [name] := by
    cases o <;> simp [refinementField]
  simp only [refinementFields, List.map_append]
  exact (((((hfield _ _).append (hfield _ _)).append (hfield _ _)).append (hfield _ _)).append
    (hfield _ _)).append (hfield _ _)

theorem spelled_of_mem_refinementFields {r : Refinement} {f : String × Json}
    (h : f ∈ refinementFields r) : f.2.Spelled P := by
  have hbound (b : NumberBound) : (ofBound b).Spelled P := by
    refine .array ?_
    simp only [List.forall_mem_cons, List.not_mem_nil, false_imp_iff, implies_true, and_true]
    exact ⟨.string _, .bool _⟩
  have hnat (n : Nat) : (ofNat n).Spelled P := .number (Token.isNumber_repr n)
  have hfield {name : String} {o : Option Json} (h : f ∈ refinementField name o) :
      o = some f.2 := by
    cases o with
    | none => cases h
    | some j =>
      obtain rfl := List.mem_singleton.mp h
      rfl
  simp only [refinementFields, List.mem_append] at h
  obtain ((((h | h) | h) | h) | h) | h := h <;> have h := hfield h
  · split at h
    · obtain heq := Option.some.inj h
      exact heq ▸ .bool false
    · cases h
  all_goals
    obtain ⟨a, -, heq⟩ := Option.map_eq_some_iff.mp h
    rw [← heq]
  · exact .string a
  · exact hbound a
  · exact hbound a
  · exact hnat a
  · exact hnat a

/-- The text of an unknown is read, whatever first fields must not be. -/
theorem spelled_ofUnknown (r : Refinement)
    (hP : ∀ f : String × Json, f.1 ∈ unknownKey :: refinementNames → P f) :
    (ofUnknown r).Spelled P := by
  have hfields : (Json.object (refinementFields r)).Spelled P := by
    have hnames := names_refinementFields r
    refine .object (hnames.nodup (by decide)) (fun f hf => hP f ?_)
      fun f hf => spelled_of_mem_refinementFields hf
    exact List.mem_cons_of_mem _ (hnames.subset (List.mem_map_of_mem (List.mem_of_mem_head? hf)))
  rw [ofUnknown]
  split
  · refine .object (by simp) (fun f hf => ?_) ?_
    · obtain rfl := Option.some.inj hf
      exact hP _ (by simp)
    · simpa using Spelled.string unknownWord
  · refine .object (by simp [unknownKey]) (fun f hf => ?_) ?_
    · obtain rfl := Option.some.inj hf
      exact hP _ (by simp)
    · simp only [List.forall_mem_cons, List.not_mem_nil, false_imp_iff, implies_true, and_true]
      exact ⟨.string _, hfields⟩

/-! ### Types beside values -/

/-- The type that is read where a type was written. -/
def typeBack? (t : Ty) : Option Ty := t.toJson.toOption.bind fun j => (wrappedType j).toOption

theorem isDynamic_wrappedType {spec : Json} {u : Ty} (h : wrappedType spec = .ok u) :
    u.isDynamic = false := by
  rw [wrappedType] at h
  split at h
  · cases h
  split at h
  · cases h
  · rename_i hconcrete
    obtain rfl := Except.ok.inj h
    simpa using hconcrete

/-- Every known type without capsules is read, with its attributes in order. -/
theorem wrappedType_eq {t : Ty} {j : Json} (h : Ty.Describes j t)
    (hconcrete : t.isDynamic = false) : wrappedType j = .ok t.inKeyOrder := by
  rw [wrappedType, h.read]
  simp only [Ty.isDynamic_inKeyOrder, hconcrete, Bool.false_eq_true, if_false]

theorem typeBack?_eq {t : Ty} {j : Json} (h : Ty.Describes j t)
    (hconcrete : t.isDynamic = false) : typeBack? t = some t.inKeyOrder := by
  rw [typeBack?, h.written]
  simp only [Except.toOption, Option.bind_some, wrappedType_eq h hconcrete]

/-- No other type is read. -/
theorem eq_inKeyOrder_of_typeBack? {t u : Ty} (ht : t.WellFormed) (h : typeBack? t = some u) :
    u = t.inKeyOrder := by
  obtain ⟨j, hj, hu⟩ := Option.bind_eq_some_iff.mp h
  have hdescribes := Ty.describes_of_toJson ht (Except.toOption_eq_some_iff.mp hj)
  have hu := Except.toOption_eq_some_iff.mp hu
  rw [wrappedType, hdescribes.read] at hu
  simp only at hu
  split at hu
  · cases hu
  · exact (Except.ok.inj hu).symm

/-- What JSON makes of numbers, and of types beside values. -/
def echo : Wire.Echo where
  number := Decimal.written
  type? := typeBack?
  same_number := Decimal.same_written
  type_spec t u h := by
    obtain ⟨j, -, hu⟩ := Option.bind_eq_some_iff.mp h
    have hu := Except.toOption_eq_some_iff.mp hu
    exact ⟨(describable_wrappedType hu).wellFormed, isDynamic_wrappedType hu⟩

theorem keepsTypes_echo : echo.KeepsTypes where
  type_eq _ _ := eq_inKeyOrder_of_typeBack?
  noCapsule t _ ht hu := by
    obtain ⟨j, hj, -⟩ := Option.bind_eq_some_iff.mp hu
    exact Ty.hasCapsule_of_toJson ht (Except.toOption_eq_some_iff.mp hj)

end TypedData.Json
