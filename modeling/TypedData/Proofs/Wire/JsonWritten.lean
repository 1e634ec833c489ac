import TypedData.Proofs.Wire.JsonRoundTrip

/-!
# What is written as JSON

The document that a value was written as shows what the value contains, and its members are what
the members of the value were written as.

## Main results

* `Json.exists_of_toJson_items`, `Json.exists_of_toJson_entries` — what containers are written as
* `Json.exists_of_toJson_of_isDynamic` — known values in `dynamic` slots have their types beside
  them
* `Json.writable_of_toValue_ofUnknown` — what can be said of an unknown that was read again
-/

namespace TypedData

namespace Json

open Value

variable {slot s : Ty} {j : Json} {v : Value}

/-! ### Contents -/

/-- Elements were written into the places of their slot. -/
theorem exists_of_toJson_items {own : Ty} {vs : List Value} {marks : Marks}
    (hs : s.isDynamic = false) (h : toJson s ⟨own, .items vs, marks⟩ = .ok j) :
    ∃ ss js, slots? s vs.length = some ss ∧ itemsToJson 0 ss vs = .ok js ∧ j = .array js := by
  have hsome {ss : List Ty} (hss : slots? s vs.length = some ss) :
      ∃ ss js, slots? s vs.length = some ss ∧ itemsToJson 0 ss vs = .ok js ∧ j = .array js := by
    rw [toJson_items hss] at h
    obtain ⟨js, hjs, rfl⟩ := Except.map_eq_ok_iff.mp h
    exact ⟨ss, js, hss, hjs, rfl⟩
  cases s with
  | list u => exact hsome rfl
  | set u => exact hsome rfl
  | tuple us =>
    by_cases hlength : vs.length = us.length
    · exact hsome (if_pos hlength)
    · simp [toJson, wrapJson, unfitJson, Ty.isDynamic, Ty.slotType, hlength] at h
  | dynamic => cases hs
  | _ => cases h

/-- Entries were written into the slots of their keys, none of which is reserved. -/
theorem exists_of_toJson_entries {own : Ty} {es : Entries Value} {marks : Marks}
    (hs : s.isDynamic = false) (h : toJson s ⟨own, .entries es, marks⟩ = .ok j) :
    (∀ e ∈ es, e.1 ≠ unknownKey) ∧
      ∃ fs, entriesToJson (slotOf? s) es = .ok fs ∧ j = .object fs := by
  have hkeys {x : Except EncodeError (List (String × Json))}
      (h : unlessReserved es (x.map .object) = .ok j) :
      (∀ e ∈ es, e.1 ≠ unknownKey) ∧ ∃ fs, x = .ok fs ∧ j = .object fs := by
    rw [unlessReserved] at h
    split at h
    · cases h
    · rename_i hreserved
      obtain ⟨fs, hfs, rfl⟩ := Except.map_eq_ok_iff.mp h
      refine ⟨fun e he heq => hreserved (List.any_eq_true.mpr ⟨e, he, ?_⟩), fs, hfs, rfl⟩
      exact beq_iff_eq.mpr heq
  cases s with
  | map u => exact hkeys h
  | object attrs => exact hkeys h
  | dynamic => cases hs
  | _ => cases h

/-- A known value was written into a `dynamic` slot beside its type. -/
theorem exists_of_toJson_of_isDynamic (hslot : slot.isDynamic) (hknown : v.isKnown)
    (hown : v.ty.isDynamic = false) (h : v.toJson slot = .ok j) :
    ∃ inner spec, v.toJson v.ty = .ok inner ∧ v.ty.toJson = .ok spec ∧
      j = .object [("value", inner), ("type", spec)] := by
  rw [toJson_of_isDynamic hslot hknown hown] at h
  unfold wrapJson at h
  rw [if_pos hslot] at h
  split at h
  · cases h
  rename_i inner hinner
  split at h
  · cases h
  · rename_i spec hspec
    exact ⟨inner, spec, hinner, hspec, (Except.ok.inj h).symm⟩

/-! ### Members -/

theorem exists_of_itemsToJson_cons {i : Nat} {ss : List Ty} {vs : List Value} {js : List Json}
    (h : itemsToJson i (s :: ss) (v :: vs) = .ok js) :
    ∃ j js', v.toJson s = .ok j ∧ itemsToJson (i + 1) ss vs = .ok js' ∧ js = j :: js' := by
  rw [itemsToJson, List.headD_cons, List.tail_cons] at h
  split at h
  · cases h
  · rename_i j hj
    obtain ⟨js', hjs, rfl⟩ := Except.map_eq_ok_iff.mp h
    exact ⟨j, js', hj, hjs, rfl⟩

theorem exists_of_entriesToJson_cons {slotOf : String → Option Ty} {k : String}
    {es : Entries Value} {fs : List (String × Json)}
    (h : entriesToJson slotOf ((k, v) :: es) = .ok fs) :
    ∃ s j fs', slotOf k = some s ∧ v.toJson s = .ok j ∧ entriesToJson slotOf es = .ok fs' ∧
      fs = (k, j) :: fs' := by
  rw [entriesToJson] at h
  split at h
  · cases h
  rename_i s hs
  split at h
  · cases h
  · rename_i j hj
    obtain ⟨fs', hfs, rfl⟩ := Except.map_eq_ok_iff.mp h
    exact ⟨s, j, fs', hs, hj, hfs, rfl⟩

theorem length_of_itemsToJson {i : Nat} {ss : List Ty} {vs : List Value} {js : List Json}
    (hlength : vs.length = ss.length) (h : itemsToJson i ss vs = .ok js) :
    js.length = vs.length := by
  induction vs generalizing i ss js with
  | nil =>
    obtain rfl := Except.ok.inj h
    rfl
  | cons v vs ih =>
    cases ss with
    | nil => cases hlength
    | cons s ss =>
      obtain ⟨j, js', -, hjs, rfl⟩ := exists_of_itemsToJson_cons h
      rw [List.length_cons, List.length_cons, ih (by simpa using hlength) hjs]

theorem keys_of_entriesToJson {slotOf : String → Option Ty} {es : Entries Value}
    {fs : List (String × Json)} (h : entriesToJson slotOf es = .ok fs) :
    fs.map (·.1) = es.map (·.1) := by
  induction es generalizing fs with
  | nil =>
    obtain rfl := Except.ok.inj h
    rfl
  | cons e es ih =>
    obtain ⟨_, j, fs', -, -, hfs, rfl⟩ := exists_of_entriesToJson_cons h
    rw [List.map_cons, List.map_cons, ih hfs]

/-! ### Refinements -/

variable {limit : Nat} {r q : Refinement}

theorem exists_of_refineField {α : Type} {fields : List (String × Json)} {name : String}
    {get? : Json → Option α} {add : Refinement → α → Refinement}
    (h : refineField fields name get? add r = .ok q) (hj : field? fields name = some j) :
    ∃ a, get? j = some a := by
  rw [refineField, hj] at h
  simp only at h
  split at h
  · exact ⟨_, ‹_›⟩
  · cases h

/-- A bound that was written is read in written form, if it is read. -/
theorem within_of_asBound?_ofBound {b : NumberBound} {x : NumberBound}
    (h : (ofBound b).asBound? limit = some x) : b.written.value.withinExponent limit := by
  have hx := within_of_asBound? h
  simp only [ofBound, asBound?, Option.bind_eq_bind, Option.bind_some, Option.bind_eq_some_iff,
    asBool?, Option.some.injEq] at h
  obtain ⟨value, hvalue, -, -, rfl⟩ := h
  rwa [Decimal.eq_written_of_ofText_plain (Except.toOption_eq_some_iff.mp hvalue)] at hx

theorem lt_of_asWord?_ofNat {n k : Nat} (h : (ofNat n).asWord? = some k) :
    n < Word.unsignedBound := by
  simp only [ofNat, asWord?, Nat.repr, String.toList_ofList, Decimal.natOfDigits_toDigits] at h
  split at h
  · obtain ⟨hk, hlt⟩ := Option.filter_eq_some_iff.mp h
    simpa [Option.some.inj hk] using hlt
  · cases h

/-- If what a refinement was written as is read, it can be written in the form that is read. -/
theorem writable_of_readRefinement (h : readRefinement limit (refinementFields r) = .ok q) :
    r.written.Writable limit := by
  -- Each field is read, and each bound in turn comes from the field it was written into.
  simp only [readRefinement, bind, Except.bind] at h
  split at h
  · cases h
  split at h
  · cases h
  split at h
  · cases h
  rename_i hlower
  split at h
  · cases h
  rename_i hupper
  split at h
  · cases h
  rename_i hlengthLower
  have hfields : field? (refinementFields r) "number_lower_bound" = r.lower.map ofBound ∧
      field? (refinementFields r) "number_upper_bound" = r.upper.map ofBound ∧
      field? (refinementFields r) "collection_length_lower_bound" = r.lengthLower.map ofNat ∧
      field? (refinementFields r) "collection_length_upper_bound" = r.lengthUpper.map ofNat := by
    simp [refinementFields, field?_append, field?_refinementField]
  obtain ⟨hfield₁, hfield₂, hfield₃, hfield₄⟩ := hfields
  refine ⟨fun b hb => ?_, fun b hb => ?_, fun n hn => ?_, fun n hn => ?_⟩
  · obtain ⟨own, hown, rfl⟩ := Option.map_eq_some_iff.mp hb
    obtain ⟨x, hx⟩ := exists_of_refineField hlower (hfield₁.trans (congrArg _ hown))
    exact within_of_asBound?_ofBound hx
  · obtain ⟨own, hown, rfl⟩ := Option.map_eq_some_iff.mp hb
    obtain ⟨x, hx⟩ := exists_of_refineField hupper (hfield₂.trans (congrArg _ hown))
    exact within_of_asBound?_ofBound hx
  · obtain ⟨x, hx⟩ := exists_of_refineField hlengthLower (hfield₃.trans (congrArg _ hn))
    exact lt_of_asWord?_ofNat hx
  · obtain ⟨x, hx⟩ := exists_of_refineField h (hfield₄.trans (congrArg _ hn))
    exact lt_of_asWord?_ofNat hx

/-- Bounds are written alike in the form in which they are read. -/
theorem ofUnknown_written (r : Refinement) : ofUnknown r.written = ofUnknown r := by
  have hbound (b : NumberBound) : ofBound b.written = ofBound b := by
    rw [ofBound, ofBound, NumberBound.written, Decimal.plain_eq_of_same (Decimal.same_written _)]
  have hfields : refinementFields r.written = refinementFields r := by
    simp [refinementFields, Refinement.written, Function.comp_def, hbound]
    rfl
  rw [ofUnknown, ofUnknown, hfields]

variable {limits : Limits} {depth : Nat} {t : Ty} {w : Value}

/-- If what an unknown was written as is read, its refinement can be written in the form that is
read. -/
theorem writable_of_toValue_ofUnknown (h : toValue limits depth t (ofUnknown r) = .ok w) :
    r.written.Writable limits.maxNumberExponent := by
  cases hfields : refinementFields r with
  | nil =>
    -- Without fields the refinements are left out, so that nothing is read of them.
    refine writable_of_readRefinement (q := .none) ?_
    rw [hfields]
    rfl
  | cons f fs =>
    have hunknown : isUnknown [(unknownKey, .string unknownWord),
        ("refinements", .object (f :: fs))] = true := by
      simp [isUnknown, field?, asString?]
    have hrefined : unknownRefinement limits.maxNumberExponent [(unknownKey, .string unknownWord),
        ("refinements", .object (f :: fs))] =
        readRefinement limits.maxNumberExponent (refinementFields r) := by
      rw [hfields]
      simp [unknownRefinement, field?, unknownKey]
    have hdepth := depth_le_of_toValue h
    rw [ofUnknown, hfields] at h
    unfold toValue at h
    rw [if_neg (by omega)] at h
    simp only [hunknown, if_true, hrefined] at h
    split at h
    · exact writable_of_readRefinement ‹_›
    · simp only [failAt, reduceCtorEq] at h

end Json

end TypedData
