import TypedData.Proofs.Wire.JsonLeaves

/-!
# Values through JSON

Every value that can be sent, and in which no map or object has the reserved key, is written for
its slot, and what is written is read as the value that comes back, as long as it does not nest
too deeply. Its text is read too, if no map or object has the name that is reserved for numbers.

## Main definitions

* `Value.Avoids` — values in which a key is not used
* `Json.Carries` — what a value is written as, and is read from

## Main results

* `Json.exists_carries` — every such value is carried by something
-/

namespace TypedData

namespace Value

/-- No known map or object in the value has the key. -/
def Avoids (key : String) (v : Value) : Prop :=
  ∀ w, v.Contains w → ∀ es, w.entries? = some es → ∀ e ∈ es, e.1 ≠ key

theorem Avoids.of_mem_parts {key : String} {v w : Value} (h : v.Avoids key)
    (hw : w ∈ parts v.content) : w.Avoids key := fun x hx => h x (.of_mem_parts hw hx)

end Value

namespace Json

open Value

variable {limits : Limits} {v : Value} {s t : Ty} {j : Json}

/-- What a value is written as in a slot `s`, and what comes back is read from in an equal slot
`t`, unless it nests too deeply. In slots without `dynamic`, its text is read, unless a map or
object has the name reserved for numbers. -/
structure Carries (limits : Limits) (v : Value) (s t : Ty) (j : Json) : Prop where
  written : v.toJson s = .ok j
  readable : v.Avoids numberName → s.hasDynamic = false → j.Readable
  read : ∀ depth, depth + j.nesting ≤ limits.maxDepth →
    j.toValue limits depth t = .ok (v.readBack echo t)

/-! ### Members -/

/-- Elements that are carried one by one. -/
theorem exists_items {vs : List Value} {ss ts : List Ty} (hin : List.Forall₂ InSlot vs ss)
    (hsame : List.Forall₂ (fun s t => s.same t) ss ts) (hss : ∀ s ∈ ss, s.WellFormed)
    (hts : ∀ t ∈ ts, t.WellFormed)
    (h : ∀ v ∈ vs, ∀ s t, s.WellFormed → t.WellFormed → v.InSlot s → s.same t →
      ∃ j, Carries limits v s t j) (i : Nat) :
    ∃ js, itemsToJson i ss vs = .ok js ∧ js.length = vs.length ∧
      ((∀ v ∈ vs, v.Avoids numberName) → (∀ s ∈ ss, s.hasDynamic = false) →
        ∀ j ∈ js, j.Readable) ∧
      ∀ depth, depth + nestingOfItems js ≤ limits.maxDepth →
        itemsToValues limits depth i ts js = .ok (readBackEach echo ts vs) := by
  induction hin generalizing ts i with
  | nil =>
    cases hsame
    exact ⟨[], rfl, rfl, nofun, fun _ _ => rfl⟩
  | @cons v s vs ss hv _ ih =>
    obtain _ | @⟨_, t, _, ts, hst, hsame⟩ := hsame
    rw [List.forall_mem_cons] at hss hts h
    obtain ⟨j, hj⟩ := h.1 s t hss.1 hts.1 hv hst
    obtain ⟨js, hwritten, hlength, hreadable, hread⟩ := ih hsame hss.2 hts.2 h.2 (i + 1)
    refine ⟨j :: js, ?_, by simp [hlength], fun havoids hplain => ?_, fun depth hdepth => ?_⟩
    · simp [itemsToJson, hj.written, hwritten, Except.map]
    · rw [List.forall_mem_cons] at havoids hplain ⊢
      exact ⟨hj.readable havoids.1 hplain.1, hreadable havoids.2 hplain.2⟩
    · rw [nestingOfItems] at hdepth
      have hfirst := hj.read depth (by omega)
      have hrest := hread depth (by omega)
      simp only [itemsToValues, List.headD_cons, List.tail_cons, hfirst, hrest, Except.map,
        readBackEach]

/-- Entries that are carried one by one, under their keys. -/
theorem exists_entries {es : Entries Value} {slotOf : String → Option Ty} {typeOf : String → Ty}
    (h : ∀ e ∈ es, ∃ u, slotOf e.1 = some u ∧ ∃ j, Carries limits e.2 u (typeOf e.1) j) :
    ∃ fs, entriesToJson slotOf es = .ok fs ∧ fs.map (·.1) = es.map (·.1) ∧
      ((∀ e ∈ es, e.2.Avoids numberName) →
        (∀ e ∈ es, ∀ u, slotOf e.1 = some u → u.hasDynamic = false) → ∀ f ∈ fs, f.2.Readable) ∧
      ∀ depth, depth + nestingOfFields fs ≤ limits.maxDepth →
        fieldsToMembers limits depth typeOf (es.map (·.1)) fs =
          (readBackEntries echo typeOf es).map fun e => (e.1, .ok e.2) := by
  induction es with
  | nil => exact ⟨[], rfl, rfl, nofun, fun _ _ => rfl⟩
  | cons e es ih =>
    obtain ⟨k, v⟩ := e
    rw [List.forall_mem_cons] at h
    obtain ⟨u, hu, j, hj⟩ := h.1
    obtain ⟨fs, hwritten, hkeys, hreadable, hread⟩ := ih h.2
    simp only at hu hj
    refine ⟨(k, j) :: fs, ?_, by simp [hkeys], fun havoids hplain => ?_, fun depth hdepth => ?_⟩
    · simp [entriesToJson, hu, hj.written, hwritten, Except.map]
    · rw [List.forall_mem_cons] at havoids hplain ⊢
      exact ⟨hj.readable havoids.1 (hplain.1 u hu), hreadable havoids.2 hplain.2⟩
    · rw [nestingOfFields] at hdepth
      have hfirst := hj.read depth (by omega)
      have hrest := hread depth (by omega)
      simp only [List.map_cons, fieldsToMembers, List.headD_cons, List.tail_cons, hfirst, hrest,
        readBackEntries]

/-- The keys that were written are read. -/
theorem keysOf_eq {es : Entries Value} {fs : List (String × Json)}
    (hkeys : fs.map (·.1) = es.map (·.1)) (hnodup : (es.map (·.1)).Nodup)
    (hcomposed : ∀ e ∈ es, Text.nfc e.1 = e.1) : keysOf fs = .ok (es.map (·.1)) := by
  have hgiven : (fs.map fun f => (Except.ok f.1 : Except DecodeReason String)) =
      (es.map (·.1)).map .ok := by
    rw [← hkeys, List.map_map]
    rfl
  refine (congrArg (Wire.distinctKeys []) hgiven).trans (Wire.distinctKeys_eq (by simpa) ?_)
  simpa using hcomposed

/-! ### Containers -/

theorem toJson_items {own : Ty} {vs : List Value} {marks : Marks} {ss : List Ty}
    (h : slots? s vs.length = some ss) :
    toJson s ⟨own, .items vs, marks⟩ = (itemsToJson 0 ss vs).map .array := by
  cases s with
  | list u => obtain rfl := Option.some.inj h; rfl
  | set u => obtain rfl := Option.some.inj h; rfl
  | tuple us =>
    simp only [slots?] at h
    split at h
    · rename_i hlength
      obtain rfl := Option.some.inj h
      exact if_pos hlength
    · cases h
  | _ => cases h

theorem toValue_array {js : List Json} {ts : List Ty} {depth : Nat}
    (h : slots? t js.length = some ts) (hdepth : depth ≤ limits.maxDepth) :
    toValue limits depth t (.array js) =
      (itemsToValues limits (depth + 1) 0 ts js).map (sequence t) := by
  unfold toValue
  rw [if_neg (by omega)]
  cases t with
  | list u => obtain rfl := Option.some.inj h; rfl
  | set u => obtain rfl := Option.some.inj h; rfl
  | tuple us =>
    simp only [slots?] at h
    split at h
    · rename_i hlength
      obtain rfl := Option.some.inj h
      exact if_pos hlength
    · cases h
  | _ => cases h

/-- A list, set or tuple is carried by what carries its elements. -/
theorem exists_array {own : Ty} {vs : List Value} {marks : Marks}
    (h : WellFormed ⟨own, .items vs, marks⟩) (hs : s.WellFormed) (ht : t.WellFormed)
    (hown : own.same s) (hst : s.same t)
    (ih : ∀ v ∈ vs, ∀ s t, s.WellFormed → t.WellFormed → v.InSlot s → s.same t →
      ∃ j, Carries limits v s t j) : ∃ j, Carries limits ⟨own, .items vs, marks⟩ s t j := by
  obtain ⟨ss, hss, hin, hswell⟩ := h.exists_slots_of_same hs hown
  obtain ⟨ts, hts, hsame⟩ := Value.exists_slots_of_same hst hss
  obtain ⟨js, hwritten, hlength, hreadable, hread⟩ :=
    exists_items hin hsame hswell (fills_of_slots? ht hts).2.1 ih 0
  refine ⟨.array js, ?_, fun havoids hplain => .array (hreadable ?_ ?_), fun depth hdepth => ?_⟩
  · rw [toJson_items hss, hwritten]
    rfl
  · exact fun v hv => havoids.of_mem_parts hv
  · exact fun u hu => Ty.hasDynamic_of_mem_parts hplain (mem_parts_of_slots? hss hu)
  · rw [nesting] at hdepth
    rw [toValue_array (hlength ▸ hts) (by omega), hread _ (by omega), Except.map,
      sequence_readBackEach h (h.type_wellFormed.same_trans hown hst) hts]

theorem toJson_entries {own : Ty} {es : Entries Value} {marks : Marks}
    (h : WellFormed ⟨own, .entries es, marks⟩) (hown : own.same s)
    (hkeys : ∀ e ∈ es, e.1 ≠ unknownKey) :
    toJson s ⟨own, .entries es, marks⟩ = (entriesToJson (slotOf? s) es).map .object := by
  have hreserved : es.any (·.1 == unknownKey) = false := by
    simpa [List.any_eq_false] using hkeys
  cases s <;> cases h <;> first
    | cases hown
    | simp [toJson, wrapJson, Ty.isDynamic, Ty.slotType, unlessReserved, hreserved]
      rfl

theorem field?_eq_none {fs : List (String × Json)} {key : String}
    (h : ∀ k ∈ fs.map (·.1), k ≠ key) : field? fs key = none := by
  rw [field?, Option.map_eq_none_iff, List.find?_eq_none]
  intro f hf
  simpa using h f.1 (List.mem_map_of_mem hf)

/-- Fields without the reserved key are no unknown. -/
theorem isUnknown_eq_false {fs : List (String × Json)}
    (h : ∀ k ∈ fs.map (·.1), k ≠ unknownKey) : isUnknown fs = false := by
  rw [isUnknown, field?_eq_none h]
  rfl

theorem toValue_map {fs : List (String × Json)} {keys : List String} {depth : Nat} {u : Ty}
    (hunknown : isUnknown fs = false) (hkeys : keysOf fs = .ok keys)
    (hdepth : depth ≤ limits.maxDepth) :
    toValue limits depth (.map u) (.object fs) =
      Wire.mapOf (.map u) (fieldsToMembers limits (depth + 1) (fun _ => u) keys fs) := by
  unfold toValue
  rw [if_neg (by omega)]
  simp only [hunknown, hkeys, Bool.false_eq_true, if_false]

theorem toValue_object {fs : List (String × Json)} {keys : List String} {depth : Nat}
    {attrs : List (Attr Ty)} (hunknown : isUnknown fs = false) (hkeys : keysOf fs = .ok keys)
    (hdeclared : ∀ k ∈ keys, k ∈ attrs.map (·.name)) (hdepth : depth ≤ limits.maxDepth) :
    toValue limits depth (.object attrs) (.object fs) = Wire.objectOf (.object attrs) attrs
      (fieldsToMembers limits (depth + 1) (Wire.attrType attrs) keys fs) := by
  unfold toValue
  rw [if_neg (by omega)]
  simp only [hunknown, hkeys, Wire.undeclared?_eq_none_iff.mpr hdeclared, Bool.false_eq_true,
    if_false]

/-- What members under the given keys become in a map or object. -/
theorem toValue_entries {own : Ty} {es : Entries Value} {marks : Marks}
    {fs : List (String × Json)} {depth : Nat} (h : WellFormed ⟨own, .entries es, marks⟩)
    (ht : t.WellFormed) (hsame : own.same t) (hunknown : isUnknown fs = false)
    (hkeys : keysOf fs = .ok (es.map (·.1))) (hdepth : depth ≤ limits.maxDepth) :
    (fieldsToMembers limits (depth + 1) (entrySlot t) (es.map (·.1)) fs =
        (readBackEntries echo (entrySlot t) es).map (fun e => (e.1, .ok e.2)) →
      toValue limits depth t (.object fs) = .ok (readBack echo t ⟨own, .entries es, marks⟩)) ∧
    ∀ w, toValue limits depth t (.object fs) = .ok w →
      ∀ p ∈ fieldsToMembers limits (depth + 1) (entrySlot t) (es.map (·.1)) fs,
        ∃ w, p.2 = .ok w := by
  have hlength : fs.length = (es.map (·.1)).length := length_keysOf hkeys
  -- Every key is declared, so the members alone decide what is put together.
  cases t with
  | map u =>
    rw [toValue_map hunknown hkeys hdepth]
    exact ⟨fun hread =>
        (congrArg (Wire.mapOf (.map u)) hread).trans (mapOf_readBackEntries h hsame),
      fun w hw => Wire.ok_of_mapOf hw⟩
  | object attrs =>
    have hdeclared := h.mem_names_of_same_object ht hsame
    rw [toValue_object hunknown hkeys hdeclared hdepth]
    refine ⟨fun hread => (congrArg (Wire.objectOf (.object attrs) attrs) hread).trans
      (objectOf_readBackEntries h ht hsame), fun w hw => Wire.ok_of_objectOf ?_ ?_ hw⟩
    · rw [keys_fieldsToMembers hlength]
      exact h.nodup_keys
    · intro p hp
      refine hdeclared p.1 ?_
      rw [← @keys_fieldsToMembers limits (depth + 1) (Wire.attrType attrs) _ _ hlength]
      exact List.mem_map_of_mem hp
  | _ => cases h <;> cases hsame

/-- A map or object is carried by what carries its entries. -/
theorem exists_map {own : Ty} {es : Entries Value} {marks : Marks}
    (h : WellFormed ⟨own, .entries es, marks⟩) (hreserved : ∀ e ∈ es, e.1 ≠ unknownKey)
    (hs : s.WellFormed) (ht : t.WellFormed) (hown : own.same s) (hst : s.same t)
    (ih : ∀ e ∈ es, ∀ s t, s.WellFormed → t.WellFormed → e.2.InSlot s → s.same t →
      ∃ j, Carries limits e.2 s t j) : ∃ j, Carries limits ⟨own, .entries es, marks⟩ s t j := by
  have hsame := h.type_wellFormed.same_trans hown hst
  have hentries : ∀ e ∈ es, ∃ u, slotOf? s e.1 = some u ∧
      ∃ j, Carries limits e.2 u (entrySlot t e.1) j := by
    intro e he
    obtain ⟨u, hu, hin, hwell⟩ := h.exists_slotOf_of_same hs hown he
    obtain ⟨u', hu', huu'⟩ := Value.exists_slotOf_of_same hst hu
    rw [entrySlot, hu', Option.getD_some]
    exact ⟨u, hu, ih e he u u' hwell (slotOf?_wellFormed ht hu') hin huu'⟩
  obtain ⟨fs, hwritten, hkeys, hreadable, hread⟩ := exists_entries hentries
  have hkeysOf := keysOf_eq hkeys h.nodup_keys h.entries_keys.2
  -- No key is the reserved one, so that the object is not taken for an unknown.
  have hunknown : isUnknown fs = false := by
    refine isUnknown_eq_false fun k hk => ?_
    rw [hkeys] at hk
    obtain ⟨e, he, rfl⟩ := List.mem_map.mp hk
    exact hreserved e he
  refine ⟨.object fs, ?_, fun havoids hplain => .object (hkeys ▸ h.nodup_keys) ?_ (hreadable ?_ ?_),
    fun depth hdepth => ?_⟩
  · rw [toJson_entries h hown hreserved, hwritten]
    rfl
  · intro f hf
    have hmem : f.1 ∈ es.map (·.1) := hkeys ▸ List.mem_map_of_mem (List.mem_of_mem_head? hf)
    obtain ⟨e, he, heq⟩ := List.mem_map.mp hmem
    exact heq ▸ havoids _ .self es rfl e he
  · exact fun e he => havoids.of_mem_parts (List.mem_map_of_mem he)
  · exact fun e _ u hu => Ty.hasDynamic_of_mem_parts hplain (mem_parts_of_slotOf? hu)
  · rw [nesting] at hdepth
    exact (toValue_entries h ht hsame hunknown hkeysOf (by omega)).1 (hread (depth + 1) (by omega))

/-! ### Whole values -/

/-- A known value in a `dynamic` slot is written beside its type. -/
theorem toJson_of_isDynamic {slot : Ty} (hslot : slot.isDynamic) (hknown : v.isKnown)
    (hown : v.ty.isDynamic = false) : v.toJson slot = wrapJson slot v.ty (v.toJson v.ty) := by
  obtain ⟨own, content, marks⟩ := v
  cases content <;>
    simp_all [toJson, wrapJson, Ty.slotType, isKnown, Value.isNull, Value.isUnknown]

theorem toValue_wrapped {depth : Nat} {inner spec : Json} {u : Ty} (ht : t.isDynamic)
    (hu : wrappedType spec = .ok u) (hdepth : depth ≤ limits.maxDepth) :
    toValue limits depth t (.object [("value", inner), ("type", spec)]) =
      toValue limits (depth + 1) u inner := by
  have hunknown : isUnknown [("value", inner), ("type", spec)] = false := by
    refine isUnknown_eq_false ?_
    simp [unknownKey]
  cases t <;> cases ht
  conv_lhs => unfold toValue
  rw [if_neg (by omega)]
  simp [hunknown, hu]

/-- What carries a known value as its own type does so in a `dynamic` slot beside that type. -/
theorem exists_wrapped (h : v.Portable limits.maxNumberExponent) (hknown : v.isKnown)
    (hs : s.isDynamic) (ht : t.isDynamic)
    (hcarries : ∀ u, u.WellFormed → v.ty.same u → ∃ j, Carries limits v v.ty u j) :
    ∃ j, Carries limits v s t j := by
  have hown := h.wellFormed.type_wellFormed
  have hconcrete := h.wellFormed.isDynamic_eq_false hknown
  obtain ⟨spec, hspec⟩ := Ty.exists_describes hown (h.noCapsule v .self)
  have hu := typeBack?_eq hspec hconcrete
  -- The type that is read may have its attributes in another order.
  obtain ⟨j, hj⟩ := hcarries _ (echo.type_spec _ _ hu).1 hown.same_inKeyOrder
  refine ⟨.object [("value", j), ("type", spec)], ?_, fun _ hplain => ?_, fun depth hdepth => ?_⟩
  · simp only [toJson_of_isDynamic hs hknown hconcrete, wrapJson, hs, if_true, hj.written,
      hspec.written]
  · cases s <;> cases hs
    cases hplain
  · rw [nesting, nestingOfFields] at hdepth
    rw [toValue_wrapped ht (wrappedType_eq hspec hconcrete) (by omega),
      hj.read (depth + 1) (by omega), ← readBack_of_isDynamic ht hu hknown]

/-- Known values need only be looked at in slots of their own type. -/
theorem exists_of_known (h : v.Portable limits.maxNumberExponent) (hknown : v.isKnown)
    (hcarries : ∀ s t, s.WellFormed → t.WellFormed → v.ty.same s → s.same t →
      ∃ j, Carries limits v s t j) (hs : s.WellFormed) (ht : t.WellFormed) (hin : v.InSlot s)
    (hst : s.same t) : ∃ j, Carries limits v s t j := by
  have hown := h.wellFormed.type_wellFormed
  cases hdynamic : s.isDynamic with
  | true =>
    exact exists_wrapped h hknown hdynamic (isDynamic_of_same hst ▸ hdynamic) fun u hu hsame =>
      hcarries v.ty u hown hu hown.same_refl hsame
  | false => exact hcarries s t hs ht (hin.same hdynamic) hst

/-- A value without members is carried by what is read as such a value. -/
theorem carries_scalar {own : Ty} {content : Content Value} {marks : Marks}
    (hprimitive : own.isPrimitive) (hown : own.same s) (hst : s.same t)
    (hwritten : toJson own ⟨own, content, marks⟩ = .ok j) (hreadable : j.Readable)
    (hj : j.shape = .scalar)
    (hread : toScalar limits own j = .ok (readBack echo own ⟨own, content, marks⟩)) :
    Carries limits ⟨own, content, marks⟩ s t j := by
  obtain rfl := eq_of_same_of_isPrimitive hprimitive hown
  obtain rfl := eq_of_same_of_isPrimitive hprimitive hst
  refine ⟨hwritten, fun _ _ => hreadable, fun depth hdepth => ?_⟩
  unfold toValue
  rw [if_neg (by omega)]
  cases j <;> first | exact hread | cases hj

/-- Every value that can be sent is carried by something, in its slot and any equal one, unless
the reserved key is used in it. -/
theorem exists_carries (hlimit : limits.maxNumberExponent < Word.signedBound)
    (h : v.Portable limits.maxNumberExponent) (hreserved : v.Avoids unknownKey) (hs : s.WellFormed)
    (ht : t.WellFormed) (hin : v.InSlot s) (hst : s.same t) : ∃ j, Carries limits v s t j := by
  -- What is known is carried under its own type, and beside it in a `dynamic` slot.
  induction v using Value.induction generalizing s t with
  | null own marks =>
    refine ⟨.null, rfl, fun _ _ => .null, fun depth hdepth => ?_⟩
    unfold toValue
    rw [if_neg (by omega)]
    rfl
  | unknown own r marks =>
    cases h.wellFormed with
    | unknown _ _ start =>
      refine ⟨.ofUnknown r, rfl, fun _ _ => spelled_ofUnknown r fun f hf heq => ?_,
        fun depth hdepth =>
          toValue_ofUnknown t hlimit (h.refinements _ .self r rfl) start (by omega)⟩
      rw [heq] at hf
      exact absurd hf (by decide)
  | bool own b marks =>
    refine exists_of_known h rfl (fun s t _ _ hown hst => ?_) hs ht hin hst
    cases h.wellFormed with
    | bool => exact ⟨.bool b, carries_scalar rfl hown hst rfl (.bool b) rfl rfl⟩
  | number own n marks =>
    refine exists_of_known h rfl (fun s t _ _ hown hst => ?_) hs ht hin hst
    cases h.wellFormed with
    | number =>
      refine ⟨.number n.plain,
        carries_scalar rfl hown hst rfl (.number (Token.isNumber_plain n)) rfl ?_⟩
      simp only [toScalar, numberOfText, Decimal.ofText_plain (h.numbers _ .self n rfl) hlimit]
      rfl
  | string own str marks =>
    refine exists_of_known h rfl (fun s t _ _ hown hst => ?_) hs ht hin hst
    cases h.wellFormed with
    | string => exact ⟨.string str, carries_scalar rfl hown hst rfl (.string str) rfl rfl⟩
  | items own vs marks ih =>
    refine exists_of_known h rfl (fun s t hs ht hown hst => ?_) hs ht hin hst
    exact exists_array h.wellFormed hs ht hown hst fun v hv s t hs ht hin hst =>
      ih v hv (h.of_mem_parts hv) (hreserved.of_mem_parts hv) hs ht hin hst
  | entries own es marks ih =>
    refine exists_of_known h rfl (fun s t hs ht hown hst => ?_) hs ht hin hst
    refine exists_map h.wellFormed (hreserved _ .self es rfl) hs ht hown hst
      fun e he s t hs ht hin hst => ?_
    have hmem : e.2 ∈ parts (.entries es) := List.mem_map_of_mem he
    exact ih e he (h.of_mem_parts hmem) (hreserved.of_mem_parts hmem) hs ht hin hst
  | capsule own handle marks =>
    cases h.wellFormed with
    | capsule => cases h.noCapsule _ .self

end Json

end TypedData
