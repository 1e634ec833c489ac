import TypedData.Proofs.Value.Nesting
import TypedData.Proofs.Wire.MsgpackLeaves

/-!
# Values through MessagePack

Every value that can be sent is written for its slot, and what is written is read as the value
that comes back, as long as the reader's depth suffices for its cost.

## Main definitions

* `Msgpack.NumbersReturn` — whether numbers come back within a limit
* `Msgpack.Conveys`, `Msgpack.Carries` — what a value is written as, and is read from

## Main results

* `Msgpack.exists_conveys`, `Msgpack.exists_carries` — every value that can be sent is carried by
  something
-/

namespace TypedData

namespace Msgpack

open Value

variable {limits : Limits} {v : Value} {s t : Ty} {m : Msgpack}

/-- Whether the numbers in a value are within a limit in the form in which they come back. -/
def NumbersReturn (limit : Nat) (v : Value) : Prop :=
  ∀ w, v.Contains w → ∀ n, w.asNumber? = some n → (numberBack n).withinExponent limit

theorem numbersReturn_iff {limit : Nat} : NumbersReturn limit v ↔
    (∀ n, v.asNumber? = some n → (numberBack n).withinExponent limit) ∧
      ∀ x ∈ parts v.content, NumbersReturn limit x :=
  forall_contains_iff

theorem numbersReturn_of_parts {limit : Nat} (hnumber : v.asNumber? = none)
    (hparts : ∀ x ∈ parts v.content, NumbersReturn limit x) : NumbersReturn limit v :=
  forall_numbers_of_parts hnumber hparts

/-- A limit that every double meets is met by all that comes back. -/
theorem numbersReturn_of_le {limit : Nat} (hlower : 1074 ≤ limit)
    (h : ∀ w, v.Contains w → ∀ n, w.asNumber? = some n → n.withinExponent limit) :
    NumbersReturn limit v :=
  fun w hw n hn => within_numberBack hlower (h w hw n hn)

/-- What a value is written as in a slot `s`, and when what comes back is read from it in an equal
slot `t`. Each container spends one unit of depth and two of cost. -/
structure Conveys (limits : Limits) (v : Value) (s t : Ty) (m : Msgpack) : Prop where
  written : v.toMsgpack s = .ok m
  /-- The order of attributes does not show on the wire. -/
  writtenAlike : v.toMsgpack t = .ok m
  /-- Nothing is read unless the types beside values are, and the numbers. -/
  needed : ∀ depth w, m.toValue limits depth t = .ok w →
    v.typesRead echo t ∧ NumbersReturn limits.maxNumberExponent v
  read : m.Fits → v.typesRead echo t → NumbersReturn limits.maxNumberExponent v → ∀ depth,
    2 * depth + m.cost ≤ 2 * limits.maxDepth + 1 →
    m.toValue limits depth t = .ok (v.readBack echo t)

/-! ### Members -/

/-- Elements that are conveyed one by one. -/
theorem exists_items {vs : List Value} {ss ts : List Ty} (hin : List.Forall₂ InSlot vs ss)
    (hsame : List.Forall₂ (fun s t => s.same t) ss ts) (hss : ∀ s ∈ ss, s.WellFormed)
    (hts : ∀ t ∈ ts, t.WellFormed)
    (h : ∀ v ∈ vs, ∀ s t, s.WellFormed → t.WellFormed → v.InSlot s → s.same t →
      ∃ m, Conveys limits v s t m) (i : Nat) :
    ∃ ms, itemsToMsgpack i ss vs = .ok ms ∧ itemsToMsgpack i ts vs = .ok ms ∧
      ms.length = vs.length ∧
      (∀ depth ws, itemsToValues limits depth i ts ms = .ok ws →
        typesReadEach echo ts vs ∧ ∀ v ∈ vs, NumbersReturn limits.maxNumberExponent v) ∧
      ((∀ m ∈ ms, m.Fits) → typesReadEach echo ts vs →
        (∀ v ∈ vs, NumbersReturn limits.maxNumberExponent v) → ∀ depth,
        2 * depth + costOfItems ms ≤ 2 * limits.maxDepth + 1 →
        itemsToValues limits depth i ts ms = .ok (readBackEach echo ts vs)) := by
  induction hin generalizing ts i with
  | nil =>
    cases hsame
    exact ⟨[], rfl, rfl, rfl, fun _ _ _ => ⟨rfl, by simp⟩, fun _ _ _ _ _ => rfl⟩
  | @cons v s vs ss hv _ ih =>
    obtain _ | @⟨_, t, _, ts, hst, hsame⟩ := hsame
    rw [List.forall_mem_cons] at hss hts h
    obtain ⟨m, hm⟩ := h.1 s t hss.1 hts.1 hv hst
    obtain ⟨ms, hwritten, halike, hlength, hneeded, hread⟩ := ih hsame hss.2 hts.2 h.2 (i + 1)
    -- The costs of the items add up, so that each is within the limit if all of them are.
    refine ⟨m :: ms, ?_, ?_, by simp [hlength], fun depth ws hws => ?_,
      fun hfits htypes hnumbers depth hdepth => ?_⟩
    · simp [itemsToMsgpack, hm.written, hwritten, Except.map]
    · simp [itemsToMsgpack, hm.writtenAlike, halike, Except.map]
    · rw [itemsToValues] at hws
      split at hws
      · cases hws
      · rename_i w hw
        obtain ⟨ws, hws, -⟩ := Except.map_eq_ok_iff.mp hws
        obtain ⟨htype, hnumber⟩ := hm.needed depth w hw
        obtain ⟨htypes, hnumbers⟩ := hneeded depth ws hws
        exact ⟨by simp [typesReadEach, htype, htypes], List.forall_mem_cons.mpr ⟨hnumber, hnumbers⟩⟩
    · rw [List.forall_mem_cons] at hfits hnumbers
      rw [costOfItems] at hdepth
      rw [typesReadEach, Bool.and_eq_true] at htypes
      have hfirst := hm.read hfits.1 htypes.1 hnumbers.1 depth (by omega)
      have hrest := hread hfits.2 htypes.2 hnumbers.2 depth (by omega)
      simp only [itemsToValues, List.headD_cons, List.tail_cons, hfirst, hrest, Except.map,
        readBackEach]

/-- Entries that are conveyed one by one, under their keys. -/
theorem exists_entries {es : Entries Value} {slotOf slotOf' : String → Option Ty}
    {typeOf : String → Ty}
    (h : ∀ e ∈ es, ∃ u, slotOf e.1 = some u ∧ slotOf' e.1 = some (typeOf e.1) ∧
      ∃ m, Conveys limits e.2 u (typeOf e.1) m) :
    ∃ ms, entriesToMsgpack slotOf es = .ok ms ∧ entriesToMsgpack slotOf' es = .ok ms ∧
      ms.map (·.1) = es.map (fun e => ofText e.1) ∧
      (∀ depth, (∀ p ∈ entriesToMembers limits depth typeOf (es.map (·.1)) ms,
        ∃ w, p.2 = .ok w) → typesReadEntries echo typeOf es ∧
          ∀ e ∈ es, NumbersReturn limits.maxNumberExponent e.2) ∧
      ((∀ e ∈ ms, e.2.Fits) → typesReadEntries echo typeOf es →
        (∀ e ∈ es, NumbersReturn limits.maxNumberExponent e.2) → ∀ depth,
        2 * depth + costOfEntries ms ≤ 2 * limits.maxDepth + 1 →
        entriesToMembers limits depth typeOf (es.map (·.1)) ms =
          (readBackEntries echo typeOf es).map fun e => (e.1, .ok e.2)) := by
  induction es with
  | nil => exact ⟨[], rfl, rfl, rfl, fun _ _ => ⟨rfl, by simp⟩, fun _ _ _ _ _ => rfl⟩
  | cons e es ih =>
    obtain ⟨k, v⟩ := e
    rw [List.forall_mem_cons] at h
    obtain ⟨u, hu, hu', m, hm⟩ := h.1
    obtain ⟨ms, hwritten, halike, hkeys, hneeded, hread⟩ := ih h.2
    simp only at hu hu' hm
    refine ⟨(ofText k, m) :: ms, ?_, ?_, by simp [hkeys], fun depth hok => ?_,
      fun hfits htypes hnumbers depth hdepth => ?_⟩
    · simp [entriesToMsgpack, hu, hm.written, hwritten, Except.map]
    · simp [entriesToMsgpack, hu', hm.writtenAlike, halike, Except.map]
    · rw [List.map_cons, entriesToMembers, List.forall_mem_cons] at hok
      obtain ⟨w, hw⟩ := hok.1
      obtain ⟨htype, hnumber⟩ := hm.needed depth w hw
      obtain ⟨htypes, hnumbers⟩ := hneeded depth hok.2
      exact ⟨by simp [typesReadEntries, htype, htypes],
        List.forall_mem_cons.mpr ⟨hnumber, hnumbers⟩⟩
    · rw [List.forall_mem_cons] at hfits hnumbers
      rw [costOfEntries] at hdepth
      rw [typesReadEntries, Bool.and_eq_true] at htypes
      have hfirst := hm.read hfits.1 htypes.1 hnumbers.1 depth (by omega)
      have hrest := hread hfits.2 htypes.2 hnumbers.2 depth (by omega)
      simp only [List.map_cons, entriesToMembers, List.headD_cons, List.tail_cons, hfirst, hrest,
        readBackEntries]

/-- The keys that were written are read. -/
theorem keysOf_eq {es : Entries Value} {ms : List (Msgpack × Msgpack)}
    (hkeys : ms.map (·.1) = es.map (fun e => ofText e.1)) (hnodup : (es.map (·.1)).Nodup)
    (hcomposed : ∀ e ∈ es, Text.nfc e.1 = e.1) : keysOf ms = .ok (es.map (·.1)) := by
  rw [keysOf]
  refine (congrArg (Wire.distinctKeys []) (?_ : _ = (es.map (·.1)).map .ok)).trans
    (Wire.distinctKeys_eq (by simpa) (by simpa using hcomposed))
  clear hnodup hcomposed
  induction es generalizing ms with
  | nil =>
    rw [List.map_eq_nil_iff.mp hkeys]
    rfl
  | cons e es ih =>
    obtain _ | ⟨⟨k, m⟩, ms⟩ := ms
    · cases hkeys
    · obtain ⟨rfl, hrest⟩ := List.cons.inj hkeys
      simp only [List.map_cons, asText?_ofText, ih hrest]

/-! ### Containers -/

theorem toMsgpack_items {own : Ty} {vs : List Value} {marks : Marks} {ss : List Ty}
    (h : slots? s vs.length = some ss) :
    toMsgpack s ⟨own, .items vs, marks⟩ = (itemsToMsgpack 0 ss vs).map .array := by
  cases s with
  | list u => obtain rfl := Option.some.inj h; rfl
  | set u => obtain rfl := Option.some.inj h; rfl
  | tuple us =>
    simp only [slots?] at h
    split at h
    · rename_i hlength
      obtain rfl := Option.some.inj h
      exact if_pos hlength
    · cases h
  | _ => cases h

theorem toValue_array {ms : List Msgpack} {ts : List Ty} {depth : Nat}
    (h : slots? t ms.length = some ts) (hdepth : depth ≤ limits.maxDepth) :
    toValue limits depth t (.array ms) =
      (itemsToValues limits (depth + 1) 0 ts ms).map (sequence t) := by
  unfold toValue
  rw [if_neg (by omega)]
  cases t with
  | list u => obtain rfl := Option.some.inj h; rfl
  | set u => obtain rfl := Option.some.inj h; rfl
  | tuple us =>
    simp only [slots?] at h
    split at h
    · rename_i hlength
      obtain rfl := Option.some.inj h
      exact if_pos hlength
    · cases h
  | _ => cases h

/-- A list, set or tuple is conveyed by what conveys its elements. -/
theorem exists_array {own : Ty} {vs : List Value} {marks : Marks}
    (h : WellFormed ⟨own, .items vs, marks⟩) (hs : s.WellFormed) (ht : t.WellFormed)
    (hown : own.same s) (hst : s.same t)
    (ih : ∀ v ∈ vs, ∀ s t, s.WellFormed → t.WellFormed → v.InSlot s → s.same t →
      ∃ m, Conveys limits v s t m) : ∃ m, Conveys limits ⟨own, .items vs, marks⟩ s t m := by
  obtain ⟨ss, hss, hin, hswell⟩ := h.exists_slots_of_same hs hown
  obtain ⟨ts, hts, hsame⟩ := Value.exists_slots_of_same hst hss
  obtain ⟨ms, hwritten, halike, hlength, hneeded, hread⟩ :=
    exists_items hin hsame hswell (fills_of_slots? ht hts).2.1 ih 0
  have heach (marks : Marks) : typesRead echo t ⟨own, .items vs, marks⟩ =
      typesReadEach echo ts vs := by
    simp [typesRead, typeRead, Wire.Echo.slotType, isDynamic_of_slots? hts, itemSlots, hts]
  refine ⟨.array ms, ?_, ?_, fun depth w hw => ?_, fun hfits htypes hnumbers depth hdepth => ?_⟩
  · rw [toMsgpack_items hss, hwritten]
    rfl
  · rw [toMsgpack_items hts, halike]
    rfl
  · rw [toValue_array (hlength ▸ hts) (depth_le_of_toValue hw), Except.map_eq_ok_iff] at hw
    obtain ⟨ws, hws, -⟩ := hw
    obtain ⟨htypes, hnumbers⟩ := hneeded _ ws hws
    exact ⟨by rw [heach, htypes], numbersReturn_of_parts rfl hnumbers⟩
  · rw [heach] at htypes
    cases hfits with
    | array _ hfits =>
      rw [cost] at hdepth
      have hmembers := (numbersReturn_iff.mp hnumbers).2
      rw [toValue_array (hlength ▸ hts) (by omega), hread hfits htypes hmembers _ (by omega),
        Except.map, sequence_readBackEach h (h.type_wellFormed.same_trans hown hst) hts]

/-- Where some entries can stand, all are written into the slots of their keys. -/
theorem toMsgpack_entries {own own' : Ty} {es es' : Entries Value} {marks marks' : Marks}
    (h : WellFormed ⟨own, .entries es, marks⟩) (hown : own.same s) :
    toMsgpack s ⟨own', .entries es', marks'⟩ = (entriesToMsgpack (slotOf? s) es').map .map := by
  cases s <;> cases h <;> first | rfl | cases hown

theorem toValue_map {ms : List (Msgpack × Msgpack)} {keys : List String} {depth : Nat} {u : Ty}
    (hkeys : keysOf ms = .ok keys) (hdepth : depth ≤ limits.maxDepth) :
    toValue limits depth (.map u) (.map ms) =
      Wire.mapOf (.map u) (entriesToMembers limits (depth + 1) (fun _ => u) keys ms) := by
  unfold toValue
  rw [if_neg (by omega)]
  simp only [hkeys]

theorem toValue_object {ms : List (Msgpack × Msgpack)} {keys : List String} {depth : Nat}
    {attrs : List (Attr Ty)} (hkeys : keysOf ms = .ok keys)
    (hdeclared : ∀ k ∈ keys, k ∈ attrs.map (·.name)) (hdepth : depth ≤ limits.maxDepth) :
    toValue limits depth (.object attrs) (.map ms) = Wire.objectOf (.object attrs) attrs
      (entriesToMembers limits (depth + 1) (Wire.attrType attrs) keys ms) := by
  unfold toValue
  rw [if_neg (by omega)]
  simp only [hkeys, Wire.undeclared?_eq_none_iff.mpr hdeclared]

/-- What members under the given keys become in a map or object. -/
theorem toValue_entries {own : Ty} {es : Entries Value} {marks : Marks}
    {ms : List (Msgpack × Msgpack)} {depth : Nat} (h : WellFormed ⟨own, .entries es, marks⟩)
    (ht : t.WellFormed) (hsame : own.same t) (hkeys : keysOf ms = .ok (es.map (·.1)))
    (hdepth : depth ≤ limits.maxDepth) :
    (entriesToMembers limits (depth + 1) (entrySlot t) (es.map (·.1)) ms =
        (readBackEntries echo (entrySlot t) es).map (fun e => (e.1, .ok e.2)) →
      toValue limits depth t (.map ms) = .ok (readBack echo t ⟨own, .entries es, marks⟩)) ∧
    ∀ w, toValue limits depth t (.map ms) = .ok w →
      ∀ p ∈ entriesToMembers limits (depth + 1) (entrySlot t) (es.map (·.1)) ms,
        ∃ w, p.2 = .ok w := by
  have hlength : ms.length = (es.map (·.1)).length := length_keysOf hkeys
  -- Every key is declared, so the members alone decide what is put together.
  cases t with
  | map u =>
    rw [toValue_map hkeys hdepth]
    exact ⟨fun hread =>
        (congrArg (Wire.mapOf (.map u)) hread).trans (mapOf_readBackEntries h hsame),
      fun w hw => Wire.ok_of_mapOf hw⟩
  | object attrs =>
    have hdeclared := h.mem_names_of_same_object ht hsame
    rw [toValue_object hkeys hdeclared hdepth]
    refine ⟨fun hread => (congrArg (Wire.objectOf (.object attrs) attrs) hread).trans
      (objectOf_readBackEntries h ht hsame), fun w hw => Wire.ok_of_objectOf ?_ ?_ hw⟩
    · rw [keys_entriesToMembers hlength]
      exact h.nodup_keys
    · intro p hp
      refine hdeclared p.1 ?_
      rw [← @keys_entriesToMembers limits (depth + 1) (Wire.attrType attrs) _ _ hlength]
      exact List.mem_map_of_mem hp
  | _ => cases h <;> cases hsame

/-- A map or object is conveyed by what conveys its entries. -/
theorem exists_map {own : Ty} {es : Entries Value} {marks : Marks}
    (h : WellFormed ⟨own, .entries es, marks⟩) (hs : s.WellFormed) (ht : t.WellFormed)
    (hown : own.same s) (hst : s.same t)
    (ih : ∀ e ∈ es, ∀ s t, s.WellFormed → t.WellFormed → e.2.InSlot s → s.same t →
      ∃ m, Conveys limits e.2 s t m) : ∃ m, Conveys limits ⟨own, .entries es, marks⟩ s t m := by
  have hsame := h.type_wellFormed.same_trans hown hst
  have hentries : ∀ e ∈ es, ∃ u, slotOf? s e.1 = some u ∧
      slotOf? t e.1 = some (entrySlot t e.1) ∧ ∃ m, Conveys limits e.2 u (entrySlot t e.1) m := by
    intro e he
    obtain ⟨u, hu, hin, hwell⟩ := h.exists_slotOf_of_same hs hown he
    obtain ⟨u', hu', huu'⟩ := Value.exists_slotOf_of_same hst hu
    rw [entrySlot, hu', Option.getD_some]
    exact ⟨u, hu, rfl, ih e he u u' hwell (slotOf?_wellFormed ht hu') hin huu'⟩
  obtain ⟨ms, hwritten, halike, hkeys, hneeded, hread⟩ := exists_entries hentries
  have hkeysOf := keysOf_eq hkeys h.nodup_keys h.entries_keys.2
  have hconcrete : t.isDynamic = false := isDynamic_of_same hsame ▸ h.isDynamic_eq_false rfl
  -- Neither type is `dynamic`, so the types that are read back are those of the entries.
  have heach : typesRead echo t ⟨own, .entries es, marks⟩ =
      typesReadEntries echo (entrySlot t) es := by
    simp [typesRead, typeRead, Wire.Echo.slotType, hconcrete]
  refine ⟨.map ms, ?_, ?_, fun depth w hw => ?_, fun hfits htypes hnumbers depth hdepth => ?_⟩
  · rw [toMsgpack_entries h hown, hwritten]
    rfl
  · rw [toMsgpack_entries h hsame, halike]
    rfl
  · rw [heach]
    have hmembers := (toValue_entries h ht hsame hkeysOf (depth_le_of_toValue hw)).2 w hw
    obtain ⟨htypes, hnumbers⟩ := hneeded (depth + 1) hmembers
    refine ⟨htypes, numbersReturn_of_parts rfl fun x hx => ?_⟩
    obtain ⟨e, he, rfl⟩ := List.mem_map.mp hx
    exact hnumbers e he
  · rw [heach] at htypes
    cases hfits with
    | map _ _ hfits =>
      rw [cost] at hdepth
      have hmembers : ∀ e ∈ es, NumbersReturn limits.maxNumberExponent e.2 := fun e he =>
        (numbersReturn_iff.mp hnumbers).2 e.2 (List.mem_map_of_mem he)
      exact (toValue_entries h ht hsame hkeysOf (by omega)).1
        (hread hfits htypes hmembers (depth + 1) (by omega))

/-! ### Values without members -/

theorem toValue_scalar {depth : Nat} (hm : m.shape = .scalar) (hdepth : depth ≤ limits.maxDepth) :
    toValue limits depth t m = toScalar limits t m := by
  unfold toValue
  rw [if_neg (by omega)]
  cases m <;> first | rfl | cases hm

theorem shape_ofNumber (n : Decimal) : (ofNumber n).shape = .scalar := by
  rw [ofNumber]
  split
  · rfl
  split <;> rfl

/-- What a number was written as is read as a number. -/
theorem toScalar_number_ofNumber (n : Decimal) : toScalar limits .number (ofNumber n) =
    ((ofNumber n).asNumber? limits.maxNumberExponent).elim (failAt .number (ofNumber n) .badNumber)
      (fun k => .ok (.number k)) := by
  unfold ofNumber
  split <;> try split
  all_goals
    simp only [toScalar, ofText]
    split <;> simp only [*, Option.elim_some, Option.elim_none]

/-- A number is read exactly if it is within the limit in the form in which it comes back. -/
theorem toScalar_ofNumber {n : Decimal} (hupper : limits.maxNumberExponent < Word.signedBound) :
    (∀ w, toScalar limits .number (ofNumber n) = .ok w →
        (numberBack n).withinExponent limits.maxNumberExponent) ∧
      ((numberBack n).withinExponent limits.maxNumberExponent →
        toScalar limits .number (ofNumber n) = .ok (.number (numberBack n))) := by
  have hread := @asNumber?_ofNumber _ n hupper
  rw [toScalar_number_ofNumber, hread, Option.filter_some]
  constructor
  · intro w hw
    by_contra hback
    rw [if_neg (by simpa using hback)] at hw
    simp only [Option.elim_none, failAt, reduceCtorEq] at hw
  · intro hback
    rw [if_pos hback, Option.elim_some]

/-! ### Whole values -/

/-- A known value in a `dynamic` slot is written beside the text of its type. -/
theorem toMsgpack_of_isDynamic {slot : Ty} (hslot : slot.isDynamic) (hknown : v.isKnown)
    (hown : v.ty.isDynamic = false) :
    v.toMsgpack slot = wrapMsgpack slot v.ty (v.toMsgpack v.ty) := by
  obtain ⟨own, content, marks⟩ := v
  cases content <;>
    simp_all [toMsgpack, wrapMsgpack, Ty.slotType, isKnown, isNull, isUnknown]

theorem toValue_wrapped {depth : Nat} {spec inner : Msgpack} (ht : t.isDynamic)
    (hdepth : depth ≤ limits.maxDepth) :
    toValue limits depth t (.array [spec, inner]) =
      match wrappedType spec with
      | .ok u => toValue limits (depth + 1) u inner
      | .error e => failAt t (.array [spec, inner]) e := by
  cases t with
  | dynamic => exact if_neg (Nat.not_lt.mpr hdepth)
  | _ => cases ht

/-- What conveys a known value as its own type does so in a `dynamic` slot beside that type. -/
theorem exists_wrapped (h : v.Portable limits.maxNumberExponent)
    (hknown : v.isKnown) (hs : s.isDynamic) (ht : t.isDynamic)
    (hconveys : ∀ u, u.WellFormed → v.ty.same u → ∃ m, Conveys limits v v.ty u m) :
    ∃ m, Conveys limits v s t m := by
  have hown := h.wellFormed.type_wellFormed
  have hconcrete := h.wellFormed.isDynamic_eq_false hknown
  obtain ⟨j, hj⟩ := Ty.exists_describes hown (h.noCapsule v .self)
  obtain ⟨m, hm⟩ := hconveys v.ty hown hown.same_refl
  have hwritten {slot : Ty} (hslot : slot.isDynamic) :
      v.toMsgpack slot = .ok (.array [.bin (Text.Utf8.ofString j.compact), m]) := by
    rw [toMsgpack_of_isDynamic hslot hknown hconcrete, wrapMsgpack, if_pos hslot, hj.written,
      hm.written]
    rfl
  refine ⟨_, hwritten hs, hwritten ht, fun depth w hw => ?_,
    fun hfits htypes hnumbers depth hdepth => ?_⟩
  · rw [toValue_wrapped ht (depth_le_of_toValue hw)] at hw
    split at hw
    · rename_i u hu
      have hu := typeBack?_of_wrappedType hj.written hu
      obtain rfl := eq_inKeyOrder_of_typeBack? hown hu
      obtain ⟨m', hm'⟩ := hconveys _ (echo.type_spec _ _ hu).1 hown.same_inKeyOrder
      obtain rfl := Except.ok.inj (hm.written.symm.trans hm'.written)
      rw [typesRead_of_isDynamic ht hu hknown]
      exact hm'.needed _ _ hw
    · simp only [failAt, reduceCtorEq] at hw
  · obtain ⟨u, hu⟩ := exists_type?_of_typesRead ht htypes hknown
    obtain rfl := eq_inKeyOrder_of_typeBack? hown hu
    -- The type that is read may have its attributes in another order.
    obtain ⟨m', hm'⟩ := hconveys _ (echo.type_spec _ _ hu).1 hown.same_inKeyOrder
    obtain rfl := Except.ok.inj (hm.written.symm.trans hm'.written)
    rw [typesRead_of_isDynamic ht hu hknown] at htypes
    rw [cost, costOfItems, costOfItems, costOfItems] at hdepth
    cases hfits with
    | array _ hfits =>
      have hread := hm'.read (hfits m (by simp)) htypes hnumbers (depth + 1) (by omega)
      rw [toValue_wrapped ht (by omega)]
      simp only [wrappedType_of_typeBack? hj.written hu]
      exact hread.trans (congrArg Except.ok (readBack_of_isDynamic ht hu hknown).symm)

/-- Known values need only be looked at in slots of their own type. -/
theorem exists_of_known (h : v.Portable limits.maxNumberExponent) (hknown : v.isKnown)
    (hconveys : ∀ s t, s.WellFormed → t.WellFormed → v.ty.same s → s.same t →
      ∃ m, Conveys limits v s t m) (hs : s.WellFormed) (ht : t.WellFormed) (hin : v.InSlot s)
    (hst : s.same t) : ∃ m, Conveys limits v s t m := by
  have hown := h.wellFormed.type_wellFormed
  cases hdynamic : s.isDynamic with
  | true =>
    exact exists_wrapped h hknown hdynamic (isDynamic_of_same hst ▸ hdynamic) fun u hu hsame =>
      hconveys v.ty u hown hu hown.same_refl hsame
  | false => exact hconveys s t hs ht (hin.same hdynamic) hst

/-- A value without members is conveyed by what is read as such a value. -/
theorem conveys_scalar {own : Ty} {content : Content Value} {marks : Marks}
    (hprimitive : own.isPrimitive) (hown : own.same s) (hst : s.same t)
    (hwritten : toMsgpack own ⟨own, content, marks⟩ = .ok m) (hm : m.shape = .scalar)
    (htypes : typesRead echo own ⟨own, content, marks⟩)
    (hneeded : ∀ w, toScalar limits own m = .ok w →
      NumbersReturn limits.maxNumberExponent ⟨own, content, marks⟩)
    (hread : NumbersReturn limits.maxNumberExponent ⟨own, content, marks⟩ →
      toScalar limits own m = .ok (readBack echo own ⟨own, content, marks⟩)) :
    Conveys limits ⟨own, content, marks⟩ s t m := by
  obtain rfl := eq_of_same_of_isPrimitive hprimitive hown
  obtain rfl := eq_of_same_of_isPrimitive hprimitive hst
  refine ⟨hwritten, hwritten, fun depth w hw => ⟨htypes, ?_⟩, fun _ _ hnumbers depth hdepth => ?_⟩
  · rw [toValue_scalar hm (depth_le_of_toValue hw)] at hw
    exact hneeded w hw
  · have := m.cost_pos
    rw [toValue_scalar hm (by omega), hread hnumbers]

/-- Booleans, numbers and texts are conveyed, whatever the form of a number. -/
theorem exists_conveys_of_scalar (hupper : limits.maxNumberExponent < Word.signedBound)
    (h : v.WellFormed) (hrank : rank v.content ∈ [1, 2, 3]) (hown : v.ty.same s)
    (hst : s.same t) : ∃ m, Conveys limits v s t m := by
  cases h <;> simp only [rank, List.mem_cons, List.not_mem_nil, Nat.reduceEqDiff, or_self, or_false,
    false_or] at hrank
  case bool b marks =>
    exact ⟨.bool b, conveys_scalar rfl hown hst rfl rfl rfl
      (fun _ _ => numbersReturn_of_parts rfl (by simp [parts])) fun _ => rfl⟩
  case number n marks =>
    obtain ⟨hneeded, hread⟩ := @toScalar_ofNumber _ n hupper
    refine ⟨.ofNumber n, conveys_scalar rfl hown hst rfl (shape_ofNumber n) rfl
      (fun w hw => numbersReturn_iff.mpr ⟨fun k hk => ?_, by simp [parts]⟩)
      fun hnumbers => hread (hnumbers _ .self n rfl)⟩
    obtain rfl := Option.some.inj hk
    exact hneeded w hw
  case string str marks =>
    refine ⟨.ofText str, conveys_scalar rfl hown hst rfl rfl rfl
      (fun _ _ => numbersReturn_of_parts rfl (by simp [parts])) fun _ => ?_⟩
    have hread := asText?_ofText str
    rw [ofText] at hread ⊢
    simp only [toScalar, hread]
    rfl

/-- Every value that can be sent is conveyed by something, in its slot and any equal one. -/
theorem exists_conveys (hupper : limits.maxNumberExponent < Word.signedBound)
    (h : v.Portable limits.maxNumberExponent) (hs : s.WellFormed) (ht : t.WellFormed)
    (hin : v.InSlot s) (hst : s.same t) : ∃ m, Conveys limits v s t m := by
  -- What is known is conveyed under its own type, and beside it in a `dynamic` slot.
  induction v using Value.induction generalizing s t with
  | null own marks =>
    refine ⟨.nil, rfl, rfl, fun _ _ _ => ⟨rfl, numbersReturn_of_parts rfl (by simp [parts])⟩,
      fun _ _ _ depth hdepth => ?_⟩
    rw [cost] at hdepth
    unfold toValue
    rw [if_neg (by omega)]
    rfl
  | unknown own r marks =>
    cases h.wellFormed with
    | unknown _ _ start =>
      refine ⟨.ofUnknown r, rfl, rfl,
        fun _ _ _ => ⟨rfl, numbersReturn_of_parts rfl (by simp [parts])⟩,
        fun hfits _ _ depth hdepth => ?_⟩
      have := (ofUnknown r).cost_pos
      exact toValue_ofUnknown t hupper (h.refinements _ .self r rfl) start hfits (by omega)
  | bool | number | string =>
    exact exists_of_known h rfl (fun s t _ _ hown hst =>
      exists_conveys_of_scalar hupper h.wellFormed (by simp [rank]) hown hst) hs ht hin hst
  | items own vs marks ih =>
    refine exists_of_known h rfl (fun s t hs ht hown hst => ?_) hs ht hin hst
    exact exists_array h.wellFormed hs ht hown hst fun v hv s t hs ht hin hst =>
      ih v hv (h.of_mem_parts hv) hs ht hin hst
  | entries own es marks ih =>
    refine exists_of_known h rfl (fun s t hs ht hown hst => ?_) hs ht hin hst
    exact exists_map h.wellFormed hs ht hown hst fun e he s t hs ht hin hst =>
      ih e he (h.of_mem_parts (List.mem_map_of_mem he)) hs ht hin hst
  | capsule own handle marks =>
    cases h.wellFormed with
    | capsule => cases h.noCapsule _ .self

/-- What a value is written as in a slot `s`, and what comes back is read from in an equal slot
`t`, unless it is too deep. -/
structure Carries (limits : Limits) (v : Value) (s t : Ty) (m : Msgpack) : Prop where
  written : v.toMsgpack s = .ok m
  writtenAlike : v.toMsgpack t = .ok m
  /-- Nothing is read unless the types beside values are. -/
  types : ∀ depth w, m.toValue limits depth t = .ok w → v.typesRead echo t
  read : m.Fits → v.typesRead echo t → ∀ depth, 2 * depth + m.cost ≤ 2 * limits.maxDepth + 1 →
    m.toValue limits depth t = .ok (v.readBack echo t)

/-- Under a limit that every double meets, every value that can be sent is carried by
something. -/
theorem exists_carries (hlower : 1074 ≤ limits.maxNumberExponent)
    (hupper : limits.maxNumberExponent < Word.signedBound)
    (h : v.Portable limits.maxNumberExponent) (hs : s.WellFormed) (ht : t.WellFormed)
    (hin : v.InSlot s) (hst : s.same t) : ∃ m, Carries limits v s t m := by
  obtain ⟨m, hm⟩ := exists_conveys hupper h hs ht hin hst
  have hnumbers := numbersReturn_of_le hlower h.numbers
  exact ⟨m, hm.written, hm.writtenAlike, fun depth w hw => (hm.needed depth w hw).1,
    fun hfits htypes => hm.read hfits htypes hnumbers⟩

end Msgpack

end TypedData
