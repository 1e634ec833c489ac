import TypedData.Proofs.Ty.Canonical
import TypedData.Proofs.Wire.MsgpackRoundTrip

/-!
# Values in their places

A value comes back from a slot in which it may stand, if every type that is written beside a value
inside is read again. What comes back is then well-formed and may stand in the slot as well, and
equal slots do not differ in what is written of it.

## Main definitions

* `Value.Placed` — values in slots, with types that are read

## Main results

* `Value.Placed.items`, `Value.Placed.entries` — members of placed values are placed
* `Value.Placed.of_isDynamic` — in a `dynamic` slot as in a slot of the type that is read
* `Value.Placed.wellFormed_readBack` — what comes back is well-formed
* `Value.Placed.exists_toMsgpack_alike` — equal slots are written alike
-/

namespace TypedData.Value

variable {c : Wire.Echo} {v w : Value} {s t u own : Ty} {vs : List Value} {es : Entries Value}
  {m : Marks}

/-- A value without capsules in a slot where all types beside values are read. -/
structure Placed (c : Wire.Echo) (t : Ty) (v : Value) : Prop where
  wellFormed : v.WellFormed
  capsuleFree : v.CapsuleFree
  slot : t.WellFormed
  inSlot : v.InSlot t
  types : v.typesRead c t

/-- Without `dynamic` in the slot there are no types beside values. -/
theorem placed_of_hasDynamic (hv : v.WellFormed) (hcapsule : v.CapsuleFree) (ht : t.WellFormed)
    (hdynamic : t.hasDynamic = false) (hvt : v.ty.same t) : Placed c t v where
  wellFormed := hv
  capsuleFree := hcapsule
  slot := ht
  inSlot := .of_same hvt
  types := typesRead_of_hasDynamic hv ht hdynamic hvt

/-! ### What comes back of members -/

theorem length_readBackEach (c : Wire.Echo) (ts : List Ty) (vs : List Value) :
    (readBackEach c ts vs).length = vs.length := by
  induction vs generalizing ts with
  | nil => rfl
  | cons v vs ih => rw [readBackEach, List.length_cons, ih, List.length_cons]

theorem readBackEach_replicate (c : Wire.Echo) (t : Ty) (vs : List Value) :
    readBackEach c (List.replicate vs.length t) vs = vs.map (readBack c t) := by
  induction vs with
  | nil => rfl
  | cons v vs ih =>
    rw [List.length_cons, List.replicate_succ, readBackEach, List.headD_cons, List.tail_cons, ih,
      List.map_cons]

theorem forall₂_readBackEach_iff {R : Value → Ty → Prop} {ts : List Ty} :
    List.Forall₂ R (readBackEach c ts vs) ts ↔
      List.Forall₂ (fun v t => R (v.readBack c t) t) vs ts := by
  induction vs generalizing ts with
  | nil => cases ts <;> simp [readBackEach]
  | cons v vs ih => cases ts <;> simp [readBackEach, ih]

theorem readBack_items {ts : List Ty} (hts : slots? t vs.length = some ts) :
    readBack c t ⟨own, .items vs, m⟩ = ofContent t (.items (inOrder t (readBackEach c ts vs))) := by
  simp [readBack, Wire.Echo.slotType, isDynamic_of_slots? hts, itemSlots, hts]

theorem readBack_entries (ht : t.isDynamic = false) : readBack c t ⟨own, .entries es, m⟩ =
    ofContent t (.entries (readBackEntries c (entrySlot t) es)) := by
  simp [readBack, Wire.Echo.slotType, ht]

theorem ty_readBack (ht : t.isDynamic = false) (v : Value) : (v.readBack c t).ty = t := by
  obtain ⟨own, content, marks⟩ := v
  cases content <;> simp [readBack, Wire.Echo.slotType, ht, ofContent, null, unknownRefined]

namespace Placed

/-- The elements of a placed value are placed. -/
theorem items (h : Placed c t ⟨own, .items vs, m⟩) (hconcrete : t.isDynamic = false) :
    ∃ ts, slots? t vs.length = some ts ∧ List.Forall₂ (fun v u => Placed c u v) vs ts := by
  obtain ⟨ts, hts, hin, hwell⟩ :=
    h.wellFormed.exists_slots_of_same h.slot (h.inSlot.same hconcrete)
  have hread : typesReadEach c ts vs := by
    simpa [typesRead, typeRead, Wire.Echo.slotType, hconcrete, itemSlots, hts] using h.types
  have htypes := (typesReadEach_iff hin.length_eq).mp hread
  exact ⟨ts, hts, (hin.both htypes).imp_of_mem fun v hv u hu hvu =>
    ⟨h.wellFormed.of_mem_items hv, h.capsuleFree.of_mem_parts hv, hwell u hu, hvu.1, hvu.2⟩⟩

/-- So are its entries. -/
theorem entries (h : Placed c t ⟨own, .entries es, m⟩) (hconcrete : t.isDynamic = false)
    {e : String × Value} (he : e ∈ es) :
    slotOf? t e.1 = some (entrySlot t e.1) ∧ Placed c (entrySlot t e.1) e.2 := by
  obtain ⟨u, hu, hin, hwell⟩ :=
    h.wellFormed.exists_slotOf_of_same h.slot (h.inSlot.same hconcrete) he
  have hread : typesReadEntries c (entrySlot t) es := by
    simpa [typesRead, typeRead, Wire.Echo.slotType, hconcrete] using h.types
  have hslot : entrySlot t e.1 = u := by rw [entrySlot, hu, Option.getD_some]
  rw [hslot]
  exact ⟨hu, h.wellFormed.of_mem_entries he, h.capsuleFree.of_mem_parts (List.mem_map_of_mem he),
    hwell, hin, hslot ▸ typesReadEntries_iff.mp hread e he⟩

variable (hc : c.KeepsTypes)
include hc

/-- A known value in a `dynamic` slot is placed in its own type in key order, which is read beside
it. -/
theorem of_isDynamic (h : Placed c t v) (ht : t.isDynamic) (hknown : v.isKnown) :
    c.type? v.ty = some v.ty.inKeyOrder ∧ v.ty.hasCapsule = false ∧
      Placed c v.ty.inKeyOrder v := by
  have hown := h.wellFormed.type_wellFormed
  obtain ⟨u, hu⟩ := exists_type?_of_typesRead ht h.types hknown
  obtain rfl := hc.type_eq _ _ hown hu
  exact ⟨hu, hc.noCapsule _ _ hown hu, h.wellFormed, h.capsuleFree, (c.type_spec _ _ hu).1,
    .of_same hown.same_inKeyOrder, typesRead_of_isDynamic ht hu hknown ▸ h.types⟩

/-- A known value is placed in the type with which it comes back, which equals its own. -/
theorem of_ty_readBack (h : Placed c t v) (hknown : v.isKnown) :
    Placed c (v.readBack c t).ty v ∧ (v.readBack c t).ty.same v.ty := by
  have hown := h.wellFormed.type_wellFormed
  cases ht : t.isDynamic with
  | false =>
    rw [ty_readBack ht]
    exact ⟨h, hown.same_symm h.slot (h.inSlot.same ht)⟩
  | true =>
    obtain ⟨hu, -, hplaced⟩ := h.of_isDynamic hc ht hknown
    rw [readBack_of_isDynamic ht hu hknown, ty_readBack (c.type_spec _ _ hu).2]
    exact ⟨hplaced, hown.same_symm hplaced.slot hown.same_inKeyOrder⟩

/-- What comes back of a known value is well-formed if that holds in slots that are not
`dynamic`. -/
theorem wellFormed_readBack_of_known (h : Placed c t v) (hknown : v.isKnown)
    (hback : ∀ u, u.isDynamic = false → Placed c u v →
      (v.readBack c u).WellFormed ∧ (v.readBack c u).InSlot u) :
    (v.readBack c t).WellFormed ∧ (v.readBack c t).InSlot t := by
  cases ht : t.isDynamic with
  | false => exact hback t ht h
  | true =>
    obtain ⟨hu, -, hplaced⟩ := h.of_isDynamic hc ht hknown
    rw [readBack_of_isDynamic ht hu hknown]
    exact ⟨(hback _ (c.type_spec _ _ hu).2 hplaced).1, .of_isDynamic ht⟩

/-- What comes back of a placed value is well-formed and may stand in the slot. -/
theorem wellFormed_readBack (h : Placed c t v) :
    (v.readBack c t).WellFormed ∧ (v.readBack c t).InSlot t := by
  induction v using Value.induction generalizing t with
  | null => exact ⟨.null h.slot, .of_same h.slot.same_refl⟩
  | unknown own r =>
    cases h.wellFormed with
    | unknown _ _ start =>
      exact ⟨.unknownRefined h.slot (start.of_eq rfl), .of_same h.slot.same_refl⟩
  | bool | number | string =>
    refine h.wellFormed_readBack_of_known hc rfl fun u hu hplaced => ?_
    have hwell := h.wellFormed
    cases hwell
    obtain rfl := eq_of_same_of_isPrimitive rfl (hplaced.inSlot.same hu)
    exact ⟨by constructor, .of_same rfl⟩
  | capsule own handle => exact absurd rfl (h.capsuleFree _ .self handle)
  | items own vs m ih =>
    refine h.wellFormed_readBack_of_known hc rfl fun u hu hplaced => ?_
    obtain ⟨ts, hts, heach⟩ := hplaced.items hu
    have hback : List.Forall₂ (fun w u => w.WellFormed ∧ w.InSlot u) (readBackEach c ts vs) ts :=
      forall₂_readBackEach_iff.mpr (heach.imp_of_mem fun v hv _ _ hvt => ih v hv hvt)
    rw [← sequence_readBackEach h.wellFormed (hplaced.inSlot.same hu) hts]
    refine ⟨.sequence hplaced.slot ((fills_of_slots? hplaced.slot hts).2.2 _
      (hback.imp fun _ _ h => h.2)) fun w hw => ?_, .of_ty_eq hplaced.slot (sequence_ty _ _)⟩
    obtain ⟨_, -, hw, -⟩ := hback.exists_of_mem_left hw
    exact hw
  | entries own es m ih =>
    refine h.wellFormed_readBack_of_known hc rfl fun u hu hplaced => ?_
    have hsame := hplaced.inSlot.same hu
    have hback : ∀ e ∈ readBackEntries c (entrySlot u) es,
        e.2.WellFormed ∧ e.2.InSlot (entrySlot u e.1) := by
      rw [readBackEntries_eq_map, List.forall_mem_map]
      exact fun e he => ih e he (hplaced.entries hu he).2
    have hwell := hplaced.slot
    rw [← mapping_readBackEntries h.wellFormed hsame]
    refine ⟨?_, .of_ty_eq hwell (mapping_ty _ _)⟩
    cases u with
    | map u =>
      obtain ⟨hkeys, hcomposed⟩ := h.wellFormed.entries_keys
      refine .mapping_map (by cases hwell; assumption) (fun e he => (hback e he).1)
        (fun e he => (hback e he).2) (keys_readBackEntries c _ es ▸ hkeys) ?_
      rw [readBackEntries_eq_map, List.forall_mem_map]
      exact hcomposed
    | object attrs =>
      refine .mapping_object hwell (fun e he => (hback e he).1) ?_ fun e he a ha => ?_
      · rw [keys_readBackEntries, h.wellFormed.keys_of_same_object hwell hsame]
      · have hin := (hback e he).2
        rwa [entrySlot, slotOf?, ha] at hin
    | _ =>
      have hown := h.wellFormed
      cases hown <;> cases hsame

/-! ### What is written into equal slots -/

omit hc in
theorem exists_itemsToMsgpack_alike {ss ts : List Ty}
    (h : List.Forall₂ (fun v s => Placed c s v) vs ss)
    (hsame : List.Forall₂ (fun s t => s.same t) ss ts) (hts : ∀ t ∈ ts, t.WellFormed)
    (halike : ∀ v ∈ vs, ∀ s t, Placed c s v → t.WellFormed → s.same t →
      ∃ m, v.toMsgpack s = .ok m ∧ v.toMsgpack t = .ok m) (i : Nat) :
    ∃ ms, itemsToMsgpack i ss vs = .ok ms ∧ itemsToMsgpack i ts vs = .ok ms := by
  induction h generalizing ts i with
  | nil => exact ⟨[], rfl, rfl⟩
  | @cons v s vs ss hv _ ih =>
    obtain _ | @⟨_, t, _, ts, hst, hsame⟩ := hsame
    rw [List.forall_mem_cons] at hts halike
    obtain ⟨m, hm, hm'⟩ := halike.1 s t hv hts.1 hst
    obtain ⟨ms, hms, hms'⟩ := ih hsame hts.2 halike.2 (i + 1)
    refine ⟨m :: ms, ?_, ?_⟩
    · simp only [itemsToMsgpack, List.headD_cons, List.tail_cons, hm, hms, Except.map]
    · simp only [itemsToMsgpack, List.headD_cons, List.tail_cons, hm', hms', Except.map]

omit hc in
theorem exists_entriesToMsgpack_alike {slotOf slotOf' : String → Option Ty}
    (h : ∀ e ∈ es, ∃ s t, slotOf e.1 = some s ∧ slotOf' e.1 = some t ∧
      ∃ m, e.2.toMsgpack s = .ok m ∧ e.2.toMsgpack t = .ok m) :
    ∃ ms, entriesToMsgpack slotOf es = .ok ms ∧ entriesToMsgpack slotOf' es = .ok ms := by
  induction es with
  | nil => exact ⟨[], rfl, rfl⟩
  | cons e es ih =>
    obtain ⟨⟨s, t, hs, ht, m, hm, hm'⟩, hes⟩ := List.forall_mem_cons.mp h
    obtain ⟨ms, hms, hms'⟩ := ih hes
    refine ⟨(.ofText e.1, m) :: ms, ?_, ?_⟩
    · simp only [entriesToMsgpack, hs, hm, hms, Except.map]
    · simp only [entriesToMsgpack, ht, hm', hms', Except.map]

/-- A known value is written alike into equal slots if it is into those that are not `dynamic`. -/
theorem exists_toMsgpack_alike_of_known (h : Placed c s v) (hknown : v.isKnown)
    (ht : t.WellFormed) (hst : s.same t)
    (halike : ∀ s t, s.isDynamic = false → Placed c s v → t.WellFormed → s.same t →
      ∃ m, v.toMsgpack s = .ok m ∧ v.toMsgpack t = .ok m) :
    ∃ m, v.toMsgpack s = .ok m ∧ v.toMsgpack t = .ok m := by
  cases hs : s.isDynamic with
  | false => exact halike s t hs h ht hst
  | true =>
    -- Beside its type, a value is written as that type, which equals the one that is read.
    have hown := h.wellFormed.type_wellFormed
    obtain ⟨hu, hcapsule, hplaced⟩ := h.of_isDynamic hc hs hknown
    obtain ⟨j, hj⟩ := Ty.exists_describes hown hcapsule
    obtain ⟨m, -, hm⟩ := halike _ v.ty (c.type_spec _ _ hu).2 hplaced hown
      (hown.same_symm hplaced.slot hown.same_inKeyOrder)
    have hwritten {slot : Ty} (hslot : slot.isDynamic) :
        v.toMsgpack slot = .ok (.array [.bin (Text.Utf8.ofString j.compact), m]) := by
      rw [Msgpack.toMsgpack_of_isDynamic hslot hknown (h.wellFormed.isDynamic_eq_false hknown),
        wrapMsgpack, if_pos hslot, hj.written, hm]
      rfl
    exact ⟨_, hwritten hs, hwritten (isDynamic_of_same hst ▸ hs)⟩

/-- A placed value is written alike into equal slots. -/
theorem exists_toMsgpack_alike (h : Placed c s v) (ht : t.WellFormed) (hst : s.same t) :
    ∃ m, v.toMsgpack s = .ok m ∧ v.toMsgpack t = .ok m := by
  induction v using Value.induction generalizing s t with
  | null | unknown => exact ⟨_, rfl, rfl⟩
  | capsule own handle => exact absurd rfl (h.capsuleFree _ .self handle)
  | bool | number | string =>
    refine h.exists_toMsgpack_alike_of_known hc rfl ht hst fun s t hs hplaced _ hst => ?_
    have hwell := h.wellFormed
    cases hwell
    obtain rfl := eq_of_same_of_isPrimitive rfl (hplaced.inSlot.same hs)
    obtain rfl := eq_of_same_of_isPrimitive rfl hst
    exact ⟨_, rfl, rfl⟩
  | items own vs m ih =>
    refine h.exists_toMsgpack_alike_of_known hc rfl ht hst fun s t hs hplaced ht hst => ?_
    obtain ⟨ss, hss, heach⟩ := hplaced.items hs
    -- Equal types have as many slots, equal place by place.
    obtain ⟨ts, hts, hsame⟩ := Value.exists_slots_of_same hst hss
    obtain ⟨ms, hms, hms'⟩ := exists_itemsToMsgpack_alike heach hsame
      (fills_of_slots? ht hts).2.1 (fun v hv s t hplaced => ih v hv hplaced) 0
    refine ⟨.array ms, ?_, ?_⟩
    · rw [Msgpack.toMsgpack_items hss, hms]
      rfl
    · rw [Msgpack.toMsgpack_items hts, hms']
      rfl
  | entries own es m ih =>
    refine h.exists_toMsgpack_alike_of_known hc rfl ht hst fun s t hs hplaced ht hst => ?_
    have hvs := hplaced.inSlot.same hs
    obtain ⟨ms, hms, hms'⟩ := @exists_entriesToMsgpack_alike es (slotOf? s) (slotOf? t)
      fun e he => by
        obtain ⟨hu, hentry⟩ := hplaced.entries hs he
        obtain ⟨u', hu', hsame⟩ := Value.exists_slotOf_of_same hst hu
        exact ⟨_, u', hu, hu', ih e he hentry (slotOf?_wellFormed ht hu') hsame⟩
    refine ⟨.map ms, ?_, ?_⟩
    · rw [Msgpack.toMsgpack_entries h.wellFormed hvs, hms]
      rfl
    · rw [Msgpack.toMsgpack_entries h.wellFormed
        (h.wellFormed.type_wellFormed.same_trans hvs hst), hms']
      rfl

end Placed

end TypedData.Value
