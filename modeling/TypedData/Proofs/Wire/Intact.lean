import TypedData.Proofs.Wire.Placed

/-!
# Values of which nothing is lost

Nulls and unknowns are written without a type, even into `dynamic` slots, from which they come back
with the type `dynamic`. And types are read with their attributes in key order, which may change the
order of set elements that are encoded alike, since those go by the names of their types. Where
neither matters, what is left to change on the way is the form of numbers.

## Main definitions

* `Value.nullsUntyped` — whether nulls and unknowns in `dynamic` slots are of type `dynamic`
* `Value.KeepsNames` — whether elements of sets are in order under the names of types in key order
* `Value.Intact` — placed values for which both is the case

## Main results

* `Value.nullsUntyped_readBack`, `Value.nullsUntyped_of_identical` — what comes back as it was has
  nulls and unknowns of these types only
* `Value.Intact.items`, `Value.Intact.entries`, `Value.Intact.of_isDynamic` — what is inside, and in
  slots of the types that are read
-/

namespace TypedData.Value

variable {c : Wire.Echo} {v w : Value} {s t own : Ty} {vs : List Value} {es : Entries Value}
  {m : Marks}

/-! ### Nulls and unknowns in `dynamic` slots -/

mutual

/-- Whether every null and unknown that stands in a `dynamic` slot is of type `dynamic`. -/
def nullsUntyped (slot : Ty) : Value → Bool
  | ⟨own, .null, _⟩ | ⟨own, .unknown _, _⟩ => !slot.isDynamic || own.isDynamic
  | ⟨own, .items vs, _⟩ => nullsUntypedEach (itemSlots own vs.length) vs
  | ⟨own, .entries es, _⟩ => nullsUntypedEntries (entrySlot own) es
  | _ => true

/-- The same for several elements. -/
def nullsUntypedEach (slots : List Ty) : List Value → Bool
  | [] => true
  | v :: vs => v.nullsUntyped (slots.headD .dynamic) && nullsUntypedEach slots.tail vs

/-- The same for several entries. -/
def nullsUntypedEntries (slotOf : String → Ty) : Entries Value → Bool
  | [] => true
  | (k, v) :: es => v.nullsUntyped (slotOf k) && nullsUntypedEntries slotOf es

end

theorem nullsUntypedEach_iff {ts : List Ty} (hlength : vs.length = ts.length) :
    nullsUntypedEach ts vs ↔ List.Forall₂ (fun v t => v.nullsUntyped t) vs ts := by
  induction vs generalizing ts with
  | nil =>
    obtain rfl := List.length_eq_zero_iff.mp hlength.symm
    simp [nullsUntypedEach]
  | cons v vs ih =>
    obtain _ | ⟨t, ts⟩ := ts
    · cases hlength
    · simp [nullsUntypedEach, ih (Nat.succ.inj hlength)]

theorem nullsUntypedEach_replicate_iff : nullsUntypedEach (List.replicate vs.length t) vs ↔
    ∀ v ∈ vs, v.nullsUntyped t := by
  induction vs with
  | nil => simp [nullsUntypedEach]
  | cons v vs ih => simp [nullsUntypedEach, List.replicate_succ, ih]

theorem nullsUntypedEntries_iff {slotOf : String → Ty} :
    nullsUntypedEntries slotOf es ↔ ∀ e ∈ es, e.2.nullsUntyped (slotOf e.1) := by
  induction es with
  | nil => simp [nullsUntypedEntries]
  | cons e es ih => simp [nullsUntypedEntries, ih]

/-- It matters only whether the slot is `dynamic`. -/
theorem nullsUntyped_congr (h : s.isDynamic = t.isDynamic) (v : Value) :
    v.nullsUntyped s = v.nullsUntyped t := by
  obtain ⟨own, content, marks⟩ := v
  cases content <;> simp [nullsUntyped, h]

theorem nullsUntyped_of_sameData (h : SameData w v) (t : Ty) :
    w.nullsUntyped t = v.nullsUntyped t := by
  obtain ⟨own, content, marks⟩ := v
  obtain ⟨own', content', marks'⟩ := w
  obtain ⟨rfl, rfl⟩ : own' = own ∧ content' = content := h
  cases content' <;> rfl

/-- Where the type has no `dynamic` inside, there are no such slots. -/
theorem nullsUntyped_of_hasDynamic (hv : v.WellFormed) (hdynamic : v.ty.hasDynamic = false)
    (ht : t.isDynamic = false) : v.nullsUntyped t := by
  have hconcrete {v : Value} {u : Ty} (hdynamic : v.ty.hasDynamic = false) (hu : u ∈ v.ty.parts) :
      u.isDynamic = false := Ty.isDynamic_of_hasDynamic (Ty.hasDynamic_of_mem_parts hdynamic hu)
  induction v using Value.induction generalizing t with
  | null | unknown => simp [nullsUntyped, ht]
  | bool | number | string | capsule => rfl
  | items own vs m ih =>
    obtain ⟨ts, hts, hin, -⟩ := hv.exists_slots
    rw [nullsUntyped, itemSlots, hts, Option.getD_some, nullsUntypedEach_iff hin.length_eq]
    exact hin.imp_of_mem fun v hmem u hu _ => ih v hmem (hv.of_mem_items hmem)
      (hv.hasDynamic_of_mem_parts hdynamic hmem) (hconcrete hdynamic (mem_parts_of_slots? hts hu))
  | entries own es m ih =>
    rw [nullsUntyped, nullsUntypedEntries_iff]
    intro e he
    obtain ⟨u, hu, -⟩ := hv.exists_slotOf he
    rw [entrySlot, hu, Option.getD_some]
    exact ih e he (hv.of_mem_entries he)
      (hv.hasDynamic_of_mem_parts hdynamic (List.mem_map_of_mem he))
      (hconcrete hdynamic (mem_parts_of_slotOf? hu))

theorem nullsUntypedEach_readBackEach {slots : List Ty}
    (h : ∀ v ∈ vs, ∀ t, (v.readBack c t).nullsUntyped t) :
    nullsUntypedEach slots (readBackEach c slots vs) := by
  induction vs generalizing slots with
  | nil => rfl
  | cons v vs ih =>
    rw [List.forall_mem_cons] at h
    simp [readBackEach, nullsUntypedEach, h.1, ih h.2]

/-- What comes back from a slot has nulls and unknowns of this type only. -/
theorem nullsUntyped_readBack (v : Value) (t : Ty) : (v.readBack c t).nullsUntyped t := by
  induction v using Value.induction generalizing t with
  | null | unknown => simp [readBack, null, unknownRefined, ofContent, nullsUntyped]
  | bool | number | string | capsule => rfl
  | items own vs m ih =>
    have heach : nullsUntypedEach (itemSlots (c.slotType t own) vs.length)
        (readBackEach c (itemSlots (c.slotType t own) vs.length) vs) :=
      nullsUntypedEach_readBackEach ih
    rw [readBack, ofContent, nullsUntyped]
    revert heach
    generalize c.slotType t own = u
    intro heach
    rw [inOrder]
    split
    · -- A set has one slot for all of its elements, however many are left.
      cases u with
      | set u =>
        have hslots (n : Nat) : itemSlots (.set u) n = List.replicate n u := rfl
        simp only [hslots, readBackEach_replicate] at heach ⊢
        rw [← List.length_map (readBack c u), nullsUntypedEach_replicate_iff] at heach
        rw [nullsUntypedEach_replicate_iff]
        intro w hw
        obtain ⟨x, hx, hdata⟩ := exists_of_mem_canonicalSet hw
        exact (nullsUntyped_of_sameData hdata u).trans (heach x hx)
      | _ => rename_i hset; cases hset
    · rwa [length_readBackEach]
  | entries own es m ih =>
    rw [readBack, ofContent, nullsUntyped, nullsUntypedEntries_iff, readBackEntries_eq_map,
      List.forall_mem_map]
    exact fun e he => ih e he _

theorem nullsUntypedEach_of_identical {ws : List Value} {ss ts : List Ty}
    (h : List.Forall₂ (fun w v => ∀ t, w.nullsUntyped t = v.nullsUntyped t) ws vs)
    (hst : List.Forall₂ (fun s t => s.same t) ss ts) :
    nullsUntypedEach ss ws = nullsUntypedEach ts vs := by
  induction h generalizing ss ts with
  | nil => rfl
  | @cons w v _ _ hwv _ ih =>
    cases hst with
    | nil => simp [nullsUntypedEach, hwv, ih .nil]
    | cons hsame hrest =>
      simp [nullsUntypedEach, hwv, ih hrest, nullsUntyped_congr (isDynamic_of_same hsame) v]

theorem nullsUntypedEntries_of_identical {fs : Entries Value} {slotOf slotOf' : String → Ty}
    (h : List.Forall₂ (fun f e => f.1 = e.1 ∧
      f.2.nullsUntyped (slotOf f.1) = e.2.nullsUntyped (slotOf' e.1)) fs es) :
    nullsUntypedEntries slotOf fs = nullsUntypedEntries slotOf' es := by
  induction h with
  | nil => rfl
  | cons hfe _ ih => simp [nullsUntypedEntries, hfe.2, ih]

/-- Identical values do not differ in this. -/
theorem nullsUntyped_of_identical (hw : w.WellFormed) (h : w.identical v) (t : Ty) :
    w.nullsUntyped t = v.nullsUntyped t := by
  induction w using Value.induction generalizing v t with
  | null | unknown =>
    obtain ⟨hty, -, hcontent⟩ := identical_iff.mp h
    obtain ⟨own, content, marks⟩ := v
    cases content <;> first | (cases hcontent; done) | skip
    exact congrArg (!t.isDynamic || ·) (isDynamic_of_same hty)
  | bool | number | string | capsule =>
    obtain ⟨-, -, hcontent⟩ := identical_iff.mp h
    obtain ⟨own, content, marks⟩ := v
    cases content <;> first | rfl | cases hcontent
  | items own' ws m' ih =>
    obtain ⟨hty, -, hcontent⟩ := identical_iff.mp h
    obtain ⟨own, content, marks⟩ := v
    cases content <;> try cases hcontent
    have heach := identicalEach_iff.mp hcontent
    obtain ⟨ss, hss, -⟩ := hw.exists_slots
    obtain ⟨ts, hts, hst⟩ := Value.exists_slots_of_same hty hss
    rw [heach.length_eq] at hts
    rw [nullsUntyped, nullsUntyped, itemSlots, itemSlots, hss, hts]
    exact nullsUntypedEach_of_identical (heach.imp_of_mem fun w hmem v _ hwv t =>
      ih w hmem (hw.of_mem_items hmem) hwv t) hst
  | entries own' fs m' ih =>
    obtain ⟨hty, -, hcontent⟩ := identical_iff.mp h
    obtain ⟨own, content, marks⟩ := v
    cases content <;> try cases hcontent
    rw [nullsUntyped, nullsUntyped]
    refine nullsUntypedEntries_of_identical
      ((identicalEntries_iff.mp hcontent).imp_of_mem fun f hf e he hfe => ⟨hfe.1, ?_⟩)
    -- The slots under one key are equal.
    obtain ⟨u, hu, -⟩ := hw.exists_slotOf hf
    obtain ⟨u', hu', hsame⟩ := Value.exists_slotOf_of_same hty hu
    rw [entrySlot, entrySlot, ← hfe.1, hu, hu', Option.getD_some, Option.getD_some,
      ih f hf (hw.of_mem_entries hf) hfe.2]
    exact nullsUntyped_congr (isDynamic_of_same hsame) e.2

/-! ### Names of types in key order -/

/-- Elements that are encoded alike are in the same order by the names of their types whether these
have their attributes as declared or in key order. -/
def NamesInOrder (vs : List Value) : Prop :=
  ∀ v ∈ vs, ∀ w ∈ vs, ownBytes? v = ownBytes? w → (Ord.compare v.ty.name w.ty.name).isLE →
    (Ord.compare v.ty.inKeyOrder.name w.ty.inKeyOrder.name).isLE

/-- The elements of every set of `dynamic` elements in a value keep the order of the names of their
types. -/
def KeepsNames (v : Value) : Prop :=
  ∀ s, v.Contains s → s.ty = .set .dynamic → NamesInOrder (parts s.content)

theorem KeepsNames.of_mem_parts (h : v.KeepsNames) (hw : w ∈ parts v.content) : w.KeepsNames :=
  fun x hx => h x (.of_mem_parts hw hx)

/-! ### Intact values -/

/-- A value in its place, of which nothing is lost but the form of numbers. -/
structure Intact (c : Wire.Echo) (t : Ty) (v : Value) : Prop extends Placed c t v where
  untyped : v.nullsUntyped t
  names : v.KeepsNames

/-- Without `dynamic` in the slot there is nothing to lose. -/
theorem intact_of_hasDynamic (hv : v.WellFormed) (hcapsule : v.CapsuleFree) (ht : t.WellFormed)
    (hdynamic : t.hasDynamic = false) (hvt : v.ty.same t) : Intact c t v where
  toPlaced := placed_of_hasDynamic hv hcapsule ht hdynamic hvt
  untyped := nullsUntyped_of_hasDynamic hv
    ((hv.type_wellFormed.hasDynamic_of_same ht hvt).trans hdynamic)
    (Ty.isDynamic_of_hasDynamic hdynamic)
  names s hs hset := by
    have hown := (hv.type_wellFormed.hasDynamic_of_same ht hvt).trans hdynamic
    have hinside := hv.hasDynamic_of_contains hown hs
    rw [hset] at hinside
    cases hinside

namespace Intact

/-- The elements of an intact value are intact. -/
theorem items (h : Intact c t ⟨own, .items vs, m⟩) (hconcrete : t.isDynamic = false) :
    ∃ ts, slots? t vs.length = some ts ∧ List.Forall₂ (fun v u => Intact c u v) vs ts := by
  obtain ⟨ts, hts, heach⟩ := h.toPlaced.items hconcrete
  obtain ⟨ss, hss, hin, -⟩ := h.wellFormed.exists_slots
  obtain ⟨ts', hts', hsame⟩ := Value.exists_slots_of_same (h.inSlot.same hconcrete) hss
  obtain rfl := Option.some.inj (hts.symm.trans hts')
  have huntyped := h.untyped
  rw [nullsUntyped, itemSlots, hss, Option.getD_some, nullsUntypedEach_iff hin.length_eq]
    at huntyped
  have hplaced := heach.both (huntyped.trans_of_mem hsame fun v _ s _ t hvs hst =>
    nullsUntyped_congr (isDynamic_of_same hst) v ▸ hvs)
  exact ⟨ts, hts, hplaced.imp_of_mem fun v hv u _ hvu =>
    ⟨hvu.1, hvu.2, h.names.of_mem_parts hv⟩⟩

/-- So are its entries. -/
theorem entries (h : Intact c t ⟨own, .entries es, m⟩) (hconcrete : t.isDynamic = false)
    {e : String × Value} (he : e ∈ es) : Intact c (entrySlot t e.1) e.2 := by
  obtain ⟨hslot, hplaced⟩ := h.toPlaced.entries hconcrete he
  obtain ⟨u, hu, -⟩ := h.wellFormed.exists_slotOf he
  obtain ⟨u', hu', hsame⟩ := Value.exists_slotOf_of_same (h.inSlot.same hconcrete) hu
  have huntyped := h.untyped
  rw [nullsUntyped, nullsUntypedEntries_iff] at huntyped
  refine ⟨hplaced, ?_, h.names.of_mem_parts (List.mem_map_of_mem he)⟩
  rw [← nullsUntyped_congr (s := entrySlot own e.1), huntyped e he]
  rw [entrySlot, entrySlot, hu, hu', Option.getD_some, Option.getD_some, isDynamic_of_same hsame]

/-- A known value in a `dynamic` slot is as intact in its own type in key order. -/
theorem of_isDynamic (hc : c.KeepsTypes) (h : Intact c t v) (ht : t.isDynamic)
    (hknown : v.isKnown) : c.type? v.ty = some v.ty.inKeyOrder ∧ v.ty.hasCapsule = false ∧
      Intact c v.ty.inKeyOrder v := by
  obtain ⟨hu, hcapsule, hplaced⟩ := h.toPlaced.of_isDynamic hc ht hknown
  refine ⟨hu, hcapsule, hplaced, ?_, h.names⟩
  have huntyped := h.untyped
  obtain ⟨own, content, marks⟩ := v
  cases content <;> first | exact huntyped | cases hknown

/-- A null or unknown has the type of its slot. -/
theorem same_of_not_known (h : Intact c t v) (hknown : v.isKnown = false) : t.same v.ty := by
  cases ht : t.isDynamic with
  | false => exact h.wellFormed.type_wellFormed.same_symm h.slot (h.inSlot.same ht)
  | true =>
    have huntyped := h.untyped
    obtain ⟨own, content, marks⟩ := v
    cases content <;> first | cases hknown; done | skip
    all_goals
      rw [nullsUntyped, ht] at huntyped
      cases t <;> first | cases ht; done | skip
      cases own <;> first | rfl | cases huntyped

/-- From a `dynamic` slot an intact value comes back with its own type in key order. -/
theorem ty_readBack_of_isDynamic (hc : c.KeepsTypes) (h : Intact c t v) (ht : t.isDynamic) :
    (v.readBack c t).ty = v.ty.inKeyOrder := by
  cases hknown : v.isKnown with
  | true =>
    obtain ⟨hu, -⟩ := h.of_isDynamic hc ht hknown
    rw [readBack_of_isDynamic ht hu hknown, Value.ty_readBack (c.type_spec _ _ hu).2]
  | false =>
    have hsame := h.same_of_not_known hknown
    obtain ⟨own, content, marks⟩ := v
    cases t <;> cases ht
    cases own <;> cases hsame
    cases content <;> first | rfl | cases hknown

end Intact

end TypedData.Value
