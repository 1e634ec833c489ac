import TypedData.Proofs.Decimal.Plain
import TypedData.Proofs.Ty.RoundTrip
import TypedData.Proofs.Value.Equality
import TypedData.Proofs.Value.Slots
import TypedData.Proofs.Value.WhollyKnown
import TypedData.Proofs.Wire.Members

/-!
# What comes back over the wire

A value that was written and read again has the types of the slots it was read for, and its
numbers are in the form in which they are read. Sets are put in order anew; since their order
looks at the form of numbers, they may come back in another one.

## Main definitions

* `Wire.Echo` — what a wire format makes of numbers and of types beside values
* `Wire.Echo.KeepsTypes` — formats in which types keep all but the order of their attributes
* `Refinement.written` — refinements with bounds as they are read
* `Value.readBack` — a value as it comes back
* `Value.typesRead` — whether all types beside values are read
* `Value.comesBack` — whether what comes back is the value itself

## Main results

* `Value.identical_readBack` — what comes back is identical exactly where the types and the order
  of sets are kept
-/

namespace TypedData

/-- What a wire format makes of numbers, and of the types that stand beside values in `dynamic`
slots. -/
structure Wire.Echo where
  number : Decimal → Decimal
  type? : Ty → Option Ty
  /-- Numbers keep their value. -/
  same_number : ∀ n, (number n).same n
  /-- A type that is read is well-formed and known. -/
  type_spec : ∀ t u, type? t = some u → u.WellFormed ∧ u.isDynamic = false

/-- A format in which types that can be written are read with their attributes in key order, if at
all. -/
structure Wire.Echo.KeepsTypes (c : Wire.Echo) : Prop where
  type_eq : ∀ t u, t.WellFormed → c.type? t = some u → u = t.inKeyOrder
  noCapsule : ∀ t u, t.WellFormed → c.type? t = some u → t.hasCapsule = false

/-- The type of a known value that comes back from a slot. -/
def Wire.Echo.slotType (c : Wire.Echo) (slot own : Ty) : Ty :=
  if slot.isDynamic then (c.type? own).getD own else slot

/-- A bound as it is read. -/
def NumberBound.written (b : NumberBound) : NumberBound := ⟨b.value.written, b.inclusive⟩

/-- A refinement with bounds as they are read. -/
def Refinement.written (r : Refinement) : Refinement :=
  { r with lower := r.lower.map (·.written), upper := r.upper.map (·.written) }

namespace Refinement

/-- Refinements that can be written and read: bounds are within a limit on exponents, and
lengths are unsigned words. -/
structure Writable (limit : Nat) (r : Refinement) : Prop where
  lower : ∀ b, r.lower = some b → b.value.withinExponent limit
  upper : ∀ b, r.upper = some b → b.value.withinExponent limit
  lengthLower : ∀ n, r.lengthLower = some n → n < Word.unsignedBound
  lengthUpper : ∀ n, r.lengthUpper = some n → n < Word.unsignedBound

/-- Whether the lengths in a refinement are unsigned words. -/
def Counted (r : Refinement) : Prop :=
  ∀ n, r.lengthLower = some n ∨ r.lengthUpper = some n → n < Word.unsignedBound

theorem Writable.counted {limit : Nat} {r : Refinement} (h : r.Writable limit) : r.Counted :=
  fun n hn => hn.elim (h.lengthLower n) (h.lengthUpper n)

theorem writable_none (limit : Nat) : Refinement.none.Writable limit := by
  constructor <;> intro _ h <;> cases h

theorem Writable.retainFor {limit : Nat} {r : Refinement} (h : r.Writable limit) (ty : Ty) :
    (r.retainFor ty).Writable limit := by
  obtain ⟨hlower, hupper, hlengthLower, hlengthUpper⟩ := h
  cases ty <;> constructor <;> first | assumption | exact nofun

theorem same_written (r : Refinement) : r.written.same r := by
  obtain ⟨_, _, lower, upper, _, _⟩ := r
  cases lower <;> cases upper <;>
    simp [same, written, sameBound, NumberBound.same, NumberBound.written, Decimal.same_written]

theorem retainFor_written {r : Refinement} {ty : Ty} (h : r.retainFor ty = r) :
    r.written.retainFor ty = r.written := by
  rw [← h]
  cases ty <;> rfl

/-- What a refinement may say does not depend on the order of attributes. -/
theorem retainFor_eq_of_same {s t : Ty} (h : s.same t) (r : Refinement) :
    r.retainFor s = r.retainFor t := by
  cases s <;> cases t <;> first | rfl | simp [Ty.same] at h

end Refinement

namespace Value

/-- The types of the places of elements. -/
def itemSlots (t : Ty) (n : Nat) : List Ty := (slots? t n).getD []

/-- The type of the place under a key. -/
def entrySlot (t : Ty) (key : String) : Ty := (slotOf? t key).getD .dynamic

/-- Elements in the order that their container keeps. -/
def inOrder (t : Ty) (vs : List Value) : List Value := if t.isSet then canonicalSet vs else vs

mutual

/-- A value as it comes back from a slot. -/
def readBack (c : Wire.Echo) (slot : Ty) : Value → Value
  | ⟨_, .null, _⟩ => null slot
  | ⟨_, .unknown r, _⟩ => unknownRefined slot r.written
  | ⟨own, .bool b, _⟩ => ofContent (c.slotType slot own) (.bool b)
  | ⟨own, .number n, _⟩ => ofContent (c.slotType slot own) (.number (c.number n))
  | ⟨own, .string s, _⟩ => ofContent (c.slotType slot own) (.string s)
  | ⟨own, .items vs, _⟩ =>
    let t := c.slotType slot own
    ofContent t (.items (inOrder t (readBackEach c (itemSlots t vs.length) vs)))
  | ⟨own, .entries es, _⟩ =>
    let t := c.slotType slot own
    ofContent t (.entries (readBackEntries c (entrySlot t) es))
  | ⟨own, .capsule h, _⟩ => ofContent (c.slotType slot own) (.capsule h)

/-- Elements as they come back from several slots. -/
def readBackEach (c : Wire.Echo) (slots : List Ty) : List Value → List Value
  | [] => []
  | v :: vs => v.readBack c (slots.headD .dynamic) :: readBackEach c slots.tail vs

/-- Entries as they come back from the slots of their keys. -/
def readBackEntries (c : Wire.Echo) (slotOf : String → Ty) : Entries Value → Entries Value
  | [] => []
  | (k, v) :: es => (k, v.readBack c (slotOf k)) :: readBackEntries c slotOf es

end

/-- Whether the type beside a known value is read. A slot that is not `dynamic` has none. -/
def typeRead (c : Wire.Echo) (slot own : Ty) : Bool := !slot.isDynamic || (c.type? own).isSome

mutual

/-- Whether all types beside the values in `dynamic` slots are read. -/
def typesRead (c : Wire.Echo) (slot : Ty) : Value → Bool
  | ⟨_, .null, _⟩ | ⟨_, .unknown _, _⟩ => true
  | ⟨own, .items vs, _⟩ =>
    typeRead c slot own && typesReadEach c (itemSlots (c.slotType slot own) vs.length) vs
  | ⟨own, .entries es, _⟩ =>
    typeRead c slot own && typesReadEntries c (entrySlot (c.slotType slot own)) es
  | ⟨own, _, _⟩ => typeRead c slot own

/-- Whether all types beside several elements are read. -/
def typesReadEach (c : Wire.Echo) (slots : List Ty) : List Value → Bool
  | [] => true
  | v :: vs => v.typesRead c (slots.headD .dynamic) && typesReadEach c slots.tail vs

/-- Whether all types beside several entries are read. -/
def typesReadEntries (c : Wire.Echo) (slotOf : String → Ty) : Entries Value → Bool
  | [] => true
  | (k, v) :: es => v.typesRead c (slotOf k) && typesReadEntries c slotOf es

end

mutual

/-- Whether what comes back from a slot is the value itself, apart from its marks: every null,
unknown and known value has its own type again, and the elements of every set, each as it comes
back, are put in the order in which they stood. -/
def comesBack (c : Wire.Echo) (slot : Ty) : Value → Bool
  | ⟨own, .null, _⟩ | ⟨own, .unknown _, _⟩ => slot.same own
  | ⟨own, .items vs, _⟩ =>
    let t := c.slotType slot own
    t.same own &&
      if t.isSet then
        identicalEach (canonicalSet (readBackEach c (itemSlots t vs.length) vs))
          (withoutMarksEach vs)
      else comesBackEach c (itemSlots t vs.length) vs
  | ⟨own, .entries es, _⟩ =>
    let t := c.slotType slot own
    t.same own && comesBackEntries c (entrySlot t) es
  | ⟨own, _, _⟩ => (c.slotType slot own).same own

/-- Whether several elements come back. -/
def comesBackEach (c : Wire.Echo) (slots : List Ty) : List Value → Bool
  | [] => true
  | v :: vs => v.comesBack c (slots.headD .dynamic) && comesBackEach c slots.tail vs

/-- Whether several entries come back. -/
def comesBackEntries (c : Wire.Echo) (slotOf : String → Ty) : Entries Value → Bool
  | [] => true
  | (k, v) :: es => v.comesBack c (slotOf k) && comesBackEntries c slotOf es

end

/-! ### What comes back is identical -/

variable {c : Wire.Echo}

theorem identicalEach_readBackEach {vs : List Value} {slots : List Ty}
    (h : ∀ v ∈ vs, ∀ slot, (v.readBack c slot).identical v.withoutMarks = v.comesBack c slot) :
    identicalEach (readBackEach c slots vs) (withoutMarksEach vs) = comesBackEach c slots vs := by
  induction vs generalizing slots with
  | nil => rfl
  | cons v vs ih =>
    rw [List.forall_mem_cons] at h
    simp only [readBackEach, withoutMarksEach, identicalEach, comesBackEach, h.1, ih h.2]

private theorem identicalEntries_readBackEntries {es : Entries Value} {slotOf : String → Ty}
    (h : ∀ e ∈ es, ∀ slot, (e.2.readBack c slot).identical e.2.withoutMarks =
      e.2.comesBack c slot) :
    identicalEntries (readBackEntries c slotOf es) (withoutMarksEntries es) =
      comesBackEntries c slotOf es := by
  induction es with
  | nil => rfl
  | cons e es ih =>
    rw [List.forall_mem_cons] at h
    simp only [readBackEntries, withoutMarksEntries, identicalEntries, comesBackEntries, h.1,
      ih h.2, beq_self_eq_true, Bool.true_and]

/-- An unknown comes back with what was said of it, if its slot has its type. -/
private theorem identical_readBack_unknown {slot own : Ty} {r : Refinement}
    (hr : r.retainFor own = r) :
    (unknownRefined slot r.written).identical ⟨own, .unknown r, .empty⟩ = slot.same own := by
  have hty : (slot == own) = slot.same own := rfl
  have hmarks : (Marks.empty == Marks.empty) = true := rfl
  simp only [unknownRefined, ofContent, identical, hty, hmarks, Bool.and_true]
  cases hsame : slot.same own with
  | false => rfl
  | true =>
    rw [Refinement.retainFor_eq_of_same hsame, Refinement.retainFor_written hr,
      Refinement.same_written]
    rfl

/-- What comes back is the value itself, apart from its marks, exactly where every part of it
comes back. -/
theorem identical_readBack {v : Value} (h : v.WellFormed) (slot : Ty) :
    (v.readBack c slot).identical v.withoutMarks = v.comesBack c slot := by
  have hty (s t : Ty) : (s == t) = s.same t := rfl
  have hmarks : (Marks.empty == Marks.empty) = true := rfl
  induction v using Value.induction generalizing slot with
  | null => simp [readBack, withoutMarks, comesBack, null, ofContent, identical, hty]
  | unknown own r m =>
    cases h with
    | unknown _ retained _ => exact identical_readBack_unknown retained
  | bool | string =>
    simp [readBack, withoutMarks, comesBack, ofContent, identical, hty]
  | number own n m =>
    simp [readBack, withoutMarks, comesBack, ofContent, identical, hty, c.same_number]
  | items own vs m ih =>
    simp only [readBack, withoutMarks, comesBack, ofContent, identical, hty, hmarks,
      Bool.and_true, inOrder]
    split
    · rfl
    · rw [identicalEach_readBackEach fun v hv slot => ih v hv (h.of_mem_items hv) slot]
  | entries own es m ih =>
    simp only [readBack, withoutMarks, comesBack, ofContent, identical, hty, hmarks,
      Bool.and_true]
    rw [identicalEntries_readBackEntries fun e he slot => ih e he (h.of_mem_entries he) slot]
  | capsule own handle m =>
    simp [readBack, withoutMarks, comesBack, ofContent, identical, hty, CapsuleHandle.same,
      CapsuleType.same]

/-- What was known is read back as known, and what was unknown as unknown. -/
@[simp] theorem isUnknown_readBack (c : Wire.Echo) (slot : Ty) (v : Value) :
    (v.readBack c slot).isUnknown = v.isUnknown := by
  obtain ⟨own, content, marks⟩ := v
  cases content <;> rfl

@[simp] theorem isKnown_readBack (c : Wire.Echo) (slot : Ty) (v : Value) :
    (v.readBack c slot).isKnown = v.isKnown := by
  obtain ⟨own, content, marks⟩ := v
  cases content <;> rfl

/-- Elements that come back are what elements come back as. -/
theorem exists_of_mem_readBackEach {vs : List Value} {slots : List Ty} {w : Value}
    (h : w ∈ readBackEach c slots vs) : ∃ v ∈ vs, ∃ slot, w = v.readBack c slot := by
  induction vs generalizing slots with
  | nil => cases h
  | cons v vs ih =>
    rw [readBackEach] at h
    rcases List.mem_cons.mp h with rfl | h
    · exact ⟨v, by simp, _, rfl⟩
    · obtain ⟨v', hv', hw⟩ := ih h
      exact ⟨v', by simp [hv'], hw⟩

/-- So are entries. -/
theorem exists_of_mem_readBackEntries {es : Entries Value} {slotOf : String → Ty}
    {f : String × Value} (h : f ∈ readBackEntries c slotOf es) :
    ∃ e ∈ es, ∃ slot, f.2 = e.2.readBack c slot := by
  induction es with
  | nil => cases h
  | cons e es ih =>
    rw [readBackEntries] at h
    rcases List.mem_cons.mp h with rfl | h
    · exact ⟨e, by simp, _, rfl⟩
    · obtain ⟨e', he', hf⟩ := ih h
      exact ⟨e', by simp [he'], hf⟩

/-- Elements in order are those that come back, up to their own marks. -/
theorem exists_of_mem_inOrder {t : Ty} {vs : List Value} {w : Value} (h : w ∈ inOrder t vs) :
    ∃ v ∈ vs, SameData w v := by
  rw [inOrder] at h
  split at h
  · exact exists_of_mem_canonicalSet h
  · exact ⟨w, h, .refl w⟩

/-- What was known at every depth is so when it is read back. -/
theorem isWhollyKnown_readBack {v : Value} (h : v.isWhollyKnown) (slot : Ty) :
    (v.readBack c slot).isWhollyKnown := by
  induction v using Value.induction generalizing slot with
  | null | bool | number | string | capsule => rfl
  | unknown => cases h
  | items own vs m ih =>
    rw [isWhollyKnown_items] at h
    rw [readBack, ofContent, isWhollyKnown_items]
    intro w hw
    obtain ⟨x, hx, hdata⟩ := exists_of_mem_inOrder hw
    obtain ⟨v, hv, slot, rfl⟩ := exists_of_mem_readBackEach hx
    exact isWhollyKnown_of_sameData hdata (ih v hv (h v hv) slot)
  | entries own es m ih =>
    rw [isWhollyKnown_entries] at h
    rw [readBack, ofContent, isWhollyKnown_entries]
    intro f hf
    obtain ⟨e, he, slot, heq⟩ := exists_of_mem_readBackEntries hf
    rw [heq]
    exact ih e he (h e he) slot

/-! ### Values that can be sent -/

/-- A well-formed value without capsules whose numbers and refinements can be written and
read. -/
structure Portable (limit : Nat) (v : Value) : Prop where
  wellFormed : v.WellFormed
  noCapsule : ∀ w, v.Contains w → w.ty.hasCapsule = false
  numbers : ∀ w, v.Contains w → ∀ n, w.asNumber? = some n → n.withinExponent limit
  refinements : ∀ w, v.Contains w → ∀ r, w.refinement? = some r → r.Writable limit

/-- What stands in a value that can be sent can be sent. -/
theorem Portable.of_mem_parts {limit : Nat} {v w : Value} (h : v.Portable limit)
    (hw : w ∈ parts v.content) : w.Portable limit where
  wellFormed := h.wellFormed.of_mem_parts hw
  noCapsule x hx := h.noCapsule x (.of_mem_parts hw hx)
  numbers x hx := h.numbers x (.of_mem_parts hw hx)
  refinements x hx := h.refinements x (.of_mem_parts hw hx)

/-- It has no capsules inside. -/
theorem Portable.capsuleFree {limit : Nat} {v : Value} (h : v.Portable limit) : v.CapsuleFree := by
  intro w hw handle hcontent
  have hwell := h.wellFormed.of_contains hw
  have hty := h.noCapsule w hw
  obtain ⟨own, content, marks⟩ := w
  obtain rfl := hcontent
  cases hwell
  cases hty

/-! ### Known values in their slots -/

/-- A known value in a `dynamic` slot comes back as from a slot of the type that is read beside
it. -/
theorem readBack_of_isDynamic {v : Value} {slot u : Ty} (hslot : slot.isDynamic)
    (hu : c.type? v.ty = some u) (hknown : v.isKnown) :
    v.readBack c slot = v.readBack c u := by
  have hconcrete := (c.type_spec _ _ hu).2
  obtain ⟨own, content, marks⟩ := v
  cases content <;>
    simp_all [readBack, Wire.Echo.slotType, isKnown, isNull, isUnknown]

theorem typesRead_of_isDynamic {v : Value} {slot u : Ty} (hslot : slot.isDynamic)
    (hu : c.type? v.ty = some u) (hknown : v.isKnown) :
    v.typesRead c slot = v.typesRead c u := by
  have hconcrete := (c.type_spec _ _ hu).2
  obtain ⟨own, content, marks⟩ := v
  cases content <;>
    simp_all [typesRead, typeRead, Wire.Echo.slotType, isKnown, isNull, isUnknown]

theorem comesBack_of_isDynamic {v : Value} {slot u : Ty} (hslot : slot.isDynamic)
    (hu : c.type? v.ty = some u) (hknown : v.isKnown) :
    v.comesBack c slot = v.comesBack c u := by
  have hconcrete := (c.type_spec _ _ hu).2
  obtain ⟨own, content, marks⟩ := v
  cases content <;>
    simp_all [comesBack, Wire.Echo.slotType, isKnown, isNull, isUnknown]

theorem exists_type?_of_typesRead {v : Value} {slot : Ty} (hslot : slot.isDynamic)
    (h : v.typesRead c slot) (hknown : v.isKnown) : ∃ u, c.type? v.ty = some u := by
  obtain ⟨own, content, marks⟩ := v
  rw [← Option.isSome_iff_exists]
  cases content <;> simp_all [typesRead, typeRead, isKnown, isNull, isUnknown]

/-! ### Containers of what comes back -/

theorem readBackEntries_eq_map (slotOf : String → Ty) (es : Entries Value) :
    readBackEntries c slotOf es = es.map fun e => (e.1, e.2.readBack c (slotOf e.1)) := by
  induction es with
  | nil => rfl
  | cons e es ih => rw [readBackEntries, ih, List.map_cons]

theorem keys_readBackEntries (c : Wire.Echo) (slotOf : String → Ty) (es : Entries Value) :
    (readBackEntries c slotOf es).map (·.1) = es.map (·.1) := by
  induction es with
  | nil => rfl
  | cons e es ih => rw [readBackEntries, List.map_cons, ih, List.map_cons]

theorem any_isUnknown_readBackEach (slots : List Ty) (vs : List Value) :
    (readBackEach c slots vs).any isUnknown = vs.any isUnknown := by
  induction vs generalizing slots with
  | nil => rfl
  | cons v vs ih => rw [readBackEach, List.any_cons, ih, isUnknown_readBack, List.any_cons]

theorem any_isUnknown_readBackEntries (slotOf : String → Ty) (es : Entries Value) :
    ((readBackEntries c slotOf es).map (·.2)).any isUnknown = (es.map (·.2)).any isUnknown := by
  induction es with
  | nil => rfl
  | cons e es ih =>
    rw [readBackEntries, List.map_cons, List.any_cons, ih, isUnknown_readBack, List.map_cons,
      List.any_cons]

theorem sequence_of_known {t : Ty} {vs : List Value} {n : Nat} {ts : List Ty}
    (hts : slots? t n = some ts) (h : t.isCollection → vs.any isUnknown = false) :
    sequence t vs = ofContent t (.items (inOrder t vs)) := by
  cases t with
  | list _ => simp [sequence, h rfl, inOrder, Ty.isSet]
  | set _ => simp [sequence, h rfl, inOrder, Ty.isSet]
  | tuple _ => rfl
  | _ => cases hts

theorem mapping_of_known {t : Ty} {es : Entries Value}
    (h : t.isCollection → (es.map (·.2)).any isUnknown = false) :
    mapping t es = ofContent t (.entries es) := by
  rw [mapping, Bool.and_eq_false_imp.mpr h]
  rfl

/-- The elements that come back make the whole that comes back. -/
theorem sequence_readBackEach {own t : Ty} {vs : List Value} {m : Marks} {ts : List Ty}
    (h : WellFormed ⟨own, .items vs, m⟩) (hsame : own.same t)
    (hts : slots? t vs.length = some ts) :
    sequence t (readBackEach c ts vs) = readBack c t ⟨own, .items vs, m⟩ := by
  have hconcrete := isDynamic_of_slots? hts
  rw [sequence_of_known hts]
  · simp [readBack, Wire.Echo.slotType, hconcrete, itemSlots, hts]
  · intro hcollection
    rw [any_isUnknown_readBackEach, List.any_eq_false]
    intro v hv
    rw [h.isUnknown_parts ((isCollection_of_same hsame).trans hcollection) hv]
    exact Bool.false_ne_true

/-- The entries that come back make the whole that comes back. -/
theorem mapping_readBackEntries {own t : Ty} {es : Entries Value} {m : Marks}
    (h : WellFormed ⟨own, .entries es, m⟩) (hsame : own.same t) :
    mapping t (readBackEntries c (entrySlot t) es) = readBack c t ⟨own, .entries es, m⟩ := by
  have hconcrete : t.isDynamic = false :=
    isDynamic_of_same hsame ▸ h.isDynamic_eq_false rfl
  rw [mapping_of_known]
  · rw [readBack, Wire.Echo.slotType, hconcrete]
    rfl
  · intro hcollection
    rw [any_isUnknown_readBackEntries, List.any_eq_false]
    intro v hv
    rw [h.isUnknown_parts ((isCollection_of_same hsame).trans hcollection) hv]
    exact Bool.false_ne_true

/-- So do maps and objects whose entries were read as members. -/
theorem mapOf_readBackEntries {own t : Ty} {es : Entries Value} {m : Marks}
    (h : WellFormed ⟨own, .entries es, m⟩) (hsame : own.same (.map t)) :
    Wire.mapOf (.map t) ((readBackEntries c (fun _ => t) es).map fun e => (e.1, .ok e.2)) =
      .ok (readBack c (.map t) ⟨own, .entries es, m⟩) := by
  have hkeys : ((readBackEntries c (fun _ => t) es).map (·.1)).Pairwise (· < ·) := by
    rw [keys_readBackEntries]
    exact h.entries_keys.1
  rw [Wire.mapOf_eq hkeys, ← mapping_readBackEntries h hsame]
  rfl

theorem objectOf_readBackEntries {own : Ty} {attrs : List (Attr Ty)} {es : Entries Value}
    {m : Marks} (h : WellFormed ⟨own, .entries es, m⟩) (hattrs : (Ty.object attrs).WellFormed)
    (hsame : own.same (.object attrs)) :
    Wire.objectOf (.object attrs) attrs
        ((readBackEntries c (Wire.attrType attrs) es).map fun e => (e.1, .ok e.2)) =
      .ok (readBack c (.object attrs) ⟨own, .entries es, m⟩) := by
  have hkeys : (readBackEntries c (Wire.attrType attrs) es).map (·.1) = Attr.sortedNames attrs := by
    rw [keys_readBackEntries, h.keys_of_same_object hattrs hsame]
  have hslots : Wire.attrType attrs = entrySlot (.object attrs) := rfl
  rw [Wire.objectOf_eq (Attr.WellFormed.of_object hattrs).names hkeys, hslots,
    mapping_readBackEntries h hsame]

/-! ### Types beside members -/

theorem typesReadEach_replicate_iff {vs : List Value} {t : Ty} :
    typesReadEach c (List.replicate vs.length t) vs ↔ ∀ v ∈ vs, v.typesRead c t := by
  induction vs with
  | nil => simp [typesReadEach]
  | cons v vs ih => simp [typesReadEach, List.replicate_succ, ih]

theorem typesReadEach_iff {vs : List Value} {ts : List Ty} (hlength : vs.length = ts.length) :
    typesReadEach c ts vs ↔ List.Forall₂ (fun v t => v.typesRead c t) vs ts := by
  induction vs generalizing ts with
  | nil =>
    obtain rfl := List.length_eq_zero_iff.mp hlength.symm
    simp [typesReadEach]
  | cons v vs ih =>
    obtain _ | ⟨t, ts⟩ := ts
    · cases hlength
    · simp [typesReadEach, ih (Nat.succ.inj hlength)]

theorem typesReadEntries_iff {es : Entries Value} {slotOf : String → Ty} :
    typesReadEntries c slotOf es ↔ ∀ e ∈ es, e.2.typesRead c (slotOf e.1) := by
  induction es with
  | nil => simp [typesReadEntries]
  | cons e es ih => simp [typesReadEntries, ih]

/-- Slots without `dynamic` have no types beside their values. -/
theorem typesRead_of_hasDynamic {v : Value} {slot : Ty} (h : v.WellFormed) (hslot : slot.WellFormed)
    (hdynamic : slot.hasDynamic = false) (hsame : v.ty.same slot) : v.typesRead c slot := by
  have hconcrete := Ty.isDynamic_of_hasDynamic hdynamic
  induction v using Value.induction generalizing slot with
  | null | unknown => rfl
  | bool | number | string | capsule => simp [typesRead, typeRead, hconcrete]
  | items own vs m ih =>
    obtain ⟨ts, hts, hin, hwell⟩ := h.exists_slots_of_same hslot hsame
    have hread : typesReadEach c ts vs := by
      refine (typesReadEach_iff hin.length_eq).mpr (hin.imp_of_mem fun v hv t ht hvt => ?_)
      have hdynamic := Ty.hasDynamic_of_mem_parts hdynamic (mem_parts_of_slots? hts ht)
      have hconcrete := Ty.isDynamic_of_hasDynamic hdynamic
      exact ih v hv (h.of_mem_items hv) (hwell t ht) hdynamic (hvt.same hconcrete) hconcrete
    simpa [typesRead, typeRead, Wire.Echo.slotType, hconcrete, itemSlots, hts] using hread
  | entries own es m ih =>
    have hread : typesReadEntries c (entrySlot slot) es := by
      refine typesReadEntries_iff.mpr fun e he => ?_
      obtain ⟨u, hu, hin, hwell⟩ := h.exists_slotOf_of_same hslot hsame he
      have hdynamic := Ty.hasDynamic_of_mem_parts hdynamic (mem_parts_of_slotOf? hu)
      have hconcrete := Ty.isDynamic_of_hasDynamic hdynamic
      rw [entrySlot, hu, Option.getD_some]
      exact ih e he (h.of_mem_entries he) hwell hdynamic (hin.same hconcrete) hconcrete
    simpa [typesRead, typeRead, Wire.Echo.slotType, hconcrete] using hread

end Value

end TypedData
