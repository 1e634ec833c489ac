import TypedData.Proofs.Assignable
import TypedData.Proofs.Wire.Placed

/-!
# Attributes that a slot does not declare

A value whose type is assignable to that of its slot is written there, unless an object in it has an
attribute that the slot of the object does not declare. The first such attribute is refused.

## Main definitions

* `Value.undeclared?` — the first attribute that its slot does not declare, and its object's path

## Main results

* `Value.Assignable.failsFor_toMsgpack` — what is written of assignable values, and what is refused
* `Value.Assignable.undeclared?_eq_none` — nothing is refused in slots of a value's own type
-/

namespace TypedData

namespace Value

mutual

/-- The first attribute in a value that its slot does not declare, after the path of its object. -/
def undeclared? (slot : Ty) : Value → Option (Path × String)
  | ⟨_, .items vs, _⟩ => undeclaredItem? 0 (itemSlots slot vs.length) vs
  | ⟨_, .entries es, _⟩ => undeclaredAttr? (slotOf? slot) es
  | _ => none

/-- The first such attribute among elements, from position `i` on. -/
def undeclaredItem? (i : Nat) (slots : List Ty) : List Value → Option (Path × String)
  | [] => none
  | v :: vs =>
    match v.undeclared? (slots.headD .dynamic) with
    | some (path, name) => some (.index i :: path, name)
    | none => undeclaredItem? (i + 1) slots.tail vs

/-- The first such attribute among entries. -/
def undeclaredAttr? (slotOf : String → Option Ty) : Entries Value → Option (Path × String)
  | [] => none
  | (k, v) :: es =>
    match slotOf k with
    | none => some ([], k)
    | some slot =>
      match v.undeclared? slot with
      | some (path, name) => some (.key k :: path, name)
      | none => undeclaredAttr? slotOf es

end

/-- Writing fails for the given attribute, and succeeds if there is none. -/
inductive FailsFor {α : Type} : Option (Path × String) → Except EncodeError α → Prop
  | refused (path : Path) (name : String) :
      FailsFor (some (path, name)) (.error ⟨.msgpack, path, .unsupportedAttribute name⟩)
  | written (m : α) : FailsFor none (.ok m)

variable {α : Type} {t u : Ty} {v : Value} {found : Option (Path × String)}
  {outcome : Except EncodeError α}

namespace FailsFor

theorem map {β : Type} (h : FailsFor found outcome) (f : α → β) :
    FailsFor found (outcome.map f) := by
  cases h with
  | refused path name => exact .refused path name
  | written m => exact .written (f m)

theorem exists_of_none (h : FailsFor none outcome) : ∃ m, outcome = .ok m := by
  cases h with
  | written m => exact ⟨m, rfl⟩

theorem eq_of_some {path : Path} {name : String} (h : FailsFor (some (path, name)) outcome) :
    outcome = .error ⟨.msgpack, path, .unsupportedAttribute name⟩ := by
  cases h with
  | refused => rfl

end FailsFor

theorem failsFor_itemsToMsgpack {vs : List Value} {ts : List Ty}
    (h : List.Forall₂ (fun v t => FailsFor (v.undeclared? t) (v.toMsgpack t)) vs ts) (i : Nat) :
    FailsFor (undeclaredItem? i ts vs) (itemsToMsgpack i ts vs) := by
  induction h generalizing i with
  | nil => exact .written []
  | @cons v t vs ts hv _ ih =>
    rw [undeclaredItem?, itemsToMsgpack, List.headD_cons, List.tail_cons]
    revert hv
    generalize v.undeclared? t = found
    generalize v.toMsgpack t = outcome
    rintro (⟨path, name⟩ | m)
    · exact .refused (.index i :: path) name
    · exact (ih (i + 1)).map (m :: ·)

theorem failsFor_entriesToMsgpack {es : Entries Value} {slotOf : String → Option Ty}
    (h : ∀ e ∈ es, ∀ u, slotOf e.1 = some u → FailsFor (e.2.undeclared? u) (e.2.toMsgpack u)) :
    FailsFor (undeclaredAttr? slotOf es) (entriesToMsgpack slotOf es) := by
  induction es with
  | nil => exact .written []
  | cons e es ih =>
    obtain ⟨k, v⟩ := e
    rw [List.forall_mem_cons] at h
    rw [undeclaredAttr?, entriesToMsgpack]
    cases hslot : slotOf k with
    | none => exact .refused [] k
    | some u =>
      have hv := h.1 u hslot
      revert hv
      dsimp only
      generalize v.undeclared? u = found
      generalize v.toMsgpack u = outcome
      rintro (⟨path, name⟩ | m)
      · exact .refused (.key k :: path) name
      · exact (ih h.2).map ((.ofText k, m) :: ·)

/-- A value without capsules whose type is assignable to that of its slot is written there, unless
an attribute in it is not declared. -/
theorem Assignable.failsFor_toMsgpack (h : v.Assignable t) (hcapsule : v.CapsuleFree) :
    FailsFor (v.undeclared? t) (v.toMsgpack t) := by
  induction v using Value.induction generalizing t with
  | null => exact .written Msgpack.nil
  | unknown own r => exact .written (Msgpack.ofUnknown r)
  | bool | number | string =>
    -- A scalar is assignable to its own type only.
    have hin := h.wellFormed.inSlot_of_usableAs rfl rfl rfl h.usable
    have hwell := h.wellFormed
    cases hwell
    obtain rfl := eq_of_same_of_isPrimitive rfl (hin.same h.concrete)
    exact .written _
  | items own vs m ih =>
    obtain ⟨ts, -, hts, hin⟩ := h.exists_slots
    rw [undeclared?, itemSlots, hts, Option.getD_some, Msgpack.toMsgpack_items hts]
    exact (failsFor_itemsToMsgpack (hin.imp_of_mem fun v hv t _ hvt =>
      ih v hv hvt (hcapsule.of_mem_parts hv)) 0).map Msgpack.array
  | entries own es m ih =>
    have hentries : FailsFor (undeclaredAttr? (slotOf? t) es) (entriesToMsgpack (slotOf? t) es) :=
      failsFor_entriesToMsgpack fun e he u hu =>
        ih e he (h.entry he hu) (hcapsule.of_mem_parts (List.mem_map_of_mem he))
    obtain ⟨u, rfl⟩ | ⟨bs, rfl⟩ := h.isMap_or_object
    · exact hentries.map Msgpack.map
    · exact hentries.map Msgpack.map
  | capsule own handle => exact absurd rfl (hcapsule _ .self handle)

/-- In a slot of its own type all attributes of a value are declared. -/
theorem Assignable.undeclared?_eq_none (h : v.Assignable t) (hcapsule : v.CapsuleFree)
    (hsame : v.ty.same t) : v.undeclared? t = none := by
  have hplaced : Placed Msgpack.echo t v :=
    placed_of_hasDynamic h.wellFormed hcapsule h.slot h.noDynamic hsame
  obtain ⟨m, hm, -⟩ := hplaced.exists_toMsgpack_alike Msgpack.keepsTypes_echo h.slot
    h.slot.same_refl
  have hfails := h.failsFor_toMsgpack hcapsule
  rw [hm] at hfails
  revert hfails
  generalize v.undeclared? t = found
  rintro ⟨⟩
  rfl

end Value

end TypedData
