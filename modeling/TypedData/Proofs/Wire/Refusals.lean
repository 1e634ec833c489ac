import TypedData.Proofs.PathTyping
import TypedData.Proofs.Wire.OfJson
import TypedData.Proofs.Wire.OfMsgpack

/-!
# Where decoding fails

Something on the wire is refused under the type of its slot, or because something inside is refused
under the type of a slot further in. The path of the failure grows by a step on the way out of each
container, and the step leads from the type of the container to the type of the slot. So the path
leads to the type that the failure names, as long as every slot has a step that leads to it: the
elements of sets have none, and in `dynamic` slots the wire itself says the type.

## Main definitions

* `Ty.hasSet` — whether a set type appears anywhere
* `Ty.Charted` — types in which every place can be named by a path
* `DecodeFailure.LocatedIn` — failures whose path leads to the type they name
* `Wire.Refused` — the places where something on the wire is refused

## Main results

* `Json.refused_of_toValue`, `Msgpack.refused_of_toValue` — a failure lies at one of these places
* `Value.decode_error_located` — the path of a failure leads to the type it names
-/

namespace TypedData

variable {t u ty : Ty} {e : DecodeFailure}

/-! ### Types without sets -/

namespace Ty

mutual

/-- Whether a set type appears anywhere. -/
def hasSet : Ty → Bool
  | set _ => true
  | list t | map t => t.hasSet
  | tuple ts => anySet ts
  | object attrs => anySetAttr attrs
  | bool | number | string | dynamic | capsule _ => false

/-- Whether a set type appears in one of several types. -/
def anySet : List Ty → Bool
  | [] => false
  | t :: ts => t.hasSet || anySet ts

/-- Whether a set type appears in one of several attributes. -/
def anySetAttr : List (Attr Ty) → Bool
  | [] => false
  | ⟨_, t, _⟩ :: as => t.hasSet || anySetAttr as

end

theorem anySet_eq_any (ts : List Ty) : anySet ts = ts.any hasSet := by
  induction ts with
  | nil => rfl
  | cons t ts ih => simp [anySet, ih]

theorem anySetAttr_eq_any (attrs : List (Attr Ty)) :
    anySetAttr attrs = attrs.any fun a => a.ty.hasSet := by
  induction attrs with
  | nil => rfl
  | cons a as ih => simp [anySetAttr, ih]

theorem hasSet_of_mem_parts (h : t.hasSet = false) (hu : u ∈ t.parts) : u.hasSet = false := by
  cases t <;> simp_all [parts, hasSet, anySet_eq_any, anySetAttr_eq_any]
  obtain ⟨a, ha, rfl⟩ := hu
  exact h a ha

/-- A well-formed type in which every place can be named by a path. -/
structure Charted (t : Ty) : Prop where
  wellFormed : t.WellFormed
  noSet : t.hasSet = false
  noDynamic : t.hasDynamic = false

theorem Charted.of_mem_parts (h : t.Charted) (hu : u ∈ t.parts) : u.Charted where
  wellFormed := h.wellFormed.of_mem_parts hu
  noSet := hasSet_of_mem_parts h.noSet hu
  noDynamic := hasDynamic_of_mem_parts h.noDynamic hu

end Ty

/-! ### Failures at the end of their path -/

namespace DecodeFailure

/-- The path of a failure leads in a type to the type that the failure names. -/
def LocatedIn (ty : Ty) (e : DecodeFailure) : Prop := ty.follow e.path = .ok e.expected

theorem LocatedIn.inside {s : Step} (h : e.LocatedIn u) (hs : t.child s = .ok u) :
    (e.inside s).LocatedIn t := by
  have hstep : t.step s = .ok u := by rw [Ty.step, hs]
  simp only [LocatedIn, DecodeFailure.inside, Ty.follow, hstep]
  exact Except.mapError_eq_ok_iff.mpr h

end DecodeFailure

namespace Wire

/-- The places where something on the wire is refused under a type: here, or in one of the slots
directly inside, where `fails` says what fails under which type. -/
inductive Refused (fails : Ty → DecodeFailure → Prop) : Ty → DecodeFailure → Prop
  | here {ty : Ty} {shape : WireShape} {reason : DecodeReason} :
      Refused fails ty ⟨[], ty, shape, reason⟩
  /-- What a wrapper holds is in no place of its own. -/
  | wrapped {t : Ty} {e : DecodeFailure} (h : fails t e) : Refused fails .dynamic e
  | item {ty t : Ty} {n i : Nat} {slots : List Ty} {e : DecodeFailure}
      (hslots : Value.slots? ty n = some slots) (hslot : slots[i]? = some t) (h : fails t e) :
      Refused fails ty (e.inside (.index i))
  | member {t : Ty} {key : String} {e : DecodeFailure} (h : fails t e) :
      Refused fails (.map t) (e.inside (.key key))
  | attr {attrs : List (Attr Ty)} {a : Attr Ty} {e : DecodeFailure} (ha : a ∈ attrs)
      (h : fails a.ty e) : Refused fails (.object attrs) (e.inside (.attr a.name))

variable {fails : Ty → DecodeFailure → Prop}

/-- A failure leads to the type it names if the failures inside do. -/
theorem Refused.locatedIn (h : Refused fails ty e) (hty : ty.Charted)
    (hinside : ∀ t e, fails t e → t.Charted → e.LocatedIn t) : e.LocatedIn ty := by
  cases h with
  | here => rfl
  | wrapped => cases hty.noDynamic
  | @item _ t n i slots _ hslots hslot h =>
    have hshape : (∃ e, ty = .list e) ∨ ∃ es, ty = .tuple es := by
      have hset := hty.noSet
      cases ty <;> simp [Value.slots?, Ty.hasSet] at hslots hset ⊢
    have hpart : t ∈ ty.parts := by
      have hmem := List.mem_of_getElem? hslot
      rcases hshape with ⟨u, rfl⟩ | ⟨us, rfl⟩
      · obtain rfl := Option.some.inj hslots
        exact List.mem_singleton.mpr (List.eq_of_mem_replicate hmem)
      · simp only [Value.slots?, Option.ite_none_right_eq_some, Option.some.injEq] at hslots
        exact hslots.2 ▸ hmem
    exact (hinside t _ h (hty.of_mem_parts hpart)).inside
      (Ty.child_index hshape hslots (Int.natCast_nonneg i) hslot)
  | member h => exact (hinside _ _ h (hty.of_mem_parts (List.mem_singleton_self _))).inside rfl
  | @attr attrs a _ ha h =>
    have hattrs := Attr.WellFormed.of_object hty.wellFormed
    have hlookup : Attr.lookup? attrs a.name = some a := by
      rw [Attr.lookup?, hattrs.composed a ha, Attr.find?_eq_some_of_mem hattrs.names ha]
    refine (hinside _ _ h (hty.of_mem_parts (List.mem_map_of_mem ha))).inside ?_
    simp only [Ty.child, hlookup]

/-! ### Items that fail -/

section Items

variable {α : Type} {decode : Ty → α → Except DecodeFailure Value}
  {decodeAll : Nat → List Ty → List α → Except DecodeFailure (List Value)}
  {items : List α} {slots : List Ty}
  (hnil : ∀ i ts, decodeAll i ts [] = .ok [])
  (hcons : ∀ i ts x xs, decodeAll i ts (x :: xs) =
    match decode (ts.headD .dynamic) x with
    | .error e => .error (e.inside (.index i))
    | .ok v => (decodeAll (i + 1) ts.tail xs).map (v :: ·))

include hnil hcons

/-- Items that are decoded one by one fail by one of them, in the slot at its place. -/
theorem exists_of_decodeAll_eq_error {i : Nat} (hlength : items.length = slots.length)
    (h : decodeAll i slots items = .error e) :
    ∃ k t, slots[k]? = some t ∧ ∃ x ∈ items, ∃ e', decode t x = .error e' ∧
      e = e'.inside (.index ↑(i + k)) := by
  induction items generalizing i slots with
  | nil => cases (hnil i slots).symm.trans h
  | cons x rest ih =>
    cases slots with
    | nil => cases hlength
    | cons t slots =>
      rw [hcons] at h
      split at h
      · rename_i e' he'
        obtain rfl := Except.error.inj h
        exact ⟨0, t, rfl, x, List.mem_cons_self, e', he', rfl⟩
      · rw [Except.map_eq_error_iff] at h
        obtain ⟨k, u, hu, y, hy, e', he', rfl⟩ := ih (by simpa using hlength) h
        refine ⟨k + 1, u, hu, y, List.mem_cons_of_mem _ hy, e', he', ?_⟩
        rw [Nat.add_right_comm, Nat.add_assoc]

theorem refused_of_decodeAll (hslots : Value.slots? ty items.length = some slots)
    (h : (decodeAll 0 slots items).map (Value.sequence ty) = .error e) :
    Refused (fun t e => ∃ x ∈ items, decode t x = .error e) ty e := by
  obtain ⟨k, t, hslot, x, hx, e', he', rfl⟩ := exists_of_decodeAll_eq_error hnil hcons
    (Value.length_of_slots? hslots) (Except.map_eq_error_iff.mp h)
  rw [Nat.zero_add]
  exact .item hslots hslot ⟨x, hx, he'⟩

end Items

/-! ### Members that fail -/

/-- A map fails by one of its members. -/
theorem exists_of_mapOf_eq_error {members : List Member} (h : mapOf ty members = .error e) :
    ∃ m ∈ members, ∃ e', m.2 = .error e' ∧ e = e'.inside (.key m.1) := by
  rw [mapOf, Except.map_eq_error_iff] at h
  obtain ⟨x, hx, herror⟩ := Ty.exists_of_firstError_eq_error h
  obtain ⟨m, hm, rfl⟩ := List.mem_map.mp hx
  obtain ⟨e', he', rfl⟩ := Except.mapError_eq_error_iff.mp herror
  exact ⟨m, List.mem_mergeSort.mp hm, e', he', rfl⟩

/-- An object fails by the member of one of its attributes. -/
theorem exists_of_objectOf_eq_error {attrs : List (Attr Ty)} {members : List Member}
    (h : objectOf ty attrs members = .error e) :
    ∃ a m, a ∈ attrs ∧ m ∈ members ∧ attrType attrs m.1 = a.ty ∧ ∃ e', m.2 = .error e' ∧
      e = e'.inside (.attr a.name) := by
  rw [objectOf, Except.map_eq_error_iff] at h
  obtain ⟨x, hx, herror⟩ := Ty.exists_of_firstError_eq_error h
  obtain ⟨a, ha, rfl⟩ := List.mem_map.mp hx
  simp only at herror
  split at herror
  · rename_i k r hfind
    obtain ⟨e', he', rfl⟩ := Except.mapError_eq_error_iff.mp herror
    have hkey : k = a.name := by simpa using List.find?_some hfind
    -- The slot is that of the first attribute of this name.
    obtain ⟨b, hb⟩ : ∃ b, Attr.find? attrs k = some b :=
      Option.isSome_iff_exists.mp (Attr.find?_isSome_iff.mpr (hkey ▸ List.mem_map_of_mem ha))
    have hname : b.name = a.name := (Attr.name_of_find? hb).trans hkey
    refine ⟨b, _, Attr.mem_of_find? hb, List.mem_of_find?_eq_some hfind, ?_, e', he', by rw [hname]⟩
    rw [attrType, hb]
    rfl
  · cases herror

end Wire

/-! ### Failures of JSON -/

namespace Json

variable {limits : Limits} {depth : Nat} {j : Json} {fails : Ty → DecodeFailure → Prop}

theorem refused_of_failAt {reason : DecodeReason}
    (h : failAt ty j reason = (.error e : Except DecodeFailure Value)) :
    Wire.Refused fails ty e :=
  Except.error.inj h ▸ .here

/-- A scalar is refused where it stands. -/
theorem refused_of_toScalar (h : toScalar limits ty j = .error e) : Wire.Refused fails ty e := by
  unfold toScalar at h
  repeat' split at h
  all_goals try unfold numberOfText at h
  all_goals try split at h
  all_goals first
    | exact refused_of_failAt h
    | cases h

theorem refused_of_items {items : List Json} {slots : List Ty}
    (hslots : Value.slots? ty items.length = some slots)
    (h : (itemsToValues limits depth 0 slots items).map (Value.sequence ty) = .error e) :
    Wire.Refused (fun t e => ∃ c ∈ items, toValue limits depth t c = .error e) ty e :=
  Wire.refused_of_decodeAll (fun _ _ => rfl) (fun _ _ _ _ => rfl) hslots h

/-- A failure in a value of a type, inside `depth` containers, lies here or directly inside. -/
abbrev RefusedInside (limits : Limits) (depth : Nat) (ty : Ty) (j : Json) (e : DecodeFailure) :
    Prop :=
  Wire.Refused (fun t e => ∃ c ∈ j.children, toValue limits (depth + 1) t c = .error e) ty e

theorem refused_of_array {items : List Json}
    (h : toValue limits depth ty (.array items) = .error e) :
    RefusedInside limits depth ty (.array items) e := by
  unfold toValue at h
  split at h
  · exact refused_of_failAt h
  cases ty with
  | list | set => exact refused_of_items rfl h
  | tuple ts =>
    dsimp only at h
    split at h
    · exact refused_of_items (if_pos ‹_›) h
    · exact refused_of_failAt h
  | _ => exact refused_of_failAt h

/-- The value beside a type is directly inside, and the path does not mention it. -/
theorem refused_of_dynamic {fields : List (String × Json)} (hknown : isUnknown fields = false)
    (h : toValue limits depth .dynamic (.object fields) = .error e) :
    RefusedInside limits depth .dynamic (.object fields) e := by
  unfold toValue at h
  simp only [hknown, Bool.false_eq_true, if_false] at h
  split at h
  · exact refused_of_failAt h
  split at h
  · split at h
    · split at h
      · exact .wrapped ⟨_, by simp [children], h⟩
      · exact refused_of_failAt h
    split at h
    · split at h
      · exact .wrapped ⟨_, by simp [children], h⟩
      · exact refused_of_failAt h
    · exact refused_of_failAt h
  · exact refused_of_failAt h

theorem refused_of_object {fields : List (String × Json)}
    (h : toValue limits depth ty (.object fields) = .error e) :
    RefusedInside limits depth ty (.object fields) e := by
  cases hunknown : isUnknown fields with
  | true =>
    unfold toValue at h
    simp only [hunknown, if_true] at h
    split at h
    · exact refused_of_failAt h
    split at h
    · cases h
    · exact refused_of_failAt h
  | false =>
    by_cases hdynamic : ty = .dynamic
    · subst hdynamic
      exact refused_of_dynamic hunknown h
    unfold toValue at h
    simp only [hunknown, Bool.false_eq_true, if_false] at h
    split at h
    · exact refused_of_failAt h
    cases ty with
    | dynamic => exact absurd rfl hdynamic
    | map t =>
      dsimp only at h
      split at h
      · exact refused_of_failAt h
      obtain ⟨m, hm, e', he', rfl⟩ := Wire.exists_of_mapOf_eq_error h
      obtain ⟨f, hf, heq⟩ := exists_of_mem_fieldsToMembers hm
      exact .member ⟨f.2, List.mem_map_of_mem hf, heq.symm.trans he'⟩
    | object attrs =>
      dsimp only at h
      split at h
      · exact refused_of_failAt h
      split at h
      · exact refused_of_failAt h
      obtain ⟨a, m, ha, hm, htype, e', he', rfl⟩ := Wire.exists_of_objectOf_eq_error h
      obtain ⟨f, hf, heq⟩ := exists_of_mem_fieldsToMembers hm
      exact .attr ha ⟨f.2, List.mem_map_of_mem hf, htype ▸ heq.symm.trans he'⟩
    | _ => exact refused_of_failAt h

/-- A failure lies here, or in something directly inside. -/
theorem refused_of_toValue (h : toValue limits depth ty j = .error e) :
    RefusedInside limits depth ty j e := by
  cases j with
  | array => exact refused_of_array h
  | object => exact refused_of_object h
  | null =>
    unfold toValue at h
    split at h
    · exact refused_of_failAt h
    · cases h
  | _ =>
    unfold toValue at h
    split at h
    · exact refused_of_failAt h
    · exact refused_of_toScalar h

/-- What is refused under a type is refused at the end of its path. -/
theorem locatedIn_of_toValue (hty : ty.Charted) (h : toValue limits depth ty j = .error e) :
    e.LocatedIn ty := by
  induction j using Json.induction_children generalizing depth ty e with
  | h j ih =>
    refine (refused_of_toValue h).locatedIn hty ?_
    rintro t e' ⟨c, hc, he'⟩ ht
    exact ih c hc ht he'

end Json

/-! ### Failures of MessagePack -/

namespace Msgpack

variable {limits : Limits} {depth : Nat} {m : Msgpack} {fails : Ty → DecodeFailure → Prop}

theorem refused_of_failAt {reason : DecodeReason}
    (h : failAt ty m reason = (.error e : Except DecodeFailure Value)) :
    Wire.Refused fails ty e :=
  Except.error.inj h ▸ .here

/-- A scalar is refused where it stands. -/
theorem refused_of_toScalar (h : toScalar limits ty m = .error e) : Wire.Refused fails ty e := by
  unfold toScalar at h
  repeat' split at h
  all_goals first
    | exact refused_of_failAt h
    | cases h

theorem refused_of_items {items : List Msgpack} {slots : List Ty}
    (hslots : Value.slots? ty items.length = some slots)
    (h : (itemsToValues limits depth 0 slots items).map (Value.sequence ty) = .error e) :
    Wire.Refused (fun t e => ∃ c ∈ items, toValue limits depth t c = .error e) ty e :=
  Wire.refused_of_decodeAll (fun _ _ => rfl) (fun _ _ _ _ => rfl) hslots h

/-- A failure in a value of a type, inside `depth` containers, lies here or directly inside. -/
abbrev RefusedInside (limits : Limits) (depth : Nat) (ty : Ty) (m : Msgpack) (e : DecodeFailure) :
    Prop :=
  Wire.Refused (fun t e => ∃ c ∈ m.children, toValue limits (depth + 1) t c = .error e) ty e

/-- The value beside a type is directly inside, and the path does not mention it. -/
theorem refused_of_array {items : List Msgpack}
    (h : toValue limits depth ty (.array items) = .error e) :
    RefusedInside limits depth ty (.array items) e := by
  unfold toValue at h
  split at h
  · exact refused_of_failAt h
  cases ty with
  | dynamic =>
    dsimp only at h
    split at h
    · split at h
      · exact .wrapped ⟨_, by simp [children], h⟩
      · exact refused_of_failAt h
    · exact refused_of_failAt h
  | list | set => exact refused_of_items rfl h
  | tuple ts =>
    dsimp only at h
    split at h
    · exact refused_of_items (if_pos ‹_›) h
    · exact refused_of_failAt h
  | _ => exact refused_of_failAt h

theorem refused_of_map {entries : List (Msgpack × Msgpack)}
    (h : toValue limits depth ty (.map entries) = .error e) :
    RefusedInside limits depth ty (.map entries) e := by
  unfold toValue at h
  split at h
  · exact refused_of_failAt h
  cases ty with
  | map t =>
    dsimp only at h
    split at h
    · exact refused_of_failAt h
    obtain ⟨p, hp, e', he', rfl⟩ := Wire.exists_of_mapOf_eq_error h
    obtain ⟨f, hf, heq⟩ := exists_of_mem_entriesToMembers hp
    exact .member ⟨f.2, value_mem_children hf, heq.symm.trans he'⟩
  | object attrs =>
    dsimp only at h
    split at h
    · exact refused_of_failAt h
    split at h
    · exact refused_of_failAt h
    obtain ⟨a, p, ha, hp, htype, e', he', rfl⟩ := Wire.exists_of_objectOf_eq_error h
    obtain ⟨f, hf, heq⟩ := exists_of_mem_entriesToMembers hp
    exact .attr ha ⟨f.2, value_mem_children hf, htype ▸ heq.symm.trans he'⟩
  | _ => exact refused_of_failAt h

/-- A failure lies here, or in something directly inside. -/
theorem refused_of_toValue (h : toValue limits depth ty m = .error e) :
    RefusedInside limits depth ty m e := by
  cases m with
  | array => exact refused_of_array h
  | map => exact refused_of_map h
  | nil =>
    unfold toValue at h
    split at h
    · exact refused_of_failAt h
    · cases h
  | ext =>
    unfold toValue at h
    split at h
    · exact refused_of_failAt h
    dsimp only at h
    split at h
    · split at h
      · cases h
      · exact refused_of_failAt h
    · cases h
  | _ =>
    unfold toValue at h
    split at h
    · exact refused_of_failAt h
    · exact refused_of_toScalar h

/-- What is refused under a type is refused at the end of its path. -/
theorem locatedIn_of_toValue (hty : ty.Charted) (h : toValue limits depth ty m = .error e) :
    e.LocatedIn ty := by
  induction m using Msgpack.induction_children generalizing depth ty e with
  | h m ih =>
    refine (refused_of_toValue h).locatedIn hty ?_
    rintro t e' ⟨c, hc, he'⟩ ht
    exact ih c hc ht he'

end Msgpack

/-! ### Failures of bytes -/

namespace Value

/-- The path of a failure to decode some bytes leads to the type that the failure names, in every
type with neither sets nor `dynamic` inside. -/
theorem decode_error_located (limits : Limits) (bytes : List UInt8) (hty : ty.WellFormed)
    (hset : ty.hasSet = false) (hdynamic : ty.hasDynamic = false) :
    (∀ e, decodeJson limits ty bytes = .error e → ty.follow e.path = .ok e.expected) ∧
    ∀ e, decodeMsgpack limits ty bytes = .error e → ty.follow e.path = .ok e.expected := by
  have hcharted : ty.Charted := ⟨hty, hset, hdynamic⟩
  constructor
  · intro e h
    unfold decodeJson at h
    split at h
    · obtain rfl := Except.error.inj h
      rfl
    · obtain ⟨f, hf, rfl⟩ := Except.mapError_eq_error_iff.mp h
      exact Json.locatedIn_of_toValue hcharted hf
  · intro e h
    unfold decodeMsgpack at h
    split at h
    · cases h
    split at h
    · obtain rfl := Except.error.inj h
      rfl
    · obtain ⟨f, hf, rfl⟩ := Except.mapError_eq_error_iff.mp h
      exact Msgpack.locatedIn_of_toValue hcharted hf
    · obtain rfl := Except.error.inj h
      rfl

/-- A number in the place of a boolean is refused in both formats, at the second place of the first
tuple of a list. The bytes of JSON are those of `[[1,2]]`. -/
theorem decode_error_located_nested :
    let ty : Ty := .list (.tuple [.number, .bool])
    (∃ e, decodeJson .default ty [0x5B, 0x5B, 0x31, 0x2C, 0x32, 0x5D, 0x5D] = .error e ∧
      e.path = [.index 0, .index 1] ∧ ty.follow e.path = .ok e.expected) ∧
    ∃ e, decodeMsgpack .default ty [0x91, 0x92, 0x01, 0x02] = .error e ∧
      e.path = [.index 0, .index 1] ∧ ty.follow e.path = .ok e.expected := by
  intro ty
  have hty : ty.WellFormed := .list (.tuple (List.forall_mem_pair.mpr ⟨.number, .bool⟩))
  have hlocated (bytes : List UInt8) := decode_error_located .default bytes hty rfl rfl
  let refused : DecodeFailure := ⟨[.index 0, .index 1], .bool, .scalar, .mismatch⟩
  have hjson : decodeJson .default ty [0x5B, 0x5B, 0x31, 0x2C, 0x32, 0x5D, 0x5D] =
      .error ⟨refused, .json, 7⟩ := by rfl
  have hmsgpack : decodeMsgpack .default ty [0x91, 0x92, 0x01, 0x02] =
      .error ⟨refused, .msgpack, 4⟩ := by rfl
  exact ⟨⟨_, hjson, rfl, (hlocated _).1 _ hjson⟩, _, hmsgpack, rfl, (hlocated _).2 _ hmsgpack⟩

end Value

end TypedData
