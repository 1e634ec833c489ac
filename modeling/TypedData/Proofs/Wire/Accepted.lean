import TypedData.Proofs.Validation
import TypedData.Proofs.Wire.MsgpackLaws

/-!
# What is accepted and sent

Native data that is accepted as a value of plain type can be sent. Whether it is read again under
the limits under which it was accepted is a matter of three things: of what the reader spends on
nesting, of the form in which numbers come back, and of the order of sets.

## Main definitions

* `Value.Accepted` — known values that are as if they had been received

## Main results

* `Native.accepted_validateAt` — native data becomes such a value
* `Native.decodeMsgpack_validate` — when what was accepted is read again
-/

namespace TypedData

namespace Value

variable {limit : Nat} {ty : Ty} {vs : List Value} {es : Entries Value}

/-- A value that is known at every depth, and that is as if it had been received. -/
structure Accepted (limit : Nat) (v : Value) : Prop where
  received : v.Received limit
  known : v.isWhollyKnown

theorem accepted_sequence (hcapsule : ty.hasCapsule = false) (h : ∀ v ∈ vs, v.Accepted limit) :
    (sequence ty vs).Accepted limit := by
  have hknown : ∀ v ∈ vs, v.isWhollyKnown := fun v hv => (h v hv).known
  refine ⟨received_sequence hcapsule (fun hany => ?_) fun v hv => (h v hv).received,
    isWhollyKnown_sequence hknown⟩
  -- Only a collection that is unknown has to write down how many elements there are.
  rw [any_isUnknown_eq_false hknown] at hany
  cases hany

theorem accepted_mapping (hcapsule : ty.hasCapsule = false) (h : ∀ e ∈ es, e.2.Accepted limit) :
    (mapping ty es).Accepted limit := by
  refine ⟨received_mapping hcapsule (fun _ hany => ?_) fun e he => (h e he).received,
    isWhollyKnown_mapping fun e he => (h e he).known⟩
  rw [any_isUnknown_eq_false fun v hv => ?_] at hany
  · cases hany
  · obtain ⟨e, he, rfl⟩ := List.mem_map.mp hv
    exact (h e he).known

end Value

open Value

namespace Native

variable {limits : Limits} {depth : Nat} {ty : Ty} {raw : Native} {v w : Value}

/-! ### Values of native data -/

/-- The exponents of all numbers are checked. -/
theorem within_of_toNumber {n : Decimal} (h : toNumber limits raw = .ok n) :
    n.withinExponent limits.maxNumberExponent := by
  unfold toNumber at h
  split at h
  · rw [← Except.ok.inj h]
    exact Decimal.within_ofInt _ _
  · split at h
    · rename_i hwithin
      rwa [← Except.ok.inj h]
    · cases h
  · split at h
    · rename_i k hk
      obtain rfl := Except.ok.inj h
      exact (Option.filter_eq_some_iff.mp hk).2
    · cases h
  · split at h
    · rename_i k hk
      obtain rfl := Except.ok.inj h
      exact Decimal.within_of_ofText hk
    · cases h
  · simp only [refuse, reduceCtorEq] at h

theorem accepted_of_validateScalar (hcapsule : ty.hasCapsule = false)
    (h : validateScalar limits ty raw = .ok w) : w.Accepted limits.maxNumberExponent := by
  cases scalar_of_validateScalar h with
  | bool => exact ⟨received_bool _, rfl⟩
  | number hn => exact ⟨received_number (within_of_toNumber hn), rfl⟩
  | string => exact ⟨received_string _, rfl⟩
  | capsule => cases hcapsule

theorem decidedType_of_isDynamic {decided : Ty} (hty : ty.isDynamic = false)
    (h : decidedType limits depth ty raw = .ok decided) : decided = ty := by
  rw [decidedType, hty] at h
  exact (Except.ok.inj h).symm

/-- An object is accepted if the members under the names of its attributes are. -/
theorem accepted_of_objectOf {attrs : List (Attr Ty)} {members : List Member}
    (hcapsule : (Ty.object attrs).hasCapsule = false) (hnames : (attrs.map (·.name)).Nodup)
    (h : objectOf (.object attrs) attrs members = .ok w)
    (hmembers : ∀ m ∈ members, ∀ a ∈ attrs, memberType attrs m.1 = a.ty → ∀ v, m.2 = .ok v →
      v.Accepted limits.maxNumberExponent) : w.Accepted limits.maxNumberExponent := by
  have hnull (a : Attr Ty) (ha : a ∈ attrs) :
      (Value.null a.ty).Accepted limits.maxNumberExponent :=
    ⟨received_null (Ty.hasCapsule_of_mem_parts hcapsule (List.mem_map_of_mem ha)), rfl⟩
  obtain ⟨es, rfl, hes⟩ := exists_of_objectOf
    (P := fun _ v => v.Accepted limits.maxNumberExponent) hnames h hnull hmembers
  refine accepted_mapping hcapsule fun e he => ?_
  obtain ⟨a, -, -, hv⟩ := hes e (mem_sortEntries.mp he)
  exact hv

/-- A step of validation under a plain type gives a value that is known at every depth and as if it
had been received, if what is directly inside does. -/
theorem ValidationStep.accepted (hstep : ValidationStep limits depth ty raw w)
    (hty : ty.WellFormed) (hplain : ty.Plain) (hraw : raw.values = [])
    (inside : ∀ c ∈ raw.children, ∀ t v, t.WellFormed → t.Plain →
      validateAt limits (depth + 1) t c = .ok v → v.Accepted limits.maxNumberExponent) :
    w.Accepted limits.maxNumberExponent := by
  have hmember {typeOf : Native → Ty} {entries : List (Native × Native)} {m : Member} {v : Value}
      (heq : raw = .map entries) (hm : m ∈ validateEntries limits (depth + 1) typeOf entries)
      (hok : m.2 = .ok v) (hwell : (typeOf m.1).WellFormed) (hplain : (typeOf m.1).Plain) :
      v.Accepted limits.maxNumberExponent := by
    obtain ⟨c, hc, hv⟩ := exists_child_of_member hm hok
    exact inside c (heq ▸ hc) _ v hwell hplain hv
  cases hstep with
  | absent => exact ⟨received_null hplain.noCapsule, rfl⟩
  | value => cases hraw
  | scalar hdecided hw =>
    obtain rfl := decidedType_of_isDynamic hplain.isDynamic_eq_false hdecided
    exact accepted_of_validateScalar hplain.noCapsule hw
  | items hitems hdecided hitypes hvs =>
    obtain rfl := decidedType_of_isDynamic hplain.isDynamic_eq_false hdecided
    have hslots := slots?_of_itemTypes hitypes
    have hchecks := forall₂_validateItems (length_of_slots? hslots) hvs
    refine accepted_sequence hplain.noCapsule fun v hv => ?_
    obtain ⟨t, ht, c, hc, hv⟩ := hchecks.exists_of_mem_left hv
    exact inside c (children_of_items? hitems ▸ hc) t v ((fills_of_slots? hty hslots).2.1 t ht)
      (hplain.of_mem_parts (mem_parts_of_slots? hslots ht)) hv
  | map hdecided hes =>
    obtain rfl := decidedType_of_isDynamic hplain.isDynamic_eq_false hdecided
    refine accepted_mapping hplain.noCapsule fun e he => ?_
    obtain ⟨-, -, m, hm, hok⟩ := (gatherMap_spec hes).2 e (mem_sortEntries.mp he)
    cases hty with
    | map ht => exact hmember rfl hm hok ht (hplain.of_mem_parts (by simp [Ty.parts]))
  | object hdecided hw =>
    obtain rfl := decidedType_of_isDynamic hplain.isDynamic_eq_false hdecided
    have hattrs := Attr.WellFormed.of_object hty
    refine accepted_of_objectOf hplain.noCapsule hattrs.names hw fun m hm a ha htype v hv => ?_
    have hplain := hplain.of_mem_parts (List.mem_map_of_mem (f := (·.ty)) ha)
    exact hmember rfl hm hv (htype ▸ hattrs.types a ha) (htype ▸ hplain)

/-- Native data without typed values inside becomes a value that is known at every depth, and
that is as if it had been received. -/
theorem accepted_validateAt (hty : ty.WellFormed) (hplain : ty.Plain) (hraw : raw.values = [])
    (h : validateAt limits depth ty raw = .ok w) : w.Accepted limits.maxNumberExponent := by
  induction raw using Native.induction_children generalizing depth ty w with
  | _ raw ih =>
    have hstep := validationStep_of_validateAt h
    refine hstep.accepted hty hplain hraw fun c hc t v hwell hplain hv => ?_
    have hnone : c.values = [] := List.eq_nil_iff_forall_not_mem.mpr fun u hu =>
      List.ne_nil_of_mem (mem_values_of_mem_children hc hu) hraw
    exact ih c hc hwell hplain hnone hv

/-! ### Sending what was accepted -/

/-- What was accepted is well-formed and can be sent, and is conveyed by something. -/
theorem exists_conveys_of_validate (hty : ty.WellFormed) (hplain : ty.Plain)
    (hlimit : limits.maxNumberExponent < Word.signedBound) (hraw : raw.values = [])
    (h : raw.validate limits ty = .ok v) :
    v.Portable limits.maxNumberExponent ∧ v.ty.same ty ∧ v.withoutMarks = v ∧
      v.typesRead Msgpack.echo ty ∧ ∃ m, Msgpack.Conveys limits v ty ty m := by
  have hnone : ∀ u ∈ raw.values, u.WellFormed := by simp [hraw]
  obtain ⟨hwell, hin⟩ := wellFormed_validateAt hty hnone h
  have hreceived := (accepted_validateAt hty hplain hraw h).received
  have hportable := hreceived.portable hwell
  have hvt := hin.same hplain.isDynamic_eq_false
  exact ⟨hportable, hvt, hreceived.withoutMarks_eq,
    typesRead_of_hasDynamic hwell hty hplain.noDynamic hvt,
    Msgpack.exists_conveys hlimit hportable hty hty hin hty.same_refl⟩

/-- A depth that the budget pays for is enough. -/
theorem cost_le_of_le_budget {m : Msgpack} (h : m.cost ≤ Msgpack.budget limits) :
    2 * 0 + m.cost ≤ 2 * limits.maxDepth + 1 := by
  rw [Msgpack.budget] at h
  omega

/-- What was accepted as a value of a type without `dynamic` and capsules is encoded. Under the
same limits it is decoded as the same value exactly if the budget pays for its bytes, its numbers
are within the limit in the form in which they come back, and its sets keep their order. The bytes
cost no more than its nesting and a text inside, the numbers are within every limit that no double
exceeds, and sets keep their order unless numbers inside their elements are encoded in another way
when they come back. -/
theorem decodeMsgpack_validate (hty : ty.WellFormed) (hplain : ty.Plain)
    (hlimit : limits.maxNumberExponent < Word.signedBound) (hraw : raw.values = [])
    (h : raw.validate limits ty = .ok v) :
    ∃ m, v.toMsgpack ty = .ok m ∧ v.encodeMsgpack ty = .ok m.write ∧ (m.Fits →
      ((∃ w, decodeMsgpack limits ty m.write = .ok w ∧ w.identical v) ↔
        m.cost ≤ Msgpack.budget limits ∧
          Msgpack.NumbersReturn limits.maxNumberExponent v ∧ v.comesBack Msgpack.echo ty)) ∧
      m.cost ≤ 2 * v.nesting + 3 ∧
      (1074 ≤ limits.maxNumberExponent →
        Msgpack.NumbersReturn limits.maxNumberExponent v) ∧
      (v.Settled Msgpack.echo → v.comesBack Msgpack.echo ty) := by
  obtain ⟨hportable, hvt, hunmarked, htypes, m, hm⟩ :=
    exists_conveys_of_validate hty hplain hlimit hraw h
  have hidentical := identical_readBack (c := Msgpack.echo) hportable.wellFormed ty
  rw [hunmarked] at hidentical
  refine ⟨m, hm.written, ?_, fun hfits => ⟨?_, ?_⟩,
    Msgpack.cost_le_of_toMsgpack hplain.noDynamic hm.written,
    fun hlower => Msgpack.numbersReturn_of_le hlower hportable.numbers,
    comesBack_of_settled Msgpack.keepsTypes_echo hportable.wellFormed hportable.capsuleFree hty
      hplain.noDynamic hvt⟩
  · rw [encodeMsgpack, hm.written]
    rfl
  · rintro ⟨w, hw, hsame⟩
    obtain ⟨hcost, hvalue⟩ := (Msgpack.decodeMsgpack_write_iff hfits).mp hw
    have hnumbers := (hm.needed 0 w hvalue).2
    have hread := hm.read hfits htypes hnumbers 0 (cost_le_of_le_budget hcost)
    obtain rfl := Except.ok.inj (hread.symm.trans hvalue)
    exact ⟨hcost, hnumbers, hidentical ▸ hsame⟩
  · rintro ⟨hcost, hnumbers, hback⟩
    have hread := hm.read hfits htypes hnumbers 0 (cost_le_of_le_budget hcost)
    exact ⟨_, (Msgpack.decodeMsgpack_write_iff hfits).mpr ⟨hcost, hread⟩, hidentical.trans hback⟩

/-- A half is read again, beside a text that is not there. -/
theorem decodeMsgpack_validate_half :
    ∃ v bytes w, (Native.list [.string "0.5", .absent]).validate .default
        (.tuple [.number, .string]) = .ok v ∧
      v.encodeMsgpack (.tuple [.number, .string]) = .ok bytes ∧
      decodeMsgpack .default (.tuple [.number, .string]) bytes = .ok w ∧ w.identical v := by
  have hty : (Ty.tuple [.number, .string]).WellFormed := by
    refine .tuple fun t ht => ?_
    simp only [List.mem_cons, List.not_mem_nil, or_false] at ht
    rcases ht with rfl | rfl
    · exact .number
    · exact .string
  have hvalid : (Native.list [.string "0.5", .absent]).validate .default
      (.tuple [.number, .string]) =
      .ok ⟨.tuple [.number, .string], .items [.number ⟨5, 1⟩, .null .string], .empty⟩ := by
    rfl
  obtain ⟨m, hm, hbytes, hagain, hcost, hnumbers, -⟩ :=
    decodeMsgpack_validate hty ⟨rfl, rfl⟩ (by decide) rfl hvalid
  obtain rfl := Except.ok.inj (hm.symm.trans
    (rfl : _ = Except.ok (Msgpack.array [.ofNumber ⟨5, 1⟩, .nil])))
  obtain ⟨w, hw, hsame⟩ := (hagain <| .array (by decide) <| by
    simp only [List.forall_mem_cons, List.not_mem_nil, false_imp_iff, implies_true, and_true]
    exact ⟨Msgpack.fits_ofNumber (by decide +kernel), .nil⟩).mpr
      ⟨hcost.trans (by decide), hnumbers (by decide), by decide +kernel⟩
  exact ⟨_, _, w, hvalid, hbytes, hw, hsame⟩

/-- A text in a list of depth one is accepted and sent, but the reader of depth one has no budget
for it; and a quarter is accepted within two decimal places, but comes back as a double with more of
them. -/
theorem decodeMsgpack_validate_refused :
    (∃ v bytes, (Native.list [.string "a"]).validate ⟨1, 4096⟩ (.list .string) = .ok v ∧
      v.encodeMsgpack (.list .string) = .ok bytes ∧
      ∀ w, decodeMsgpack ⟨1, 4096⟩ (.list .string) bytes ≠ .ok w) ∧
    ∃ v bytes, (Native.string "0.25").validate ⟨500, 2⟩ .number = .ok v ∧
      v.encodeMsgpack .number = .ok bytes ∧
      ∀ w, decodeMsgpack ⟨500, 2⟩ .number bytes ≠ .ok w := by
  have hrefused {limits : Limits} {ty : Ty} {bytes : List UInt8}
      (h : (decodeMsgpack limits ty bytes).toOption.isNone) (w : Value) :
      decodeMsgpack limits ty bytes ≠ .ok w := by
    intro hw
    rw [hw] at h
    cases h
  refine ⟨⟨_, [0x91, 0xA1, 0x61], rfl, rfl, hrefused (by decide +kernel)⟩, .number ⟨25, 2⟩,
    [0xCB, 0x3F, 0xD0, 0, 0, 0, 0, 0, 0], rfl, ?_, hrefused (by decide +kernel)⟩
  have hwritten : (Msgpack.ofNumber ⟨25, 2⟩).write = [0xCB, 0x3F, 0xD0, 0, 0, 0, 0, 0, 0] := by
    decide +kernel
  exact congrArg Except.ok hwritten

end Native

end TypedData
