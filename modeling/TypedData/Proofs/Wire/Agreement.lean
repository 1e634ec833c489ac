import TypedData.Proofs.Msgpack.Reader
import TypedData.Proofs.Wire.Echoed
import TypedData.Proofs.Wire.JsonLaws
import TypedData.Proofs.Wire.MsgpackLaws
import TypedData.Proofs.Wire.Rewritten

/-!
# Both formats carry the same

What comes back from JSON is what comes back from MessagePack with its numbers in the form in which
they are read from text. So a value that is encoded in both formats is decoded as identical values,
whatever is lost on the way.

## Main definitions

* `Wire.Echo.Faithful` — formats that keep types and the encodings of numbers

## Main results

* `Value.steady_readBack` — numbers that come back are encoded alike when they do so again
* `Value.rewritten_readBack` — what comes back from either format
* `Value.identical_of_decode` — what is decoded from either format is identical
-/

namespace TypedData

/-- A format that keeps types, and gives numbers back in a form in which they are encoded as in the
form that is read from text. -/
structure Wire.Echo.Faithful (c : Wire.Echo) : Prop extends c.KeepsTypes where
  ofNumber_eq : ∀ n, Msgpack.ofNumber (c.number n) = Msgpack.ofNumber n.written

theorem Json.faithful_echo : Json.echo.Faithful where
  toKeepsTypes := Json.keepsTypes_echo
  ofNumber_eq _ := rfl

theorem Msgpack.faithful_echo : Msgpack.echo.Faithful where
  toKeepsTypes := Msgpack.keepsTypes_echo
  ofNumber_eq := Msgpack.ofNumber_numberBack

namespace Value

variable {v : Value} {slot own : Ty}

/-- The same type is read from both formats, if any. -/
theorem slotType_eq (hown : own.WellFormed) (hjson : typeRead Json.echo slot own)
    (hmsgpack : typeRead Msgpack.echo slot own) :
    Json.echo.slotType slot own = Msgpack.echo.slotType slot own := by
  unfold Wire.Echo.slotType
  split
  · rename_i hslot
    rw [typeRead, hslot, Bool.not_true, Bool.false_or, Option.isSome_iff_exists] at hjson hmsgpack
    obtain ⟨t, ht⟩ := hjson
    obtain ⟨u, hu⟩ := hmsgpack
    rw [ht, hu, Json.faithful_echo.type_eq _ _ hown ht, Msgpack.faithful_echo.type_eq _ _ hown hu]
  · rfl

/-- What comes back is encoded alike in the form that is read from text. -/
theorem steady_readBack {c : Wire.Echo} (hc : c.Faithful) (v : Value) (slot : Ty) :
    (v.readBack c slot).Steady Json.echo := by
  induction v using Value.induction generalizing slot with
  | null | unknown | bool | string | capsule => exact steady_of_asNumber? rfl nofun
  | number own n marks =>
    refine forall_contains_iff.mpr ⟨fun k hk => ?_, nofun⟩
    obtain rfl := Option.some.inj hk
    have hsame := Decimal.written_eq_of_same (c.same_number n)
    exact (congrArg Msgpack.ofNumber hsame).trans (hc.ofNumber_eq n).symm
  | items own vs marks ih =>
    refine steady_of_asNumber? rfl fun w hw => ?_
    obtain ⟨x, hx, hdata⟩ := exists_of_mem_inOrder hw
    obtain ⟨v, hv, slot, rfl⟩ := exists_of_mem_readBackEach hx
    exact (ih v hv slot).of_sameData hdata
  | entries own es marks ih =>
    refine steady_of_asNumber? rfl fun w hw => ?_
    obtain ⟨f, hf, rfl⟩ := List.mem_map.mp hw
    obtain ⟨e, he, slot, heq⟩ := exists_of_mem_readBackEntries hf
    rw [heq]
    exact ih e he slot

private theorem map_rewritten_readBackEach {vs : List Value} {slots : List Ty}
    (h : ∀ v ∈ vs, ∀ slot, v.typesRead Json.echo slot → v.typesRead Msgpack.echo slot →
      (v.readBack Msgpack.echo slot).rewritten = v.readBack Json.echo slot)
    (hjson : typesReadEach Json.echo slots vs) (hmsgpack : typesReadEach Msgpack.echo slots vs) :
    (readBackEach Msgpack.echo slots vs).map rewritten = readBackEach Json.echo slots vs := by
  induction vs generalizing slots with
  | nil => rfl
  | cons v vs ih =>
    rw [List.forall_mem_cons] at h
    rw [typesReadEach, Bool.and_eq_true] at hjson hmsgpack
    rw [readBackEach, List.map_cons, h.1 _ hjson.1 hmsgpack.1, ih h.2 hjson.2 hmsgpack.2,
      readBackEach]

private theorem map_rewritten_readBackEntries {es : Entries Value} {slotOf : String → Ty}
    (h : ∀ e ∈ es, ∀ slot, e.2.typesRead Json.echo slot → e.2.typesRead Msgpack.echo slot →
      (e.2.readBack Msgpack.echo slot).rewritten = e.2.readBack Json.echo slot)
    (hjson : typesReadEntries Json.echo slotOf es)
    (hmsgpack : typesReadEntries Msgpack.echo slotOf es) :
    (readBackEntries Msgpack.echo slotOf es).map (fun e => (e.1, e.2.rewritten)) =
      readBackEntries Json.echo slotOf es := by
  induction es with
  | nil => rfl
  | cons e es ih =>
    rw [List.forall_mem_cons] at h
    rw [typesReadEntries, Bool.and_eq_true] at hjson hmsgpack
    rw [readBackEntries, List.map_cons, h.1 _ hjson.1 hmsgpack.1, ih h.2 hjson.2 hmsgpack.2,
      readBackEntries]

/-- Elements that come back from MessagePack are in the order of those that come back from
JSON. -/
private theorem map_rewritten_inOrder (t : Ty) (slots : List Ty) (vs : List Value) :
    (inOrder t (readBackEach Msgpack.echo slots vs)).map rewritten =
      inOrder t ((readBackEach Msgpack.echo slots vs).map rewritten) := by
  rw [inOrder, inOrder]
  split
  · refine (canonicalSet_rewritten fun w hw => ?_).symm
    obtain ⟨v, -, slot, rfl⟩ := exists_of_mem_readBackEach hw
    exact steady_readBack Msgpack.faithful_echo v slot
  · rfl

/-- What comes back from JSON is what comes back from MessagePack with its numbers rewritten. -/
theorem rewritten_readBack (h : v.WellFormed) (hjson : v.typesRead Json.echo slot)
    (hmsgpack : v.typesRead Msgpack.echo slot) :
    (v.readBack Msgpack.echo slot).rewritten = v.readBack Json.echo slot := by
  have hown := h.type_wellFormed
  -- Both formats read the same types, so only the numbers come back in two forms.
  induction v using Value.induction generalizing slot with
  | null | unknown => rfl
  | bool | string | capsule =>
    simp only [readBack, ofContent, rewritten, slotType_eq hown hjson hmsgpack]
  | number own n marks =>
    have hsame := Decimal.written_eq_of_same (Msgpack.same_numberBack n)
    simp only [readBack, ofContent, rewritten, slotType_eq hown hjson hmsgpack]
    exact congrArg (fun k => Value.mk _ (.number k) _) hsame
  | items own vs marks ih =>
    rw [typesRead, Bool.and_eq_true] at hjson hmsgpack
    have htype := slotType_eq hown hjson.1 hmsgpack.1
    rw [htype] at hjson
    have heach := map_rewritten_readBackEach (fun v hv slot hjson hmsgpack =>
      ih v hv (h.of_mem_items hv) hjson hmsgpack (h.of_mem_items hv).type_wellFormed) hjson.2
      hmsgpack.2
    rw [readBack, readBack, htype, ofContent, ofContent, rewritten, rewrittenEach_eq_map,
      map_rewritten_inOrder, heach]
  | entries own es marks ih =>
    rw [typesRead, Bool.and_eq_true] at hjson hmsgpack
    have htype := slotType_eq hown hjson.1 hmsgpack.1
    rw [htype] at hjson
    have heach := map_rewritten_readBackEntries (fun e he slot hjson hmsgpack =>
      ih e he (h.of_mem_entries he) hjson hmsgpack (h.of_mem_entries he).type_wellFormed) hjson.2
      hmsgpack.2
    rw [readBack, readBack, htype, ofContent, ofContent, rewritten, rewrittenEntries_eq_map, heach]

/-! ### Decoding in either format -/

variable {limits : Limits} {ty : Ty} {w : Value}

/-- What was decoded from text was read from it. -/
theorem exists_of_decodeJson {bytes : List UInt8} (h : decodeJson limits ty bytes = .ok w) :
    ∃ j, Json.readBytes bytes = .ok j ∧ j.toValue limits 0 ty = .ok w := by
  simp only [decodeJson] at h
  split at h
  · cases h
  · rename_i j hj
    exact ⟨j, hj, Except.mapError_eq_ok_iff.mp h⟩

/-- What was decoded from bytes that were written was read from them. -/
theorem exists_of_decodeMsgpack {m : Msgpack} (h : decodeMsgpack limits ty m.write = .ok w) :
    ∃ k, Msgpack.readValue (Msgpack.budget limits) m.write = .ok (k, []) ∧
      k.toValue limits 0 ty = .ok w := by
  have hnonempty : m.write.isEmpty = false := by simpa using Msgpack.write_ne_nil m
  simp only [decodeMsgpack, hnonempty, Bool.false_eq_true, if_false] at h
  split at h
  · cases h
  · rename_i k hk
    exact ⟨k, hk, Except.mapError_eq_ok_iff.mp h⟩
  · cases h

/-- A well-formed value that is encoded in both formats, for its own type or for `dynamic`, is
decoded as identical values if it is decoded from both, as long as the documents that were written
are the ones that are read. -/
theorem identical_of_decode {v a b : Value} {ty : Ty} {text : String} {bytes : List UInt8}
    (hv : v.WellFormed) (hty : ty = v.ty ∨ ty = .dynamic) (htext : v.encodeJson ty = .ok text)
    (hbytes : v.encodeMsgpack ty = .ok bytes)
    (hjson : ∀ j, v.toJson ty = .ok j →
      ∀ k, Json.readBytes (Text.Utf8.ofString j.compact) = .ok k → k = j)
    (hmsgpack : ∀ m, v.toMsgpack ty = .ok m →
      ∀ k, Msgpack.readValue (Msgpack.budget .default) m.write = .ok (k, []) → k = m)
    (ha : decodeJson .default ty (Text.Utf8.ofString text) = .ok a)
    (hb : decodeMsgpack .default ty bytes = .ok b) : a.identical b := by
  obtain ⟨j, hj, rfl⟩ := Except.map_eq_ok_iff.mp htext
  obtain ⟨m, hm, rfl⟩ := Except.map_eq_ok_iff.mp hbytes
  obtain ⟨hwell, hin⟩ : ty.WellFormed ∧ v.InSlot ty := by
    rcases hty with rfl | rfl
    · exact ⟨hv.type_wellFormed, .of_same hv.type_wellFormed.same_refl⟩
    · exact ⟨.dynamic, .of_isDynamic rfl⟩
  obtain ⟨j', hreadJson, hvalueJson⟩ := exists_of_decodeJson ha
  obtain rfl := hjson j hj j' hreadJson
  obtain ⟨m', hreadMsgpack, hvalueMsgpack⟩ := exists_of_decodeMsgpack hb
  obtain rfl := hmsgpack m hm m' hreadMsgpack
  have hfits := Msgpack.gives_readValue _ _ _ _ hreadMsgpack
  -- Each of the two is what comes back from its format.
  obtain ⟨hfromJson, hrefinements⟩ :=
    Json.echoes (by decide) hv ty ty j' 0 a hwell hwell hin hwell.same_refl hj hvalueJson
  have hfromMsgpack := Msgpack.echoes (by decide) hv ty ty m' 0 b hwell hwell hin hwell.same_refl
    hrefinements hfits hm hvalueMsgpack
  have hrewritten : a = b.rewritten := by
    rw [hfromJson.eq, hfromMsgpack.eq, rewritten_readBack hv hfromJson.types hfromMsgpack.types]
  rw [hrewritten]
  exact identical_rewritten (Msgpack.wellFormed_toValue hwell hvalueMsgpack).1

/-- A half and an unknown number are decoded alike. -/
theorem identical_of_decode_exampleUnknown :
    exampleUnknown.WellFormed ∧ ∃ text bytes a b,
      exampleUnknown.encodeJson exampleUnknown.ty = .ok text ∧
      exampleUnknown.encodeMsgpack exampleUnknown.ty = .ok bytes ∧
      decodeJson .default exampleUnknown.ty (Text.Utf8.ofString text) = .ok a ∧
      decodeMsgpack .default exampleUnknown.ty bytes = .ok b ∧ a.identical b := by
  have hwell := reachable_exampleUnknown.wellFormed
  have hty := hwell.type_wellFormed
  have hportable : exampleUnknown.Portable Limits.default.maxNumberExponent :=
    ⟨hwell, fun w hw => (hwell.plain_of_contains plain_exampleUnknown hw).noCapsule,
      fun w hw => (within_exampleUnknown hw).1, fun w hw => (within_exampleUnknown hw).2⟩
  obtain ⟨j, hj⟩ := Json.exists_carries (by decide) hportable (avoids_exampleUnknown _) hty hty
    (.of_same hty.same_refl) hty.same_refl
  obtain ⟨m, hm⟩ := Msgpack.exists_carries (by decide) (by decide) hportable hty hty
    (.of_same hty.same_refl) hty.same_refl
  have hnesting := nesting_le_of_toJson_exampleUnknown hj.written
  have hfits := fits_of_toMsgpack_exampleUnknown hm.written
  have hcost := Msgpack.cost_le_of_toMsgpack plain_exampleUnknown.noDynamic hm.written
  have hlevels : exampleUnknown.nesting = 1 := by decide
  have hbudget : Msgpack.budget .default = 2 * Limits.default.maxDepth + 1 := by decide
  have hdepth : Limits.default.maxDepth = 500 := rfl
  -- Both documents are read as they were written.
  have hdynamic := plain_exampleUnknown.noDynamic
  have hreadJson :=
    Json.readBytes_compact (hj.readable (avoids_exampleUnknown _) hdynamic) hnesting
  have hreadMsgpack := Msgpack.readValue_write hfits (Msgpack.budget .default) []
  rw [List.append_nil, Msgpack.outcome_of_le (by omega)] at hreadMsgpack
  have htext : exampleUnknown.encodeJson exampleUnknown.ty = .ok j.compact :=
    congrArg (Except.map Json.compact) hj.written
  have hbytes : exampleUnknown.encodeMsgpack exampleUnknown.ty = .ok m.write :=
    congrArg (Except.map Msgpack.write) hm.written
  have ha : decodeJson .default exampleUnknown.ty (Text.Utf8.ofString j.compact) =
      .ok (exampleUnknown.readBack Json.echo exampleUnknown.ty) := by
    simp only [decodeJson, hreadJson, hj.read 0 (by omega), Except.mapError]
  have htypes := @typesRead_of_hasDynamic Msgpack.echo _ _ hwell hty hdynamic hty.same_refl
  have hb : decodeMsgpack .default exampleUnknown.ty m.write =
      .ok (exampleUnknown.readBack Msgpack.echo exampleUnknown.ty) :=
    (Msgpack.decodeMsgpack_write_iff hfits).mpr ⟨by omega, hm.read hfits htypes 0 (by omega)⟩
  refine ⟨hwell, _, _, _, _, htext, hbytes, ha, hb,
    identical_of_decode hwell (.inl rfl) htext hbytes (fun j' hj' k hk => ?_)
      (fun m' hm' k hk => ?_) ha hb⟩
  · obtain rfl := Except.ok.inj (hj.written.symm.trans hj')
    exact Except.ok.inj (hk.symm.trans hreadJson)
  · obtain rfl := Except.ok.inj (hm.written.symm.trans hm')
    exact congrArg Prod.fst (Except.ok.inj (hk.symm.trans hreadMsgpack))

end Value

end TypedData
