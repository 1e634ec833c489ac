import TypedData.Proofs.Value.Reachable
import TypedData.Proofs.Wire.MsgpackReceived
import TypedData.Proofs.Wire.MsgpackWritten
import TypedData.Proofs.Wire.Settled

/-!
# The round trip through MessagePack

## Main results

* `Msgpack.decodeMsgpack_write_iff` — when bytes that were written are decoded
* `Value.decodeMsgpack_encodeMsgpack` — values of plain type come back, apart from the order of
  sets
* `Value.decodeMsgpack_encodeMsgpack_of_decoded` — what was decoded is encoded, and when it comes
  back as it was
-/

namespace TypedData

open Value

namespace Msgpack

variable {limits : Limits} {m : Msgpack} {ty : Ty} {w : Value}

/-- Everything is written with a header. -/
theorem write_ne_nil (m : Msgpack) : m.write ≠ [] := by
  have hmarked (code : UInt8) (width n : Nat) : marked code width n ≠ [] := List.cons_ne_nil _ _
  cases m with
  | bool b => cases b <;> exact List.cons_ne_nil _ _
  | int n =>
    rw [write, writeInt]
    simp only
    split_ifs <;> first | exact hmarked _ _ _ | exact List.cons_ne_nil _ _
  | nil | float32 | float64 => exact List.cons_ne_nil _ _
  | str | bin | array | map | ext =>
    refine List.append_ne_nil_of_left_ne_nil ?_ _
    simp only [strHeader, binHeader, arrayHeader, mapHeader, extHeader]
    split_ifs <;> first | exact hmarked _ _ _ | exact List.cons_ne_nil _ _

/-- The budget under which bytes are decoded. -/
def budget (limits : Limits) : Nat := min (2 * limits.maxDepth + 1) maxBudget

/-- Bytes that were written are decoded if the budget pays for them. -/
theorem decodeMsgpack_write_iff (h : m.Fits) :
    decodeMsgpack limits ty m.write = .ok w ↔
      m.cost ≤ budget limits ∧ m.toValue limits 0 ty = .ok w := by
  have hread := readValue_write h (budget limits) []
  rw [List.append_nil, budget] at hread
  have hnonempty : m.write.isEmpty = false := by simpa using write_ne_nil m
  rw [decodeMsgpack, hnonempty, budget]
  by_cases hcost : m.cost ≤ min (2 * limits.maxDepth + 1) maxBudget
  · rw [outcome_of_le hcost] at hread
    simp [hread, hcost, Except.mapError_eq_ok_iff]
  · rw [outcome_of_lt (by omega)] at hread
    simp [hread, hcost]

end Msgpack

namespace Value

theorem fits_of_toMsgpack_exampleUnknown {m : Msgpack}
    (h : exampleUnknown.toMsgpack exampleUnknown.ty = .ok m) : m.Fits := by
  have hwritten : exampleUnknown.toMsgpack exampleUnknown.ty = .ok (.array [.ofNumber ⟨5, 1⟩,
      .ext 12 (Msgpack.write (.map [(.int 3, .ofBound ⟨⟨0, 0⟩, true⟩)]))]) := rfl
  obtain rfl := Except.ok.inj (h.symm.trans hwritten)
  refine .array (show 2 < 0x100000000 by decide) ?_
  simp only [List.forall_mem_cons, List.not_mem_nil, false_imp_iff, implies_true, and_true]
  exact ⟨Msgpack.fits_ofNumber (by decide +kernel),
    .ext (by decide) (by decide) (by decide +kernel)⟩

/-- A value that can be had, of a type without `dynamic` and capsules, is encoded as its own
type, and what was encoded is decoded. What is decoded is the value itself, apart from its marks,
exactly if the elements of its sets, with numbers in the form in which they come back, are in the
order in which they stood. They are whenever the numbers inside them are encoded alike in that
form. -/
theorem decodeMsgpack_encodeMsgpack {v : Value} (hv : v.Reachable) (hplain : v.ty.Plain)
    (hnesting : v.nesting ≤ 499)
    (hnumbers : ∀ w, v.Contains w → ∀ n, w.asNumber? = some n → n.withinExponent 4096)
    (hrefinements : ∀ w, v.Contains w → ∀ r, w.refinement? = some r → r.Writable 4096) :
    ∃ m, v.toMsgpack v.ty = .ok m ∧ v.encodeMsgpack v.ty = .ok m.write ∧ (m.Fits →
      decodeMsgpack .default v.ty m.write = .ok (v.readBack Msgpack.echo v.ty) ∧
        ((v.readBack Msgpack.echo v.ty).identical v.withoutMarks ↔
          v.comesBack Msgpack.echo v.ty) ∧
        (v.Settled Msgpack.echo → v.comesBack Msgpack.echo v.ty)) := by
  have hwell := hv.wellFormed
  have hportable : v.Portable Limits.default.maxNumberExponent :=
    ⟨hwell, fun w hw => (hwell.plain_of_contains hplain hw).noCapsule, hnumbers, hrefinements⟩
  have hty := hwell.type_wellFormed
  obtain ⟨m, hm⟩ := Msgpack.exists_carries (by decide) (by decide) hportable hty hty
    (.of_same hty.same_refl) hty.same_refl
  have hcost := Msgpack.cost_le_of_toMsgpack hplain.noDynamic hm.written
  have hbudget : Msgpack.budget .default = 1001 := by decide
  have hencoded : v.encodeMsgpack v.ty = .ok m.write := by
    rw [encodeMsgpack, hm.written]
    rfl
  refine ⟨m, hm.written, hencoded, fun hfits => ⟨?_, by rw [identical_readBack hwell],
    comesBack_of_settled Msgpack.keepsTypes_echo hwell hportable.capsuleFree hty hplain.noDynamic
      hty.same_refl⟩⟩
  have htypes := @typesRead_of_hasDynamic Msgpack.echo _ _ hwell hty hplain.noDynamic hty.same_refl
  rw [Msgpack.decodeMsgpack_write_iff hfits]
  refine ⟨by omega, hm.read hfits htypes 0 ?_⟩
  show 2 * 0 + m.cost ≤ 2 * 500 + 1
  omega

/-- A half and an unknown number come back together, the one as a double and the other with its
bound. -/
theorem decodeMsgpack_encodeMsgpack_exampleUnknown :
    exampleUnknown.Reachable ∧ ∃ bytes w,
      exampleUnknown.encodeMsgpack exampleUnknown.ty = .ok bytes ∧
      decodeMsgpack .default exampleUnknown.ty bytes = .ok w ∧
      w.identical exampleUnknown.withoutMarks := by
  obtain ⟨m, hm, hbytes, hdecoded⟩ :=
    decodeMsgpack_encodeMsgpack reachable_exampleUnknown plain_exampleUnknown (by decide)
      (fun w hw => (within_exampleUnknown hw).1) fun w hw => (within_exampleUnknown hw).2
  obtain ⟨hdecoded, hsame, hback⟩ := hdecoded (fits_of_toMsgpack_exampleUnknown hm)
  exact ⟨reachable_exampleUnknown, _, _, hbytes, hdecoded, hsame.mpr (hback settled_exampleUnknown)⟩

/-- A set of tuples comes back in another order. -/
theorem decodeMsgpack_encodeMsgpack_exampleTurned :
    exampleTurned.Reachable ∧ ∃ bytes w, exampleTurned.encodeMsgpack exampleTurned.ty = .ok bytes ∧
      decodeMsgpack .default exampleTurned.ty bytes = .ok w ∧
      w.identical exampleTurned.withoutMarks = false := by
  obtain ⟨m, hm, hbytes, hdecoded⟩ :=
    decodeMsgpack_encodeMsgpack reachable_exampleTurned plain_exampleTurned (by decide)
      (fun w hw n hn => within_exampleTurned hw hn)
      fun w hw r hr => absurd ((refinement?_exampleTurned hw).symm.trans hr) nofun
  have hwritten : exampleTurned.toMsgpack exampleTurned.ty =
      .ok (.array [.array [.ofNumber ⟨5000000000, 0⟩], .array [.ofNumber longDouble]]) := rfl
  obtain rfl := Except.ok.inj (hm.symm.trans hwritten)
  have hfits : ∀ n ∈ [⟨5000000000, 0⟩, longDouble], (Msgpack.ofNumber n).Fits := by
    have hlength : ∀ n ∈ [⟨5000000000, 0⟩, longDouble],
        (Text.Utf8.ofString n.plain).length < 0x100000000 := by decide +kernel
    exact fun n hn => Msgpack.fits_ofNumber (hlength n hn)
  obtain ⟨hdecoded, hsame, -⟩ := hdecoded <| .array (by decide) <| by
    simp only [List.forall_mem_cons, List.not_mem_nil, false_imp_iff, implies_true, and_true]
    exact ⟨.array (by decide) (by simpa using hfits _ (by simp)),
      .array (by decide) (by simpa using hfits _ (by simp))⟩
  refine ⟨reachable_exampleTurned, _, _, hbytes, hdecoded, ?_⟩
  rw [Bool.eq_false_iff, Ne, hsame, comesBack_exampleTurned (by decide +kernel) (by decide +kernel)]
  exact Bool.false_ne_true

/-- What was decoded is encoded into the slot for which it was decoded, and decoded again if the
budget pays for the new bytes and the types beside values are read. It is then the same value
exactly if every part of it comes back. Nulls and unknowns are written without a type, so those in
`dynamic` slots have to be of type `dynamic`; where the elements of sets keep their order, nothing
else is lost. -/
theorem decodeMsgpack_encodeMsgpack_of_decoded {ty : Ty} {bytes : List UInt8} {v : Value}
    (hty : ty.WellFormed) (hcapsule : ty.hasCapsule = false)
    (h : decodeMsgpack .default ty bytes = .ok v) :
    ∃ m, v.toMsgpack ty = .ok m ∧ v.encodeMsgpack ty = .ok m.write ∧ (m.Fits →
      ((∃ w, decodeMsgpack .default ty m.write = .ok w) ↔
        m.cost ≤ Msgpack.budget .default ∧ v.typesRead Msgpack.echo ty) ∧
      ∀ w, decodeMsgpack .default ty m.write = .ok w →
        (w.identical v ↔ v.comesBack Msgpack.echo ty) ∧
        (w.identical v → v.nullsUntyped ty) ∧
        (v.nullsUntyped ty → v.Settled Msgpack.echo → v.KeepsNames → w.identical v)) := by
  obtain ⟨hwell, hin⟩ := wellFormed_decodeMsgpack hty h
  have hreceived := received_decodeMsgpack hcapsule h
  have hportable := hreceived.portable hwell
  obtain ⟨m, hm⟩ :=
    Msgpack.exists_carries (by decide) (by decide) hportable hty hty hin hty.same_refl
  have hencoded : v.encodeMsgpack ty = .ok m.write := by
    rw [encodeMsgpack, hm.written]
    rfl
  refine ⟨m, hm.written, hencoded, fun hfits => ?_⟩
  -- What is read can only be what comes back, whichever way it is known to be read.
  have hread (htypes : v.typesRead Msgpack.echo ty) (hcost : m.cost ≤ Msgpack.budget .default) :
      m.toValue .default 0 ty = .ok (v.readBack Msgpack.echo ty) := by
    refine hm.read hfits htypes 0 ?_
    have hbudget : Msgpack.budget .default = 2 * Limits.default.maxDepth + 1 := by decide
    omega
  have hidentical := identical_readBack (c := Msgpack.echo) hwell ty
  rw [hreceived.withoutMarks_eq] at hidentical
  refine ⟨⟨?_, ?_⟩, fun w hw => ?_⟩
  · rintro ⟨w, hw⟩
    obtain ⟨hcost, hvalue⟩ := (Msgpack.decodeMsgpack_write_iff hfits).mp hw
    exact ⟨hcost, hm.types 0 w hvalue⟩
  · rintro ⟨hcost, htypes⟩
    exact ⟨_, (Msgpack.decodeMsgpack_write_iff hfits).mpr ⟨hcost, hread htypes hcost⟩⟩
  · obtain ⟨hcost, hvalue⟩ := (Msgpack.decodeMsgpack_write_iff hfits).mp hw
    have htypes := hm.types 0 w hvalue
    obtain rfl := Except.ok.inj ((hread htypes hcost).symm.trans hvalue)
    have hplaced : v.Placed Msgpack.echo ty := ⟨hwell, hportable.capsuleFree, hty, hin, htypes⟩
    refine ⟨by rw [hidentical], fun hsame => ?_, fun huntyped hsettled hnames => ?_⟩
    · rw [← nullsUntyped_of_identical (hplaced.wellFormed_readBack Msgpack.keepsTypes_echo).1 hsame]
      exact nullsUntyped_readBack v ty
    · exact hidentical.trans
        ((Intact.returns Msgpack.keepsTypes_echo ⟨hplaced, huntyped, hnames⟩).comesBack hsettled)

/-- A set of two numbers. -/
def exampleNumbers : Value := ofContent (.set .number) (.items [.number ⟨1, 0⟩, .number ⟨2, 0⟩])

/-- That set in a slot of any type, beside a null. -/
def exampleNumbersBeside : Value :=
  ofContent (.list .dynamic) (.items [exampleNumbers, .null .dynamic])

/-- Its bytes, with the elements of the set the wrong way round. -/
theorem decodeMsgpack_exampleNumbersBeside : decodeMsgpack .default (.list .dynamic)
    [0x92, 0x92, 0xC4, 0x10, 0x5B, 0x22, 0x73, 0x65, 0x74, 0x22, 0x2C, 0x22, 0x6E, 0x75, 0x6D,
      0x62, 0x65, 0x72, 0x22, 0x5D, 0x92, 0x02, 0x01, 0xC0] = .ok exampleNumbersBeside := by
  have horder : canonicalSet [.number ⟨2, 0⟩, .number ⟨1, 0⟩] =
      [.number ⟨1, 0⟩, .number ⟨2, 0⟩] :=
    canonicalSet_pair (by decide +kernel) (by decide +kernel)
  refine congrArg Except.ok (?_ : ofContent (.list .dynamic) (.items
    [sequence (.set .number) [.number ⟨2, 0⟩, .number ⟨1, 0⟩], .null .dynamic]) = _)
  rw [sequence, horder]
  rfl

/-- Its only set has no containers and no elements of several types. -/
theorem eq_of_contains_exampleNumbersBeside {s : Value} (hs : exampleNumbersBeside.Contains s)
    (hset : s.ty.isSet) : s = exampleNumbers := by
  rcases hs.eq_or_exists with rfl | ⟨x, hx, hs⟩
  · cases hset
  rcases List.mem_pair.mp hx with rfl | rfl
  · rcases hs.eq_or_exists with rfl | ⟨y, hy, hs⟩
    · rfl
    rcases List.mem_pair.mp hy with rfl | rfl <;>
      · rcases hs.eq_or_exists with rfl | ⟨z, hz, -⟩
        · cases hset
        · cases hz
  · rcases hs.eq_or_exists with rfl | ⟨y, hy, -⟩
    · cases hset
    · cases hy

/-- A set that was decoded with its type beside it, from elements in any order, is decoded again as
the same set, and a null beside it as the same null. -/
theorem decodeMsgpack_encodeMsgpack_of_decoded_set :
    ∃ v m w, decodeMsgpack .default (.list .dynamic)
        [0x92, 0x92, 0xC4, 0x10, 0x5B, 0x22, 0x73, 0x65, 0x74, 0x22, 0x2C, 0x22, 0x6E, 0x75, 0x6D,
          0x62, 0x65, 0x72, 0x22, 0x5D, 0x92, 0x02, 0x01, 0xC0] = .ok v ∧
      v.toMsgpack (.list .dynamic) = .ok m ∧
      decodeMsgpack .default (.list .dynamic) m.write = .ok w ∧ w.identical v := by
  obtain ⟨m, hm, -, hagain⟩ := decodeMsgpack_encodeMsgpack_of_decoded (.list .dynamic) rfl
    decodeMsgpack_exampleNumbersBeside
  have hwritten : exampleNumbersBeside.toMsgpack (.list .dynamic) = .ok (.array [.array
      [.bin (Text.Utf8.ofString (Json.array [.string "set", .string "number"]).compact),
        .array [.ofNumber ⟨1, 0⟩, .ofNumber ⟨2, 0⟩]], .nil]) := rfl
  obtain rfl := Except.ok.inj (hm.symm.trans hwritten)
  have hnumber (n : Decimal) (hn : n ∈ [⟨1, 0⟩, ⟨2, 0⟩]) : (Msgpack.ofNumber n).Fits := by
    refine Msgpack.fits_ofNumber ?_
    revert n
    decide +kernel
  obtain ⟨hdefined, hback⟩ := hagain <| .array (by decide) <| by
    simp only [List.forall_mem_cons, List.not_mem_nil, false_imp_iff, implies_true, and_true]
    refine ⟨.array (by decide) ?_, .nil⟩
    simp only [List.forall_mem_cons, List.not_mem_nil, false_imp_iff, implies_true, and_true]
    refine ⟨.bin (by decide +kernel), .array (by decide) ?_⟩
    simpa using ⟨hnumber _ (by simp), hnumber _ (by simp)⟩
  obtain ⟨w, hw⟩ := hdefined.mpr ⟨by decide +kernel, by decide +kernel⟩
  refine ⟨_, _, w, decodeMsgpack_exampleNumbersBeside, hm, hw,
    (hback w hw).2.2 (by decide +kernel) ?_ ?_⟩
  · intro s hs hsty e he x hx
    obtain rfl := eq_of_contains_exampleNumbersBeside hs hsty
    rcases List.mem_pair.mp he with rfl | rfl <;> cases hx
  · intro s hs hsty
    obtain rfl := eq_of_contains_exampleNumbersBeside hs (by rw [hsty]; rfl)
    cases hsty

/-- A null with a type beside it is written without the type, and decoded again as a null of no
type. -/
theorem decodeMsgpack_encodeMsgpack_of_decoded_null :
    ∃ v bytes w, decodeMsgpack .default .dynamic
        [0x92, 0xC4, 0x08, 0x22, 0x73, 0x74, 0x72, 0x69, 0x6E, 0x67, 0x22, 0xC0] = .ok v ∧
      v.encodeMsgpack .dynamic = .ok bytes ∧ decodeMsgpack .default .dynamic bytes = .ok w ∧
      w.identical v = false :=
  ⟨null .string, [0xC0], null .dynamic, by rfl, rfl, by rfl, by decide⟩

end Value

end TypedData
