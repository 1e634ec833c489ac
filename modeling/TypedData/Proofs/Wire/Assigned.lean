import TypedData.Proofs.Wire.Delivered
import TypedData.Proofs.Wire.MsgpackLaws
import TypedData.Proofs.Wire.Undeclared

/-!
# Decoding assignable values

Converting a value keeps the numbers inside it, so that what was settled stays settled. What is read
of an assignable value has its numbers in another form than what comes back of the value that it
converts to, at most, so that both are identical.

## Main definitions

* `Value.flagSet`, `Value.flags` — objects in slots of more and of fewer attributes
* `Value.exampleTiny` — a number that is written and not read

## Main results

* `Value.Assignable.settled` — what comes of settled values is settled
* `Value.decodeMsgpack_of_usableAs` — what is written of assignable values, and read again
-/

namespace TypedData

namespace Value

variable {c : Wire.Echo} {limit : Nat} {limits : Limits} {depth : Nat} {t : Ty} {v w d x : Value}

/-! ### Settled values -/

theorem asNumber?_eq_some_iff {n : Decimal} : v.asNumber? = some n ↔ v.content = .number n := by
  obtain ⟨own, content, m⟩ := v
  cases content <;> simp [asNumber?]

theorem Settled.of_sameData (h : v.Settled c) (hdata : SameData w v) : w.Settled c :=
  forall_contains_of_sameData h hdata fun hself => by rwa [hdata.1, hdata.2]

/-- A null is settled. -/
theorem settled_of_null (hnull : v.content = .null) : v.Settled c := by
  refine forall_contains_iff.mpr ⟨?_, ?_⟩ <;> rw [hnull]
  · exact fun _ => nofun
  · exact nofun

namespace Assignable

/-- The numbers that come up are those inside. -/
theorem steady (h : v.Assignable t) (hw : v.convertAt limits depth t = .ok w)
    (hsteady : v.Steady c) : w.Steady c := by
  intro x hx n hn
  refine h.forall_contains (P := fun content => ∀ n, content = .number n →
    Msgpack.ofNumber (c.number n) = Msgpack.ofNumber n) nofun (fun _ => nofun) (fun _ => nofun)
    (fun _ => nofun) hw (fun y hy n hn => ?_) x hx n (asNumber?_eq_some_iff.mp hn)
  exact hsteady y hy n (asNumber?_eq_some_iff.mpr hn)

theorem steady_parts (h : v.Assignable t) (hw : v.convertAt limits depth t = .ok w)
    (hsteady : ∀ x ∈ parts v.content, x.Steady c) : ∀ x ∈ parts w.content, x.Steady c := by
  intro x hx
  obtain hnull | ⟨y, hy, u, z, hyu, hyz, hdata⟩ := h.exists_part hw hx
  · exact steady_of_asNumber? (by simp [asNumber?, hnull]) (by simp [hnull, parts])
  · exact (hyu.steady hyz (hsteady y hy)).of_sameData hdata

theorem isSet_eq (h : v.Assignable t) (hw : v.convertAt limits depth t = .ok w) :
    w.ty.isSet = v.ty.isSet := by
  obtain ⟨-, rfl⟩ | ⟨-, hty⟩ := ty_of_convertAt hw
  · rfl
  · rw [hty, h.kind_eq.1]

/-- What comes of a settled value is settled. -/
theorem settled (h : v.Assignable t) (hw : v.convertAt limits depth t = .ok w)
    (hsettled : v.Settled c) : w.Settled c := by
  induction v using Value.induction_parts generalizing t w depth with
  | step v ih =>
    refine forall_contains_iff.mpr ⟨fun hset e he => ?_, fun x hx => ?_⟩
    · -- What is a set afterwards was one before, and its elements come from elements.
      rw [h.isSet_eq hw] at hset
      obtain hnull | ⟨y, hy, u, z, hyu, hyz, hdata⟩ := h.exists_part hw he
      · rw [hnull]
        exact nofun
      · rw [hdata.2]
        exact hyu.steady_parts hyz (hsettled v .self hset y hy)
    · obtain hnull | ⟨y, hy, u, z, hyu, hyz, hdata⟩ := h.exists_part hw hx
      · exact settled_of_null hnull
      · exact (ih y hy hyu hyz (hsettled.of_mem_parts hy)).of_sameData hdata

end Assignable

/-! ### What is read -/

/-- What stands for a value is identical to it apart from marks exactly if the value comes back. -/
theorem Arrived.identical_iff (h : Arrived limit t w d) (hw : Placed Json.echo t w)
    (hdynamic : t.hasDynamic = false) (hencoded : d.EncodedInside) :
    d.identical w.withoutMarks ↔ w.comesBack Msgpack.echo t := by
  have hconcrete := Ty.isDynamic_of_hasDynamic hdynamic
  have htypes : w.typesRead Msgpack.echo t :=
    typesRead_of_hasDynamic hw.wellFormed hw.slot hdynamic (hw.inSlot.same hconcrete)
  have hplaced : Placed Msgpack.echo t w :=
    ⟨hw.wellFormed, hw.capsuleFree, hw.slot, hw.inSlot, htypes⟩
  have hd := h.readIn.wellFormed
  have hback := (hplaced.wellFormed_readBack Msgpack.keepsTypes_echo).1
  have htext := (hw.wellFormed_readBack Json.keepsTypes_echo).1
  -- Both are identical to what comes back from text.
  have hdtext : (w.readBack Json.echo t).identical d :=
    h.rewritten_eq hencoded ▸ identical_rewritten hd
  have hbtext : (w.readBack Json.echo t).identical (w.readBack Msgpack.echo t) :=
    rewritten_readBack hw.wellFormed hw.types htypes ▸ identical_rewritten hback
  rw [← identical_readBack hw.wellFormed t]
  constructor
  · exact identical_trans hback (identical_trans hback (identical_symm htext hback hbtext) hdtext)
  · exact identical_trans hd (identical_trans hd (identical_symm htext hd hdtext) hbtext)

/-! ### Objects in slots of fewer and of more attributes -/

/-- A flag, and a second one. -/
def flags : Value := ⟨.object [⟨"a", .bool, false⟩, ⟨"b", .bool, false⟩],
  .entries [("a", .bool true), ("b", .bool true)], .empty⟩

/-- A flag alone. -/
def flag : Value := ⟨.object [⟨"a", .bool, false⟩], .entries [("a", .bool true)], .empty⟩

/-- A set of one flag. -/
def flagSet : Value := ⟨.set flag.ty, .items [flag], .empty⟩

/-- A flag, and a number that may be left out. -/
def flagAndNumber : Ty := .object [⟨"a", .bool, false⟩, ⟨"b", .number, true⟩]

/-- A flag beside a number that was left out. -/
def flagBesideNull : Value :=
  ⟨flagAndNumber, .entries [("a", .bool true), ("b", null .number)], .empty⟩

/-- A set of that. -/
def flagSetBesideNull : Value := ⟨.set flagAndNumber, .items [flagBesideNull], .empty⟩

theorem wellFormed_object_of_flag : (Ty.object [⟨"a", .bool, false⟩]).WellFormed := by
  refine .object (by decide) ?_ ?_ <;> simp only [List.forall_mem_singleton]
  · decide +kernel
  · exact .bool

theorem wellFormed_flagAndNumber : flagAndNumber.WellFormed := by
  refine .object (by decide) ?_ ?_ <;> simp only [List.forall_mem_pair]
  · exact ⟨by decide +kernel, by decide +kernel⟩
  · exact ⟨.bool, .number⟩

theorem wellFormed_flag : flag.WellFormed := by
  refine .object wellFormed_object_of_flag ?_ (List.mergeSort_of_pairwise (by decide)).symm ?_ <;>
    simp only [List.forall_mem_singleton]
  · exact .bool
  · rintro _ ⟨⟩
    exact .of_same rfl

theorem wellFormed_flags : flags.WellFormed := by
  refine .object ?_ ?_ (List.mergeSort_of_pairwise (by decide)).symm ?_
  · refine .object (by decide) ?_ ?_ <;> simp only [List.forall_mem_pair]
    · exact ⟨by decide +kernel, by decide +kernel⟩
    · exact ⟨.bool, .bool⟩
  · simp only [List.forall_mem_pair]
    exact ⟨.bool, .bool⟩
  · simp only [List.forall_mem_pair]
    constructor <;> rintro _ ⟨⟩ <;> exact .of_same rfl

theorem wellFormed_flagSet : flagSet.WellFormed := by
  refine .set wellFormed_object_of_flag ?_ ?_ ?_ ⟨by simp, by simp⟩ <;>
    rw [List.forall_mem_singleton]
  · exact wellFormed_flag
  · exact .of_same rfl
  · rfl

theorem eq_of_contains_flag (h : flag.Contains x) : x = flag ∨ x = .bool true := by
  rcases h.eq_or_exists with rfl | ⟨y, hy, h⟩
  · exact .inl rfl
  · obtain rfl := List.mem_singleton.mp hy
    rcases h.eq_or_exists with rfl | ⟨z, hz, -⟩
    · exact .inr rfl
    · cases hz

theorem eq_of_contains_flagSet (h : flagSet.Contains x) :
    x = flagSet ∨ x = flag ∨ x = .bool true := by
  rcases h.eq_or_exists with rfl | ⟨y, hy, h⟩
  · exact .inl rfl
  · obtain rfl := List.mem_singleton.mp hy
    exact .inr (eq_of_contains_flag h)

theorem capsuleFree_flagSet : flagSet.CapsuleFree := by
  intro x hx
  rcases eq_of_contains_flagSet hx with rfl | rfl | rfl <;> exact nofun

theorem capsuleFree_flags : flags.CapsuleFree := by
  refine capsuleFree_iff.mpr ⟨by simp [flags], fun x hx => ?_⟩
  obtain rfl : x = .bool true := by simpa [flags, parts] using hx
  exact capsuleFree_iff.mpr
    ⟨by simp [Value.bool, ofContent], by simp [Value.bool, ofContent, parts]⟩

/-- What is written of a flag is read beside a null. -/
theorem toValue_flag : Msgpack.toValue .default 1 flagAndNumber (.map [(.ofText "a", .bool true)]) =
    .ok flagBesideNull := by
  have hwritten : entriesToMsgpack (slotOf? flagAndNumber) [("a", .bool true)] =
      .ok [(.ofText "a", .bool true)] := rfl
  have hkeys := Msgpack.keysOf_of_entriesToMsgpack wellFormed_flag hwritten
  rw [flagAndNumber, Msgpack.toValue_object hkeys (by decide) (by decide)]
  refine @Wire.objectOf_eq_of_absent _ _ [("a", .bool true)]
    [("a", .bool true), ("b", null .number)] (by decide) ?_ (by decide) (by simp) ?_
  · exact (List.mergeSort_of_pairwise (by decide)).symm
  · simp

/-- What is written of a set of one flag is read as the set of that. -/
theorem toValue_flagSet : Msgpack.toValue .default 0 (.set flagAndNumber)
    (.array [.map [(.ofText "a", .bool true)]]) = .ok flagSetBesideNull := by
  have hitems : Msgpack.itemsToValues .default (0 + 1) 0 [flagAndNumber]
      [.map [(.ofText "a", .bool true)]] = .ok [flagBesideNull] := by
    rw [Msgpack.itemsToValues, List.headD_cons, toValue_flag]
    rfl
  have horder : InSetOrder [flagBesideNull] := ⟨by simp, by simp⟩
  rw [@Msgpack.toValue_array _ _ _ [flagAndNumber] _ rfl (by decide), hitems, Except.map,
    sequence_set_of_known rfl, canonicalSet_eq_self horder]
  rfl

theorem encodedInside_flagSetBesideNull : flagSetBesideNull.EncodedInside := by
  have hnull : (null .number).EncodedInside := encodedInside_iff.mpr ⟨⟨.nil, rfl, .nil⟩, nofun⟩
  have hflag : (Value.bool true).EncodedInside :=
    encodedInside_iff.mpr ⟨⟨.bool true, rfl, .bool true⟩, nofun⟩
  have hmap : (Msgpack.map [(.ofText "a", .bool true), (.ofText "b", .nil)]).Fits := by
    refine .map (by decide) ?_ ?_ <;> simp only [List.forall_mem_pair]
    · exact ⟨.str (by decide), .str (by decide)⟩
    · exact ⟨.bool true, .nil⟩
  have hobject : flagBesideNull.EncodedInside := by
    refine encodedInside_iff.mpr ⟨⟨_, rfl, hmap⟩, ?_⟩
    exact List.forall_mem_pair.mpr ⟨hflag, hnull⟩
  refine encodedInside_iff.mpr ⟨⟨_, rfl, .array (by decide) ?_⟩, ?_⟩
  · simpa using hmap
  · simpa [flagSetBesideNull, parts] using hobject

/-- A number behind more places than the decoders read. -/
def exampleTiny : Decimal := ⟨1, 4097⟩

theorem fits_ofNumber_exampleTiny : (Msgpack.ofNumber exampleTiny).Fits := by
  refine Msgpack.fits_ofNumber (Nat.lt_of_le_of_lt (Text.Utf8.length_encode_le _) ?_)
  have hnormal : exampleTiny.normalize = exampleTiny := by decide +kernel
  have hlength : exampleTiny.plain.toList.length = 4097 + 2 := by
    rw [Decimal.plain, String.toList_ofList, hnormal, if_neg (by decide)]
    exact Decimal.length_positional (n := 1) (by decide) (by decide)
  rw [hlength]
  decide

/-- A value converts to every type without `dynamic` to which its own is assignable. Into a slot of
that type it is encoded exactly if each attribute in it is declared where its object stands, and
otherwise the first one that is not is refused. What was encoded is decoded exactly if the budget
pays for the bytes, and the numbers and the bounds of unknowns are within the exponent limit in the
form in which they come back. What is decoded is the value that it converts to, apart from its
marks, exactly if that comes back from the slot with the elements of its sets in order. -/
theorem decodeMsgpack_of_usableAs {v : Value} {ty : Ty} (hv : v.WellFormed)
    (hcapsule : v.CapsuleFree) (hty : ty.WellFormed) (hdynamic : ty.hasDynamic = false)
    (husable : v.ty.usableAs ty) (hdepth : v.depth ≤ Limits.default.maxDepth) :
    ∃ w, v.convert .default ty = .ok w ∧
      (∀ path name, v.undeclared? ty = some (path, name) →
        v.encodeMsgpack ty = .error ⟨.msgpack, path, .unsupportedAttribute name⟩) ∧
      (v.undeclared? ty = none → ∃ m, v.toMsgpack ty = .ok m ∧ v.encodeMsgpack ty = .ok m.write ∧
        (v.nesting ≤ 499 → m.cost ≤ Msgpack.budget .default) ∧
        (m.Fits → (∀ x, v.Contains x → ∀ r, x.refinement? = some r → r.Counted) →
          ((∃ d, decodeMsgpack .default ty m.write = .ok d) ↔
            m.cost ≤ Msgpack.budget .default ∧ Msgpack.NumbersReturn 4096 v ∧
              v.RefinementsReturn 4096) ∧
          ∀ d, decodeMsgpack .default ty m.write = .ok d → d.EncodedInside →
            (d.identical w.withoutMarks ↔ w.comesBack Msgpack.echo ty))) ∧
      ((∀ x, v.Contains x → ∀ n, x.asNumber? = some n → n.withinExponent 4096) →
        Msgpack.NumbersReturn 4096 v) ∧
      (v.Settled Msgpack.echo → w.comesBack Msgpack.echo ty) := by
  have h : v.Assignable ty := ⟨hv, hty, hdynamic, husable⟩
  obtain ⟨w, hw⟩ := @exists_convertAt_of_depth .default 0 ty v hv hty husable (by omega)
  have hplaced := h.placed hcapsule hw
  have hfails := h.failsFor_toMsgpack hcapsule
  refine ⟨w, hw, fun path name hfound => ?_, fun hnone => ?_,
    Msgpack.numbersReturn_of_le (by decide), fun hsettled => ?_⟩
  · rw [hfound] at hfails
    rw [encodeMsgpack, hfails.eq_of_some]
    rfl
  · rw [hnone] at hfails
    obtain ⟨m, hm⟩ := hfails.exists_of_none
    have hdefault : Limits.default.maxDepth = 500 := rfl
    have hbudget : Msgpack.budget .default = 2 * Limits.default.maxDepth + 1 := by decide
    refine ⟨m, hm, by rw [encodeMsgpack, hm]; rfl, fun hnesting => ?_, fun hfits hcounted => ?_⟩
    · have hcost := Msgpack.cost_le_of_toMsgpack hdynamic hm
      omega
    · have hdelivered : Delivers .default ty v w m :=
        h.deliveredAs (by decide) ⟨hcapsule, hcounted⟩ hw m hm hfits
      simp only [Msgpack.decodeMsgpack_write_iff hfits]
      refine ⟨⟨?_, ?_⟩, ?_⟩
      · rintro ⟨d, hcost, hd⟩
        have hreadable := (hdelivered.arrives 0 d hd).1
        exact ⟨hcost, hreadable.numbers, hreadable.refinements⟩
      · rintro ⟨hcost, hnumbers, hrefinements⟩
        obtain ⟨d, hd⟩ := hdelivered.read ⟨hnumbers, hrefinements⟩ 0 (by omega)
        exact ⟨d, hcost, hd⟩
      · rintro d ⟨-, hd⟩ hencoded
        exact (hdelivered.arrives 0 d hd).2.identical_iff hplaced hdynamic hencoded
  · exact comesBack_of_settled Msgpack.keepsTypes_echo hplaced.wellFormed hplaced.capsuleFree hty
      hdynamic (hplaced.inSlot.same h.concrete) (h.settled hw hsettled)

/-- A set of one flag is encoded into a slot for sets of a flag and a number, and decoded with a
null beside the flag. -/
theorem decodeMsgpack_of_usableAs_flagSet :
    flagSet.WellFormed ∧ flagSet.ty.usableAs (.set flagAndNumber) ∧ ∃ w bytes d,
      flagSet.convert .default (.set flagAndNumber) = .ok w ∧
        flagSet.encodeMsgpack (.set flagAndNumber) = .ok bytes ∧
        decodeMsgpack .default (.set flagAndNumber) bytes = .ok d ∧
        d.identical w.withoutMarks := by
  obtain ⟨w, hw, -, hencoded, hnumbers, hback⟩ := decodeMsgpack_of_usableAs wellFormed_flagSet
    capsuleFree_flagSet (.set wellFormed_flagAndNumber) rfl (by decide) (by decide)
  obtain ⟨m, hm, hbytes, hcost, hdecoded⟩ := hencoded rfl
  have hwritten : flagSet.toMsgpack (.set flagAndNumber) =
      .ok (.array [.map [(.ofText "a", .bool true)]]) := rfl
  obtain rfl := Except.ok.inj (hm.symm.trans hwritten)
  have hfits : (Msgpack.array [.map [(.ofText "a", .bool true)]]).Fits := by
    refine .array (by decide) (List.forall_mem_singleton.mpr (.map (by decide) ?_ ?_)) <;>
      simp only [List.forall_mem_singleton]
    · exact .str (by decide)
    · exact .bool true
  have hunknown : ∀ x, flagSet.Contains x → x.refinement? = none := by
    intro x hx
    rcases eq_of_contains_flagSet hx with rfl | rfl | rfl <;> rfl
  have hplain : ∀ x, flagSet.Contains x → x.asNumber? = none := by
    intro x hx
    rcases eq_of_contains_flagSet hx with rfl | rfl | rfl <;> rfl
  obtain ⟨hread, hidentical⟩ := hdecoded hfits fun x hx r hr =>
    absurd ((hunknown x hx).symm.trans hr) nofun
  obtain ⟨d, hd⟩ := hread.mpr ⟨hcost (by decide),
    hnumbers fun x hx n hn => absurd ((hplain x hx).symm.trans hn) nofun,
    fun x hx r hr => absurd ((hunknown x hx).symm.trans hr) nofun⟩
  have hvalue := ((Msgpack.decodeMsgpack_write_iff hfits).mp hd).2
  obtain rfl := Except.ok.inj (hvalue.symm.trans toValue_flagSet)
  have hsettled : flagSet.Settled Msgpack.echo :=
    fun s hs _ e he x hx y hy n hn => absurd ((hplain y
      (((hs.inside he).inside hx).trans hy)).symm.trans hn) nofun
  exact ⟨wellFormed_flagSet, by decide, w, _, _, hw, hbytes, hd,
    (hidentical _ hd encodedInside_flagSetBesideNull).mpr (hback hsettled)⟩

/-- An attribute that its slot does not declare is refused, and what was written of a number behind
too many places is not read. -/
theorem decodeMsgpack_of_usableAs_refused :
    (flags.WellFormed ∧ flags.CapsuleFree ∧ flags.ty.usableAs flag.ty ∧ flags.nesting ≤ 499 ∧
      flags.encodeMsgpack flag.ty = .error ⟨.msgpack, [], .unsupportedAttribute "b"⟩) ∧
    (number exampleTiny).WellFormed ∧ (number exampleTiny).CapsuleFree ∧
      Ty.number.usableAs .number ∧ ∃ bytes, (number exampleTiny).encodeMsgpack .number = .ok bytes ∧
        ∀ d, decodeMsgpack .default .number bytes ≠ .ok d := by
  have hfree : (number exampleTiny).CapsuleFree := capsuleFree_iff.mpr ⟨nofun, nofun⟩
  refine ⟨⟨wellFormed_flags, capsuleFree_flags, by decide, by decide, rfl⟩, .number, hfree, rfl,
    (Msgpack.ofNumber exampleTiny).write, rfl, fun d hd => ?_⟩
  obtain ⟨-, hvalue⟩ := (Msgpack.decodeMsgpack_write_iff fits_ofNumber_exampleTiny).mp hd
  rw [Msgpack.toValue_scalar (Msgpack.shape_ofNumber exampleTiny) (by decide),
    Msgpack.toScalar_number_ofNumber] at hvalue
  cases hread : (Msgpack.ofNumber exampleTiny).asNumber? Limits.default.maxNumberExponent with
  | none => simp [hread, Msgpack.failAt] at hvalue
  | some n =>
    have hwithin := Msgpack.within_of_asNumber? hread
    rw [Msgpack.eq_numberBack_of_asNumber? hread] at hwithin
    exact absurd hwithin (by decide +kernel)

end Value

end TypedData
