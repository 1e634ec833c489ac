import TypedData.Proofs.Ty.Canonical
import TypedData.Proofs.Value.Equivalence
import TypedData.Proofs.Wire.Agreement
import TypedData.Proofs.Wire.Distinct
import TypedData.Proofs.Wire.Injective

/-!
# Encodings of equal values

Equal values are encoded in the same slots, and as the same text. In MessagePack their documents
agree in all but one respect: a number may be written as a floating-point number in the one form
and as a text in the other. So the documents are the same exactly if at each place either both
numbers are written as floating-point numbers or neither is.

## Main definitions

* `Msgpack.isDouble` — whether a number is written as a floating-point number
* `Value.doublesAlike` — whether two values agree in this, number by number

## Main results

* `Msgpack.ofNumber_eq_iff_of_same` — when equal numbers are written alike
* `Json.alike` — equal values have the same JSON
* `Msgpack.alike` — equal values have MessagePack documents that differ in such numbers only
* `Value.encode_of_same` — the encodings of equal values
-/

namespace TypedData

/-! ### Equal numbers -/

namespace Msgpack

/-- Whether a number is written as a floating-point number. -/
def isDouble (n : Decimal) : Bool := n.toInt64?.isNone && (Binary64.ofDecimal? n).isSome

/-- Equal numbers are written alike if either both of them are written as floating-point numbers
or neither is. -/
theorem ofNumber_eq_iff_of_same {n k : Decimal} (h : n.same k) :
    ofNumber n = ofNumber k ↔ isDouble n = isDouble k := by
  have hint := Decimal.toInt64?_eq_of_same h
  cases hn : n.toInt64? with
  | some i => simp [ofNumber, isDouble, ← hint, hn]
  | none =>
    rw [hn] at hint
    cases hf : Binary64.ofDecimal? n with
    | none =>
      cases hg : Binary64.ofDecimal? k with
      | none => simp [ofNumber, isDouble, ← hint, hn, hf, hg, Decimal.plain_eq_of_same h]
      | some g => simp [ofNumber, isDouble, ← hint, hn, hf, hg, ofText]
    | some f =>
      cases hg : Binary64.ofDecimal? k with
      | none => simp [ofNumber, isDouble, ← hint, hn, hf, hg, ofText]
      | some g =>
        -- Both are the value of one pattern, which is not zero since no integer is.
        obtain ⟨x, hx, hxn⟩ := Binary64.value?_of_ofDecimal? hf
        obtain ⟨y, hy, hyk⟩ := Binary64.value?_of_ofDecimal? hg
        rw [Decimal.same_iff] at h hxn hyk
        have hzero : x.toRat ≠ 0 := fun hzero => by
          rw [Decimal.toInt64?_of_toRat_eq_zero (hxn.symm.trans hzero)] at hn
          cases hn
        have hxy : x.same y := Decimal.same_iff.mpr (hxn.trans (h.trans hyk.symm))
        have heq : f = g := ((Binary64.same_iff_of_value? hx hy).mp hxy).resolve_right
          fun hzeros => hzero ((Binary64.isZero_iff_of_value? hx).mp hzeros.1)
        simp [ofNumber, isDouble, ← hint, hn, hf, hg, heq]

end Msgpack

namespace Value

mutual

/-- Whether the numbers at each place of two values are both written as floating-point numbers, or
neither of them is. -/
def doublesAlike : Value → Value → Bool
  | ⟨_, c, _⟩, ⟨_, d, _⟩ =>
    match c, d with
    | .number n, .number k => Msgpack.isDouble n == Msgpack.isDouble k
    | .items vs, .items ws => doublesAlikeEach vs ws
    | .entries es, .entries fs => doublesAlikeEntries es fs
    | _, _ => true
termination_by structural v => v

/-- Whether this holds place by place. -/
def doublesAlikeEach : List Value → List Value → Bool
  | v :: vs, w :: ws => v.doublesAlike w && doublesAlikeEach vs ws
  | _, _ => true
termination_by structural vs => vs

/-- Whether this holds entry by entry. -/
def doublesAlikeEntries : Entries Value → Entries Value → Bool
  | (_, v) :: es, (_, w) :: fs => v.doublesAlike w && doublesAlikeEntries es fs
  | _, _ => true
termination_by structural es => es

end

theorem doublesAlikeEach_of_forall₂ {vs ws : List Value}
    (h : List.Forall₂ (fun v w => v.doublesAlike w) vs ws) : doublesAlikeEach vs ws := by
  induction h with
  | nil => rfl
  | cons h _ ih => simp [doublesAlikeEach, h, ih]

theorem doublesAlikeEntries_of_forall₂ {es fs : Entries Value}
    (h : List.Forall₂ (fun e f => e.2.doublesAlike f.2) es fs) : doublesAlikeEntries es fs := by
  induction h with
  | nil => rfl
  | cons h _ ih => simp [doublesAlikeEntries, h, ih]

end Value

open Value

/-! ### JSON -/

namespace Json

variable {v w : Value} {s t own own' : Ty} {j : Json} {marks marks' : Marks}

/-- Two values are written alike in equal slots. -/
def Alike (v w : Value) : Prop :=
  ∀ s t j, s.WellFormed → t.WellFormed → s.same t → v.toJson s = .ok j → w.toJson t = .ok j

/-- Equal known values are written alike if they are in slots that are not `dynamic`. -/
theorem alike_of_known (hv : v.WellFormed) (hw : w.WellFormed) (hsame : v.same w)
    (hknown : v.isKnown) (hknown' : w.isKnown)
    (h : ∀ s t j, s.WellFormed → t.WellFormed → s.same t → s.isDynamic = false →
      v.toJson s = .ok j → w.toJson t = .ok j) : Alike v w := by
  intro s t j hs ht hst hj
  cases hdynamic : s.isDynamic with
  | false => exact h s t j hs ht hst hdynamic hj
  | true =>
    have hty := (same_iff.mp hsame).1
    have hconcrete := hv.isDynamic_eq_false hknown
    obtain ⟨inner, spec, hinner, hspec, rfl⟩ :=
      exists_of_toJson_of_isDynamic hdynamic hknown hconcrete hj
    have hinner' := h _ _ _ hv.type_wellFormed hw.type_wellFormed hty hconcrete hinner
    have hspec' := Ty.toJson_of_same hv.type_wellFormed hw.type_wellFormed hty hspec
    have hdynamic' : t.isDynamic := isDynamic_of_same hst ▸ hdynamic
    rw [toJson_of_isDynamic hdynamic' hknown' (hw.isDynamic_eq_false hknown'), hinner']
    simp only [wrapJson, hdynamic', hspec', if_true]

theorem itemsToJson_of_alike {vs ws : List Value} {ss ts : List Ty} {js : List Json} {i k : Nat}
    (halike : List.Forall₂ Alike vs ws) (hst : List.Forall₂ (fun s t => s.same t) ss ts)
    (hlength : vs.length = ss.length) (hss : ∀ s ∈ ss, s.WellFormed)
    (hts : ∀ t ∈ ts, t.WellFormed) (hjs : itemsToJson i ss vs = .ok js) :
    itemsToJson k ts ws = .ok js := by
  induction halike generalizing ss ts js i k with
  | nil => exact hjs
  | cons h _ ih =>
    cases hst with
    | nil => cases hlength
    | cons hst hsts =>
      rw [List.forall_mem_cons] at hss hts
      obtain ⟨j, js', hj, hjs', rfl⟩ := exists_of_itemsToJson_cons hjs
      have hfirst := h _ _ j hss.1 hts.1 hst hj
      have hrest := @ih _ _ _ _ (k + 1) hsts (by simpa using hlength) hss.2 hts.2 hjs'
      simp only [itemsToJson, List.headD_cons, List.tail_cons, hfirst, hrest, Except.map]

theorem entriesToJson_of_alike {es fs : Entries Value} {gs : List (String × Json)}
    (halike : List.Forall₂ (fun e f => e.1 = f.1 ∧ Alike e.2 f.2) es fs) (hs : s.WellFormed)
    (ht : t.WellFormed) (hst : s.same t) (hgs : entriesToJson (slotOf? s) es = .ok gs) :
    entriesToJson (slotOf? t) fs = .ok gs := by
  induction halike generalizing gs with
  | nil => exact hgs
  | @cons e f es fs hef _ ih =>
    obtain ⟨k, v⟩ := e
    obtain ⟨_, w⟩ := f
    obtain ⟨rfl, h⟩ := hef
    obtain ⟨u, j, gs', hu, hj, hgs', rfl⟩ := exists_of_entriesToJson_cons hgs
    obtain ⟨u', hu', huu'⟩ := exists_slotOf_of_same hst hu
    have hfirst := h u u' j (slotOf?_wellFormed hs hu) (slotOf?_wellFormed ht hu') huu' hj
    simp only [entriesToJson, hu', hfirst, ih hgs', Except.map]

/-- Entries without the reserved key are written if there is a slot for each of them. -/
theorem toJson_entries_of_same {es fs : Entries Value} {gs : List (String × Json)}
    (hs : s.isDynamic = false) (hst : s.same t) (hkeys : ∀ f ∈ fs, f.1 ≠ unknownKey)
    (h : toJson s ⟨own, .entries es, marks⟩ = .ok j)
    (hgs : entriesToJson (slotOf? t) fs = .ok gs) :
    toJson t ⟨own', .entries fs, marks'⟩ = .ok (.object gs) := by
  have hreserved : fs.any (·.1 == unknownKey) = false := by
    simpa [List.any_eq_false] using hkeys
  have hwritten : unlessReserved fs ((entriesToJson (slotOf? t) fs).map .object) =
      .ok (.object gs) := by
    rw [unlessReserved, hreserved, hgs]
    rfl
  cases s <;> first | (cases hs; done) | cases h | skip
  all_goals cases t <;> first | exact hwritten | cases hst

/-- Equal values are written alike. -/
theorem alike (hv : v.WellFormed) (hw : w.WellFormed) (hsame : v.same w) : Alike v w := by
  induction v, w, hsame using same_induction with
  | null => exact fun _ _ _ _ _ _ hj => hj
  | capsule hsame =>
    refine alike_of_known hv hw hsame rfl rfl fun s t j _ _ _ hs hj => ?_
    cases s <;> cases hj
  | bool hsame | string hsame =>
    refine alike_of_known hv hw hsame rfl rfl fun s t j _ _ hst hs hj => ?_
    cases s <;> first | (cases hs; done) | (cases hj; done) | skip
    cases t <;> first | exact hj | cases hst
  | number hsame hnumber =>
    refine alike_of_known hv hw hsame rfl rfl fun s t j _ _ hst hs hj => ?_
    cases s <;> first | (cases hs; done) | (cases hj; done) | skip
    cases t <;> first | (cases hst; done) | skip
    obtain rfl := Except.ok.inj hj
    exact congrArg (fun text => Except.ok (Json.number text))
      (Decimal.plain_eq_of_same hnumber).symm
  | items hsame ih =>
    have halike := ih.imp_of_mem fun v hmem w hmem' ⟨_, h⟩ =>
      h (hv.of_mem_items hmem) (hw.of_mem_items hmem')
    refine alike_of_known hv hw hsame rfl rfl fun s t j hs ht hst hdynamic hj => ?_
    obtain ⟨ss, js, hss, hjs, rfl⟩ := exists_of_toJson_items hdynamic hj
    obtain ⟨ts, hts, hsts⟩ := exists_slots_of_same hst hss
    have hwritten := itemsToJson_of_alike (k := 0) halike hsts (length_of_slots? hss)
      (fills_of_slots? hs hss).2.1 (fills_of_slots? ht hts).2.1 hjs
    rw [toJson_items (ih.length_eq ▸ hts), hwritten]
    rfl
  | @entries _ _ es fs _ _ hsame ih =>
    have halike : List.Forall₂ (fun e f => e.1 = f.1 ∧ Alike e.2 f.2) es fs :=
      ih.imp_of_mem fun e hmem f hmem' ⟨hkey, _, h⟩ =>
        ⟨hkey, h (hv.of_mem_entries hmem) (hw.of_mem_entries hmem')⟩
    refine alike_of_known hv hw hsame rfl rfl fun s t j hs ht hst hdynamic hj => ?_
    obtain ⟨hkeys, gs, hgs, rfl⟩ := exists_of_toJson_entries hdynamic hj
    refine toJson_entries_of_same hdynamic hst (fun f hf => ?_) hj
      (entriesToJson_of_alike halike hs ht hst hgs)
    obtain ⟨e, he, hkey, -⟩ := ih.exists_of_mem_right hf
    exact hkey ▸ hkeys e he

end Json

/-! ### MessagePack -/

namespace Msgpack

variable {v w : Value} {s t own own' : Ty} {m : Msgpack} {marks marks' : Marks}

/-- Two values are written into equal slots as documents that are the same exactly if their
floating-point numbers are at the same places. -/
def Alike (v w : Value) : Prop :=
  ∀ s t m, s.WellFormed → t.WellFormed → s.same t → v.toMsgpack s = .ok m →
    ∃ m', w.toMsgpack t = .ok m' ∧ (m = m' ↔ v.doublesAlike w)

/-- Equal known values are written alike if they are in slots that are not `dynamic`. -/
theorem alike_of_known (hv : v.WellFormed) (hw : w.WellFormed) (hsame : v.same w)
    (hknown : v.isKnown) (hknown' : w.isKnown)
    (h : ∀ s t m, s.WellFormed → t.WellFormed → s.same t → s.isDynamic = false →
      v.toMsgpack s = .ok m → ∃ m', w.toMsgpack t = .ok m' ∧ (m = m' ↔ v.doublesAlike w)) :
    Alike v w := by
  intro s t m hs ht hst hm
  cases hdynamic : s.isDynamic with
  | false => exact h s t m hs ht hst hdynamic hm
  | true =>
    have hty := (same_iff.mp hsame).1
    have hconcrete := hv.isDynamic_eq_false hknown
    obtain ⟨inner, j, hinner, hj, rfl⟩ :=
      exists_of_toMsgpack_of_isDynamic hdynamic hknown hconcrete hm
    obtain ⟨inner', hinner', hiff⟩ :=
      h _ _ _ hv.type_wellFormed hw.type_wellFormed hty hconcrete hinner
    have hj' := Ty.toJson_of_same hv.type_wellFormed hw.type_wellFormed hty hj
    have hdynamic' : t.isDynamic := isDynamic_of_same hst ▸ hdynamic
    refine ⟨.array [.bin (Text.Utf8.ofString j.compact), inner'], ?_, by simpa using hiff⟩
    rw [toMsgpack_of_isDynamic hdynamic' hknown' (hw.isDynamic_eq_false hknown'), hinner']
    simp only [wrapMsgpack, hdynamic', hj', if_true, Except.map]

theorem itemsToMsgpack_of_alike {vs ws : List Value} {ss ts : List Ty} {ms : List Msgpack}
    {i k : Nat} (halike : List.Forall₂ Alike vs ws)
    (hst : List.Forall₂ (fun s t => s.same t) ss ts) (hlength : vs.length = ss.length)
    (hss : ∀ s ∈ ss, s.WellFormed) (hts : ∀ t ∈ ts, t.WellFormed)
    (hms : itemsToMsgpack i ss vs = .ok ms) :
    ∃ ms', itemsToMsgpack k ts ws = .ok ms' ∧ (ms = ms' ↔ doublesAlikeEach vs ws) := by
  induction halike generalizing ss ts ms i k with
  | nil => exact ⟨ms, hms, by simp [doublesAlikeEach]⟩
  | cons h _ ih =>
    cases hst with
    | nil => cases hlength
    | cons hst hsts =>
      rw [List.forall_mem_cons] at hss hts
      obtain ⟨m, rest, hm, hrest, rfl⟩ := exists_of_itemsToMsgpack_cons hms
      obtain ⟨m', hm', hiff⟩ := h _ _ m hss.1 hts.1 hst hm
      obtain ⟨rest', hrest', hiffs⟩ :=
        @ih _ _ _ _ (k + 1) hsts (by simpa using hlength) hss.2 hts.2 hrest
      refine ⟨m' :: rest', ?_, by simp [doublesAlikeEach, hiff, hiffs]⟩
      simp only [itemsToMsgpack, List.headD_cons, List.tail_cons, hm', hrest', Except.map]

theorem entriesToMsgpack_of_alike {es fs : Entries Value} {ms : List (Msgpack × Msgpack)}
    (halike : List.Forall₂ (fun e f => e.1 = f.1 ∧ Alike e.2 f.2) es fs) (hs : s.WellFormed)
    (ht : t.WellFormed) (hst : s.same t) (hms : entriesToMsgpack (slotOf? s) es = .ok ms) :
    ∃ ms', entriesToMsgpack (slotOf? t) fs = .ok ms' ∧ (ms = ms' ↔ doublesAlikeEntries es fs) := by
  induction halike generalizing ms with
  | nil => exact ⟨ms, hms, by simp [doublesAlikeEntries]⟩
  | @cons e f es fs hef _ ih =>
    obtain ⟨k, v⟩ := e
    obtain ⟨_, w⟩ := f
    obtain ⟨rfl, h⟩ := hef
    obtain ⟨u, m, rest, hu, hm, hrest, rfl⟩ := exists_of_entriesToMsgpack_cons hms
    obtain ⟨u', hu', huu'⟩ := exists_slotOf_of_same hst hu
    obtain ⟨m', hm', hiff⟩ :=
      h u u' m (slotOf?_wellFormed hs hu) (slotOf?_wellFormed ht hu') huu' hm
    obtain ⟨rest', hrest', hiffs⟩ := ih hrest
    refine ⟨(ofText k, m') :: rest', ?_, by simp [doublesAlikeEntries, hiff, hiffs]⟩
    simp only [entriesToMsgpack, hu', hm', hrest', Except.map]

/-- Entries are written if there is a slot for each of them. -/
theorem toMsgpack_entries_of_same {es fs : Entries Value} (hs : s.isDynamic = false)
    (hst : s.same t) (h : toMsgpack s ⟨own, .entries es, marks⟩ = .ok m) :
    toMsgpack t ⟨own', .entries fs, marks'⟩ = (entriesToMsgpack (slotOf? t) fs).map .map := by
  cases s <;> first | (cases hs; done) | cases h | skip
  all_goals cases t <;> first | rfl | cases hst

/-- Equal values are written alike. -/
theorem alike (hv : v.WellFormed) (hw : w.WellFormed) (hsame : v.same w) : Alike v w := by
  induction v, w, hsame using same_induction with
  | null => exact fun _ _ m _ _ _ hm => ⟨m, hm, by simp [doublesAlike]⟩
  | capsule hsame =>
    refine alike_of_known hv hw hsame rfl rfl fun s t m _ _ _ hs hm => ?_
    cases writtenAs_of_toMsgpack hs hm
  | bool hsame | string hsame =>
    refine alike_of_known hv hw hsame rfl rfl fun s t m _ _ hst hs hm => ?_
    cases s <;> first | (cases hs; done) | (cases hm; done) | skip
    cases t <;> first | exact ⟨m, hm, by simp [doublesAlike]⟩ | cases hst
  | number hsame hnumber =>
    refine alike_of_known hv hw hsame rfl rfl fun s t m _ _ hst hs hm => ?_
    cases s <;> first | (cases hs; done) | (cases hm; done) | skip
    cases t <;> first | (cases hst; done) | skip
    obtain rfl := Except.ok.inj hm
    exact ⟨_, rfl, by simpa [doublesAlike] using ofNumber_eq_iff_of_same hnumber⟩
  | items hsame ih =>
    have halike := ih.imp_of_mem fun v hmem w hmem' ⟨_, h⟩ =>
      h (hv.of_mem_items hmem) (hw.of_mem_items hmem')
    refine alike_of_known hv hw hsame rfl rfl fun s t m hs ht hst hdynamic hm => ?_
    obtain ⟨ss, ms, hss, hms, rfl⟩ := exists_of_toMsgpack_items hdynamic hm
    obtain ⟨ts, hts, hsts⟩ := exists_slots_of_same hst hss
    obtain ⟨ms', hms', hiff⟩ := itemsToMsgpack_of_alike (k := 0) halike hsts
      (length_of_slots? hss) (fills_of_slots? hs hss).2.1 (fills_of_slots? ht hts).2.1 hms
    refine ⟨.array ms', ?_, by simpa [doublesAlike] using hiff⟩
    rw [toMsgpack_items (ih.length_eq ▸ hts), hms']
    rfl
  | @entries _ _ es fs _ _ hsame ih =>
    have halike : List.Forall₂ (fun e f => e.1 = f.1 ∧ Alike e.2 f.2) es fs :=
      ih.imp_of_mem fun e hmem f hmem' ⟨hkey, _, h⟩ =>
        ⟨hkey, h (hv.of_mem_entries hmem) (hw.of_mem_entries hmem')⟩
    refine alike_of_known hv hw hsame rfl rfl fun s t m hs ht hst hdynamic hm => ?_
    obtain ⟨ms, hms, rfl⟩ := exists_of_toMsgpack_entries hdynamic hm
    obtain ⟨ms', hms', hiff⟩ := entriesToMsgpack_of_alike halike hs ht hst hms
    refine ⟨.map ms', ?_, by simpa [doublesAlike] using hiff⟩
    rw [toMsgpack_entries_of_same hdynamic hst hm, hms']
    rfl

end Msgpack

/-! ### Encodings -/

namespace Value

/-- Equal values have the same text in every slot, and bytes in the same slots. The bytes are the
same if either both numbers at each place are written as floating-point numbers or neither is, and
only then, as long as the documents fit the format. -/
theorem encode_of_same {v w : Value} {slot : Ty} (hv : v.WellFormed) (hw : w.WellFormed)
    (hslot : slot.WellFormed) (hsame : v == w) :
    (∀ text, v.encodeJson slot = .ok text ↔ w.encodeJson slot = .ok text) ∧
    ((∃ bytes, v.encodeMsgpack slot = .ok bytes) ↔ ∃ bytes, w.encodeMsgpack slot = .ok bytes) ∧
    (v.doublesAlike w →
      ∀ bytes, v.encodeMsgpack slot = .ok bytes ↔ w.encodeMsgpack slot = .ok bytes) ∧
    (∀ m m', v.toMsgpack slot = .ok m → w.toMsgpack slot = .ok m' → m.Fits → m'.Fits →
      m.write = m'.write → v.doublesAlike w) := by
  have hsame' := same_symm hv hw hsame
  have hrefl := hslot.same_refl
  have hjson {x y : Value} {text : String} (h : Json.Alike x y)
      (htext : x.encodeJson slot = .ok text) : y.encodeJson slot = .ok text := by
    obtain ⟨j, hj, rfl⟩ := Except.map_eq_ok_iff.mp htext
    exact Except.map_eq_ok_iff.mpr ⟨j, h slot slot j hslot hslot hrefl hj, rfl⟩
  have hmsgpack {x y : Value} (h : Msgpack.Alike x y) :
      (∃ bytes, x.encodeMsgpack slot = .ok bytes) → ∃ bytes, y.encodeMsgpack slot = .ok bytes := by
    rintro ⟨_, hbytes⟩
    obtain ⟨m, hm, -⟩ := Except.map_eq_ok_iff.mp hbytes
    obtain ⟨m', hm', -⟩ := h slot slot m hslot hslot hrefl hm
    exact ⟨m'.write, Except.map_eq_ok_iff.mpr ⟨m', hm', rfl⟩⟩
  have halike := Msgpack.alike hv hw hsame
  have hforth := hmsgpack halike
  have hback := hmsgpack (Msgpack.alike hw hv hsame')
  -- Whatever the two documents are, they are the same exactly if the numbers are written alike.
  have hdocuments : ∀ m m', v.toMsgpack slot = .ok m → w.toMsgpack slot = .ok m' →
      (m = m' ↔ v.doublesAlike w) := by
    intro m m' hm hm'
    obtain ⟨_, hwritten, hiff⟩ := halike slot slot m hslot hslot hrefl hm
    exact Except.ok.inj (hwritten.symm.trans hm') ▸ hiff
  refine ⟨fun text => ⟨hjson (Json.alike hv hw hsame), hjson (Json.alike hw hv hsame')⟩,
    ⟨hforth, hback⟩, fun hdoubles bytes => ?_, fun m m' hm hm' hfits hfits' hwrite =>
      (hdocuments m m' hm hm').mp (Msgpack.write_injective hfits hfits' hwrite)⟩
  constructor
  · intro hbytes
    obtain ⟨m, hm, rfl⟩ := Except.map_eq_ok_iff.mp hbytes
    obtain ⟨_, hbytes'⟩ := hforth ⟨_, hbytes⟩
    obtain ⟨m', hm', -⟩ := Except.map_eq_ok_iff.mp hbytes'
    rw [(hdocuments m m' hm hm').mpr hdoubles]
    exact Except.map_eq_ok_iff.mpr ⟨m', hm', rfl⟩
  · intro hbytes
    obtain ⟨m', hm', rfl⟩ := Except.map_eq_ok_iff.mp hbytes
    obtain ⟨_, hbytes'⟩ := hback ⟨_, hbytes⟩
    obtain ⟨m, hm, -⟩ := Except.map_eq_ok_iff.mp hbytes'
    rw [← (hdocuments m m' hm hm').mpr hdoubles]
    exact Except.map_eq_ok_iff.mpr ⟨m, hm, rfl⟩

private theorem wellFormed_mixed {n k : Decimal} {m : Marks} :
    WellFormed ⟨.list .dynamic, .items [single n, .number k], m⟩ := by
  have hsingle : (single n).WellFormed :=
    .tuple (by simpa using .number) (by simpa using .number) (.cons (.of_same rfl) .nil)
  refine .list .dynamic ?_ ?_ ?_ <;> simp only [List.forall_mem_cons]
  · exact ⟨hsingle, .number, nofun⟩
  · exact ⟨.of_isDynamic rfl, .of_isDynamic rfl, nofun⟩
  · exact ⟨rfl, rfl, nofun⟩

/-- An integer and a fraction in two forms each, with and without a mark, in nested `dynamic`
slots. -/
theorem encode_of_same_mixed :
    let v : Value := ⟨.list .dynamic, .items [single ⟨10, 1⟩, .number ⟨5, 1⟩], .ofList ["x"]⟩
    let w : Value := ⟨.list .dynamic, .items [single ⟨1, 0⟩, .number ⟨50, 2⟩], .empty⟩
    v.WellFormed ∧ w.WellFormed ∧ (v == w) ∧
      ∃ bytes, v.encodeMsgpack .dynamic = .ok bytes ∧ w.encodeMsgpack .dynamic = .ok bytes := by
  intro v w
  have hsame : v == w := by decide +kernel
  obtain ⟨-, -, hbytes, -⟩ := encode_of_same wellFormed_mixed wellFormed_mixed .dynamic hsame
  have hencoded : ∃ bytes, v.encodeMsgpack .dynamic = .ok bytes := ⟨_, rfl⟩
  obtain ⟨bytes, hv⟩ := hencoded
  exact ⟨wellFormed_mixed, wellFormed_mixed, hsame, bytes, hv,
    (hbytes (by decide +kernel) bytes).mp hv⟩

/-- The same number is written as a text with decimal places and as a double without. -/
theorem encode_of_same_longDouble :
    (Value.number longDouble).WellFormed ∧ (Value.number longWhole).WellFormed ∧
      (Value.number longDouble == Value.number longWhole) ∧
      ∃ bytes bytes', (Value.number longDouble).encodeMsgpack .number = .ok bytes ∧
        (Value.number longWhole).encodeMsgpack .number = .ok bytes' ∧ bytes ≠ bytes' := by
  refine ⟨.number, .number, by decide +kernel, _, _, rfl, rfl, ?_⟩
  decide +kernel

end Value

end TypedData
