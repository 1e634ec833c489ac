import TypedData.Proofs.Value.Classes
import TypedData.Proofs.Value.SetMarks
import TypedData.Proofs.Wire.Distinct

/-!
# Sets of the same elements

A set does not depend on the order in which its elements were given, nor on how often each of them
was. For elements without `dynamic` in their type it is even enough that they are equal as data,
provided that equal ones are encoded alike: sets go by the encodings of their elements, and equal
numbers may be written in different ways.

## Main definitions

* `Value.Concrete` — values known at every depth that can be written

## Main results

* `Value.convexClasses_same` — nothing comes between equal elements that are encoded alike
* `Value.sequence_set_of_same_elements` — sets of equal elements are equal and are encoded alike
-/

namespace TypedData.Value

variable {v w x : Value} {t : Ty} {P : Value → Prop} {vs ws xs ys : List Value}

/-! ### Writing -/

theorem exists_itemsToMsgpack {slots : List Ty}
    (h : List.Forall₂ (fun v t => ∃ m, v.toMsgpack t = .ok m) vs slots) (i : Nat) :
    ∃ ms, itemsToMsgpack i slots vs = .ok ms := by
  induction h generalizing i with
  | nil => exact ⟨[], rfl⟩
  | cons hm _ ih =>
    obtain ⟨m, hm⟩ := hm
    obtain ⟨ms, hms⟩ := ih (i + 1)
    exact ⟨m :: ms, by simp only [itemsToMsgpack, List.headD_cons, List.tail_cons, hm, hms,
      Except.map]⟩

theorem exists_entriesToMsgpack {slotOf : String → Option Ty} {es : Entries Value}
    (h : ∀ e ∈ es, ∃ t, slotOf e.1 = some t ∧ ∃ m, e.2.toMsgpack t = .ok m) :
    ∃ ms, entriesToMsgpack slotOf es = .ok ms := by
  induction es with
  | nil => exact ⟨[], rfl⟩
  | cons e es ih =>
    obtain ⟨⟨t, ht, m, hm⟩, hes⟩ := List.forall_mem_cons.mp h
    obtain ⟨ms, hms⟩ := ih hes
    exact ⟨(.ofText e.1, m) :: ms, by simp only [entriesToMsgpack, ht, hm, hms, Except.map]⟩

/-- A known value without capsules in its type is written into a slot if it is written into those
of its type. -/
theorem exists_toMsgpack_of_known (hv : v.WellFormed) (hknown : v.isKnown)
    (hcapsule : v.ty.hasCapsule = false) (ht : t.WellFormed) (hin : v.InSlot t)
    (h : ∀ u, u.WellFormed → v.ty.same u → ∃ m, v.toMsgpack u = .ok m) :
    ∃ m, v.toMsgpack t = .ok m := by
  rcases hin with hdynamic | hsame
  · have hown := hv.type_wellFormed
    obtain ⟨j, hj⟩ := Ty.exists_describes hown hcapsule
    obtain ⟨m, hm⟩ := h v.ty hown hown.same_refl
    refine ⟨.array [.bin (Text.Utf8.ofString j.compact), m], ?_⟩
    rw [Msgpack.toMsgpack_of_isDynamic hdynamic hknown (hv.isDynamic_eq_false hknown), wrapMsgpack,
      if_pos hdynamic, hj.written, hm]
    rfl
  · exact h t ht hsame

/-- Every value without capsules in the types inside is written into its slots. -/
theorem exists_toMsgpack (hv : v.WellFormed) (ht : t.WellFormed) (hin : v.InSlot t)
    (hcapsule : ∀ w, v.Contains w → w.ty.hasCapsule = false) : ∃ m, v.toMsgpack t = .ok m := by
  -- What is known is written as its own type, which may stand beside it in a `dynamic` slot.
  induction v using Value.induction generalizing t with
  | null => exact ⟨_, rfl⟩
  | unknown => exact ⟨_, rfl⟩
  | bool | number | string =>
    refine exists_toMsgpack_of_known hv rfl (hcapsule _ .self) ht hin fun u _ hsame => ?_
    cases hv
    obtain rfl := eq_of_same_of_isPrimitive rfl hsame
    exact ⟨_, rfl⟩
  | capsule =>
    cases hv
    cases hcapsule _ .self
  | items own vs m ih =>
    refine exists_toMsgpack_of_known hv rfl (hcapsule _ .self) ht hin fun u hu hsame => ?_
    obtain ⟨slots, hslots, hin, hwell⟩ := hv.exists_slots_of_same hu hsame
    have heach : List.Forall₂ (fun v t => ∃ m, v.toMsgpack t = .ok m) vs slots := by
      refine hin.imp_of_mem fun v hmem t ht hslot => ?_
      exact ih v hmem (hv.of_mem_items hmem) (hwell t ht) hslot
        fun w hw => hcapsule w (.of_mem_parts hmem hw)
    obtain ⟨ms, hms⟩ := exists_itemsToMsgpack heach 0
    exact ⟨.array ms, by rw [Msgpack.toMsgpack_items hslots, hms]; rfl⟩
  | entries own es m ih =>
    refine exists_toMsgpack_of_known hv rfl (hcapsule _ .self) ht hin fun u hu hsame => ?_
    have heach : ∀ e ∈ es, ∃ t, slotOf? u e.1 = some t ∧ ∃ m, e.2.toMsgpack t = .ok m := by
      intro e he
      obtain ⟨t, ht, hslot, hwell⟩ := hv.exists_slotOf_of_same hu hsame he
      exact ⟨t, ht, ih e he (hv.of_mem_entries he) hwell hslot
        fun w hw => hcapsule w (.of_mem_parts (List.mem_map_of_mem he) hw)⟩
    obtain ⟨ms, hms⟩ := exists_entriesToMsgpack heach
    exact ⟨.map ms, by rw [Msgpack.toMsgpack_entries hv hsame, hms]; rfl⟩

/-- So is every value of plain type. -/
theorem exists_toMsgpack_of_plain (hv : v.WellFormed) (ht : t.WellFormed) (hplain : v.ty.Plain)
    (hin : v.InSlot t) : ∃ m, v.toMsgpack t = .ok m :=
  exists_toMsgpack hv ht hin fun _ hw => (hv.plain_of_contains hplain hw).noCapsule

/-! ### Concrete elements -/

/-- An element for a slot that is known at every depth and is encoded as its own type, with lengths
that can be written. -/
structure Concrete (t : Ty) (v : Value) : Prop where
  wellFormed : v.WellFormed
  inSlot : v.InSlot t
  known : v.isWhollyKnown
  fits : ∀ m, v.toMsgpack v.ty = .ok m → m.Fits

theorem Concrete.of_sameData (h : v.Concrete t) (hdata : SameData w v) : w.Concrete t := by
  refine ⟨h.wellFormed.of_sameData hdata, h.inSlot.of_sameData hdata,
    isWhollyKnown_of_sameData hdata h.known, ?_⟩
  rw [hdata.1, hdata.toMsgpack_eq]
  exact h.fits

theorem Concrete.encoded (ht : t.WellFormed) (hplain : t.Plain) (hv : v.Concrete t) :
    v.Encoded := by
  have hty := hv.wellFormed.type_wellFormed
  have hown := hplain.of_same hty ht (hv.inSlot.same hplain.isDynamic_eq_false)
  obtain ⟨m, hm⟩ := exists_toMsgpack_of_plain hv.wellFormed hty hown (.of_same hty.same_refl)
  exact ⟨m, hm, hv.fits m hm⟩

theorem Concrete.matched (ht : t.WellFormed) (hplain : t.Plain)
    (hv : v.Concrete t) (hw : w.Concrete t) : Msgpack.Matched v w v.ty w.ty :=
  .of_inSlot ht hv.wellFormed hw.wellFormed hv.inSlot hw.inSlot hplain.noDynamic

/-- Nothing comes between equal elements that are encoded alike. -/
theorem convexClasses_same (ht : t.WellFormed) (hplain : t.Plain)
    (hP : ∀ v, P v → v.Concrete t)
    (hbytes : ∀ v w, P v → P w → v.same w → rank v.content = 4 → ownBytes? v = ownBytes? w) :
    ConvexClasses compare (fun v w => v.same w) P where
  refl a ha := same_refl (hP a ha).wellFormed (hP a ha).known
  symm a b ha hb := same_symm (hP a ha).wellFormed (hP b hb).wellFormed
  trans a b c ha _ _ := same_trans (hP a ha).wellFormed
  between a x b ha hx hb hax hxb hab := by
    have hwell := (hP a ha).wellFormed
    have hwell' := (hP x hx).wellFormed
    have henc := (hP a ha).encoded ht hplain
    have of_data (h : a.compareData x = .eq) : a.same x :=
      same_of_ownBytes?_eq ((hP a ha).matched ht hplain (hP x hx)) henc
        ((hP x hx).encoded ht hplain) (hP a ha).known (henc.compareData_eq_eq_iff.mp h).symm
    obtain hrank | hleaf | hcontainer := rank_cases_of_same hab
    · exact of_data (compareData_eq_eq_of_rank hab hax hxb hrank)
    · exact same_symm hwell' hwell (same_between hwell hwell' hax hxb hab hleaf)
    · have hdata := henc.compareData_eq_eq_iff.mpr (hbytes a b ha hb hab hcontainer).symm
      exact of_data
        (compareData_between hcontainer (rank_of_same hab ▸ hcontainer) hax hxb hdata)

/-! ### Canonical elements -/

variable (h : ConvexClasses compare (fun v w => v.same w) P)
include h

/-- Every given element has an equal canonical one. -/
theorem exists_canonical_same (hv : v ∈ vs) (hPv : P v) : ∃ w ∈ canonicalSet vs, v.same w := by
  obtain ⟨w, hw, hdata | hsame⟩ := exists_mem_canonicalSet_same hv
  · have hself : (v == v) = true := h.refl v hPv
    exact ⟨w, hw, ((SameData.refl v).beq_eq hdata).symm.trans hself⟩
  · exact ⟨w, hw, hsame⟩

/-- Every canonical element has an equal one among those of a list with equal elements. -/
theorem exists_same_of_mem_canonicalSet (hxs : ∀ x ∈ xs, P x) (hys : ∀ y ∈ ys, P y)
    (hP : ∀ v w, SameData v w → P w → P v) (hxy : ∀ x ∈ xs, ∃ y ∈ ys, x.same y)
    (hv : v ∈ canonicalSet xs) : ∃ w ∈ canonicalSet ys, v.same w := by
  obtain ⟨x, hx, hdata⟩ := exists_of_mem_canonicalSet hv
  obtain ⟨y, hy, hxy⟩ := hxy x hx
  obtain ⟨w, hw, hyw⟩ := exists_canonical_same h hy (hys y hy)
  obtain ⟨y', hy', hdata'⟩ := exists_of_mem_canonicalSet hw
  have hxw := h.trans x y w (hxs x hx) (hys y hy) (hP w y' hdata' (hys y' hy')) hxy hyw
  exact ⟨w, hw, (hdata.beq_eq (.refl w)).trans hxw⟩

/-- Equal canonical elements are neighbours, so there are none. -/
theorem pairwise_canonicalSet (hvs : ∀ v ∈ canonicalSet vs, P v) :
    (canonicalSet vs).Pairwise fun v w => ¬ v.same w := by
  have horder := inSetOrder_canonicalSet vs
  refine h.pairwise_of_isChain hvs horder.ordered (horder.apart.imp_of_mem_imp ?_)
  exact fun v w hv hw hne hsame =>
    absurd (h.symm v w (hvs v hv) (hvs w hw) hsame) (Bool.eq_false_iff.mp hne)

/-- Canonical elements of lists with equal elements agree place by place. -/
theorem forall₂_canonicalSet (hxs : ∀ x ∈ xs, P x) (hys : ∀ y ∈ ys, P y)
    (hP : ∀ v w, SameData v w → P w → P v) (hxy : ∀ x ∈ xs, ∃ y ∈ ys, x.same y)
    (hyx : ∀ y ∈ ys, ∃ x ∈ xs, y.same x) :
    List.Forall₂ (fun v w => v.same w) (canonicalSet xs) (canonicalSet ys) := by
  have hcanonical {vs : List Value} (hvs : ∀ v ∈ vs, P v) : ∀ v ∈ canonicalSet vs, P v := by
    intro v hv
    obtain ⟨w, hw, hdata⟩ := exists_of_mem_canonicalSet hv
    exact hP v w hdata (hvs w hw)
  exact h.forall₂ (hcanonical hxs) (hcanonical hys) (inSetOrder_canonicalSet xs).ordered
    (inSetOrder_canonicalSet ys).ordered (pairwise_canonicalSet h (hcanonical hxs))
    (pairwise_canonicalSet h (hcanonical hys))
    (fun _ => exists_same_of_mem_canonicalSet h hxs hys hP hxy)
    (fun _ => exists_same_of_mem_canonicalSet h hys hxs hP hyx)

omit h

/-! ### Sets -/

/-- Equal concrete elements are written alike in their slot, if equal numbers inside them are. -/
theorem toMsgpack_eq_of_same (ht : t.WellFormed) (hplain : t.Plain) (hv : v.Concrete t)
    (hw : w.Concrete t) (hsame : v.same w) (halike : Msgpack.NumbersAlike v w) :
    v.toMsgpack t = w.toMsgpack t := by
  have hslot := hv.inSlot.same hplain.isDynamic_eq_false
  have hslot' := hw.inSlot.same hplain.isDynamic_eq_false
  have hmatched : Msgpack.Matched v w t t :=
    ⟨hv.wellFormed, hw.wellFormed, ht, ht, ht.same_refl, hslot, hslot', hplain.noDynamic⟩
  have hown := hplain.of_same hv.wellFormed.type_wellFormed ht hslot
  obtain ⟨m, hm⟩ := exists_toMsgpack_of_plain hv.wellFormed ht hown hv.inSlot
  rw [hm, Msgpack.toMsgpack_of_same hmatched halike hsame hm]

/-- Elements that are written alike place by place make up the same array. -/
theorem itemsToMsgpack_eq (hvw : List.Forall₂ (fun v w => v.toMsgpack t = w.toMsgpack t) vs ws)
    (i : Nat) : itemsToMsgpack i (List.replicate vs.length t) vs =
      itemsToMsgpack i (List.replicate ws.length t) ws := by
  induction hvw generalizing i with
  | nil => rfl
  | cons hm _ ih =>
    simp only [itemsToMsgpack, List.length_cons, List.replicate_succ, List.headD_cons,
      List.tail_cons, hm, ih]

/-- Whether equal containers among some elements are encoded alike. -/
def EncodedAlike (vs : List Value) : Prop :=
  ∀ v ∈ vs, ∀ w ∈ vs, v == w → rank v.content = 4 → ownBytes? v = ownBytes? w

/-- Concrete elements of two lists, up to own marks, with nothing between equal ones. -/
theorem convexClasses_of_encodedAlike (ht : t.WellFormed) (hplain : t.Plain)
    (hvs : ∀ v ∈ vs, v.Concrete t) (hencoded : EncodedAlike vs) :
    ConvexClasses compare (fun v w => v.same w) fun v => ∃ x ∈ vs, SameData v x := by
  refine convexClasses_same ht hplain (fun v ⟨x, hx, hdata⟩ => (hvs x hx).of_sameData hdata) ?_
  rintro v w ⟨x, hx, hdata⟩ ⟨y, hy, hdata'⟩ hsame hrank
  rw [hdata.ownBytes?_eq, hdata'.ownBytes?_eq]
  exact hencoded x hx y hy ((hdata.beq_eq hdata').symm.trans hsame) (hdata.2 ▸ hrank)

/-- Equal elements inside which equal numbers are written alike are encoded alike. -/
theorem encodedAlike_of_numbersAlike (ht : t.WellFormed) (hplain : t.Plain)
    (hvs : ∀ v ∈ vs, v.Concrete t)
    (halike : ∀ v ∈ vs, ∀ w ∈ vs, v == w → Msgpack.NumbersAlike v w) : EncodedAlike vs := by
  intro v hv w hw hsame _
  by_contra hbytes
  exact not_numbersAlike_of_ownBytes?_ne ((hvs v hv).matched ht hplain (hvs w hw))
    ((hvs v hv).encoded ht hplain) hsame hbytes (halike v hv w hw hsame)

theorem sequence_set_of_concrete (hvs : ∀ v ∈ vs, v.Concrete t) :
    sequence (.set t) vs = ofContent (.set t) (.items (canonicalSet vs)) :=
  sequence_set_of_known (any_isUnknown_eq_false fun v hv => (hvs v hv).known)

theorem wellFormed_set_of_concrete (ht : t.WellFormed) (hvs : ∀ v ∈ vs, v.Concrete t) :
    (ofContent (.set t) (.items (canonicalSet vs))).WellFormed := by
  rw [← sequence_set_of_concrete hvs]
  exact .sequence (.set ht) (fun v hv => (hvs v hv).inSlot) fun v hv => (hvs v hv).wellFormed

/-- Sets whose elements are equal, whatever their order and however often each was given, are equal
place by place if equal containers among the elements are encoded alike. They are if equal numbers
inside equal elements are written alike, and then the sets have the same encoding. -/
theorem sequence_set_of_same_elements (ht : t.WellFormed) (hplain : t.Plain)
    (hxs : ∀ x ∈ xs, x.Concrete t) (hys : ∀ y ∈ ys, y.Concrete t)
    (hxy : ∀ x ∈ xs, ∃ y ∈ ys, x == y) (hyx : ∀ y ∈ ys, ∃ x ∈ xs, y == x) :
    (EncodedAlike (xs ++ ys) → sequence (.set t) xs == sequence (.set t) ys) ∧
    ((∀ v ∈ xs ++ ys, ∀ w ∈ xs ++ ys, v == w → Msgpack.NumbersAlike v w) →
      EncodedAlike (xs ++ ys) ∧
        ∃ bytes, (sequence (.set t) xs).encodeMsgpack (.set t) = .ok bytes ∧
          (sequence (.set t) ys).encodeMsgpack (.set t) = .ok bytes) := by
  have hall : ∀ v ∈ xs ++ ys, v.Concrete t :=
    fun v hv => (List.mem_append.mp hv).elim (hxs v) (hys v)
  have hplaces (hencoded : EncodedAlike (xs ++ ys)) :
      List.Forall₂ (fun v w => v.same w) (canonicalSet xs) (canonicalSet ys) := by
    refine forall₂_canonicalSet (convexClasses_of_encodedAlike ht hplain hall hencoded)
      (fun x hx => ⟨x, by simp [hx], .refl x⟩) (fun y hy => ⟨y, by simp [hy], .refl y⟩) ?_ hxy hyx
    rintro v w hdata ⟨x, hx, hdata'⟩
    exact ⟨x, hx, hdata.trans hdata'⟩
  rw [sequence_set_of_concrete hxs, sequence_set_of_concrete hys]
  refine ⟨fun hencoded => ?_, fun halike => ?_⟩
  · exact same_iff.mpr ⟨(Ty.WellFormed.set ht).same_refl, sameEach_iff.mpr (hplaces hencoded)⟩
  · have hencoded := encodedAlike_of_numbersAlike ht hplain hall halike
    refine ⟨hencoded, ?_⟩
    have hwritten : List.Forall₂ (fun v w => v.toMsgpack t = w.toMsgpack t)
        (canonicalSet xs) (canonicalSet ys) := by
      refine (hplaces hencoded).imp_of_mem fun v hv w hw hsame => ?_
      obtain ⟨x, hx, hdata⟩ := exists_of_mem_canonicalSet hv
      obtain ⟨y, hy, hdata'⟩ := exists_of_mem_canonicalSet hw
      have hxy : x.same y := (hdata.beq_eq hdata').symm.trans hsame
      rw [hdata.toMsgpack_eq, hdata'.toMsgpack_eq]
      exact toMsgpack_eq_of_same ht hplain (hxs x hx) (hys y hy) hxy
        (halike x (by simp [hx]) y (by simp [hy]) hxy)
    have hset := Ty.WellFormed.set ht
    obtain ⟨m, hm⟩ := exists_toMsgpack_of_plain (wellFormed_set_of_concrete ht hxs) hset
      ⟨hplain.noDynamic, hplain.noCapsule⟩ (.of_same hset.same_refl)
    have hm' : (ofContent (.set t) (.items (canonicalSet ys))).toMsgpack (.set t) = .ok m := by
      rw [← hm, ofContent, ofContent, Msgpack.toMsgpack_items rfl, Msgpack.toMsgpack_items rfl,
        itemsToMsgpack_eq hwritten]
    exact ⟨m.write, by rw [encodeMsgpack, hm]; rfl, by rw [encodeMsgpack, hm']; rfl⟩

/-! ### Sets of tuples of one number -/

theorem concrete_single {n : Decimal} (h : (Text.Utf8.ofString n.plain).length < 0x100000000) :
    (single n).Concrete (.tuple [.number]) where
  wellFormed := by
    refine .tuple (by simpa using .number) ?_ (.cons (.of_same rfl) .nil)
    simpa using .number
  inSlot := .of_same rfl
  known := rfl
  fits m hm := by
    obtain ⟨m', hm', hfits⟩ := encoded_single h
    exact Except.ok.inj (hm.symm.trans hm') ▸ hfits

theorem numbersAlike_single {n k : Decimal} (h : n.same k → n = k) :
    Msgpack.NumbersAlike (single n) (single k) := by
  have hinside {n' : Decimal} {x : Value} {i : Decimal} (hx : (single n').Contains x)
      (hi : x.asNumber? = some i) : i = n' := by
    rcases hx.eq_or_exists with rfl | ⟨y, hy, hx⟩
    · cases hi
    · obtain rfl := List.mem_singleton.mp hy
      rcases hx.eq_or_exists with rfl | ⟨z, hz, -⟩
      · exact (Option.some.inj hi).symm
      · cases hz
  intro x hx y hy i j hi hj hsame
  obtain rfl := hinside hx hi
  obtain rfl := hinside hy hj
  rw [h hsame]

/-- Two numbers in the one order, and the other way round with one of them repeated. -/
theorem sequence_set_of_same_elements_single :
    let xs := [single ⟨1, 0⟩, single ⟨2, 0⟩]
    let ys := [single ⟨2, 0⟩, single ⟨1, 0⟩, single ⟨1, 0⟩]
    (sequence (.set (.tuple [.number])) xs == sequence (.set (.tuple [.number])) ys) ∧
      ∃ bytes, (sequence (.set (.tuple [.number])) xs).encodeMsgpack (.set (.tuple [.number])) =
          .ok bytes ∧
        (sequence (.set (.tuple [.number])) ys).encodeMsgpack (.set (.tuple [.number])) =
          .ok bytes := by
  intro xs ys
  have hconcrete : ∀ x ∈ xs ++ ys, x.Concrete (.tuple [.number]) := by
    have hsmall : ∀ n ∈ [⟨1, 0⟩, ⟨2, 0⟩], (single n).Concrete (.tuple [.number]) := by
      simp only [List.forall_mem_cons, List.not_mem_nil, false_imp_iff, implies_true, and_true]
      exact ⟨concrete_single (by decide +kernel), concrete_single (by decide +kernel)⟩
    simp only [xs, ys, List.cons_append, List.nil_append, List.forall_mem_cons, List.not_mem_nil,
      false_imp_iff, implies_true, and_true]
    exact ⟨hsmall _ (by simp), hsmall _ (by simp), hsmall _ (by simp), hsmall _ (by simp),
      hsmall _ (by simp)⟩
  have halike : ∀ v ∈ xs ++ ys, ∀ w ∈ xs ++ ys, v == w → Msgpack.NumbersAlike v w := by
    intro v hv w hw _
    obtain ⟨n, hn, rfl⟩ : ∃ n ∈ [⟨1, 0⟩, ⟨2, 0⟩], single n = v := by
      simpa [xs, ys, or_comm, or_left_comm, eq_comm] using hv
    obtain ⟨k, hk, rfl⟩ : ∃ n ∈ [⟨1, 0⟩, ⟨2, 0⟩], single n = w := by
      simpa [xs, ys, or_comm, or_left_comm, eq_comm] using hw
    have hnumbers : ∀ n ∈ ([⟨1, 0⟩, ⟨2, 0⟩] : List Decimal),
        ∀ k ∈ ([⟨1, 0⟩, ⟨2, 0⟩] : List Decimal),
        n.same k → n = k := by decide +kernel
    exact numbersAlike_single (hnumbers n hn k hk)
  obtain ⟨hsame, hwritten⟩ := @sequence_set_of_same_elements _ xs ys
    (.tuple (by simpa using .number)) ⟨rfl, rfl⟩ (fun x hx => hconcrete x (by simp [hx]))
    (fun y hy => hconcrete y (by simp [hy])) (by decide +kernel) (by decide +kernel)
  obtain ⟨hencoded, hbytes⟩ := hwritten halike
  exact ⟨hsame hencoded, hbytes⟩

/-- Equal numbers that are written in different ways make sets of equal elements differ: what is
written as a text comes after an integer, and what is written as a double before it. -/
theorem sequence_set_of_same_elements_turned :
    let xs := [single longDouble, single ⟨5000000000, 0⟩]
    let ys := [single longWhole, single ⟨5000000000, 0⟩]
    (∀ x ∈ xs, x.Concrete (.tuple [.number])) ∧ (∀ y ∈ ys, y.Concrete (.tuple [.number])) ∧
      (∀ x ∈ xs, ∃ y ∈ ys, x == y) ∧ (∀ y ∈ ys, ∃ x ∈ xs, y == x) ∧
      (sequence (.set (.tuple [.number])) xs == sequence (.set (.tuple [.number])) ys) = false := by
  intro xs ys
  have hlength : ∀ n ∈ [longDouble, longWhole, ⟨5000000000, 0⟩],
      (Text.Utf8.ofString n.plain).length < 0x100000000 := by decide +kernel
  have hconcrete : ∀ n ∈ [longDouble, longWhole, ⟨5000000000, 0⟩],
      (single n).Concrete (.tuple [.number]) := fun n hn => concrete_single (hlength n hn)
  have hxs : canonicalSet xs = [single ⟨5000000000, 0⟩, single longDouble] :=
    canonicalSet_pair (by decide +kernel) (by decide +kernel)
  have hys : canonicalSet ys = ys := by
    refine canonicalSet_eq_self ⟨?_, ?_⟩ <;> decide +kernel
  refine ⟨?_, ?_, by decide +kernel, by decide +kernel, ?_⟩
  · simp only [xs, List.forall_mem_cons, List.not_mem_nil, false_imp_iff, implies_true, and_true]
    exact ⟨hconcrete _ (by simp), hconcrete _ (by simp)⟩
  · simp only [ys, List.forall_mem_cons, List.not_mem_nil, false_imp_iff, implies_true, and_true]
    exact ⟨hconcrete _ (by simp), hconcrete _ (by simp)⟩
  · rw [sequence_set_of_known rfl, sequence_set_of_known rfl, hxs, hys]
    decide +kernel

end TypedData.Value
