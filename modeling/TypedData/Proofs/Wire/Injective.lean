import TypedData.Proofs.Value.Identity
import TypedData.Proofs.Value.WhollyKnown
import TypedData.Proofs.Wire.MsgpackWritten

/-!
# What MessagePack tells apart

Bytes determine what was written as them. In a slot without `dynamic` that in turn determines the
data, as long as nothing is unknown: values that are written alike are equal. Equal values are
written alike if equal numbers inside them are.

## Main definitions

* `Msgpack.Matched` — two values in equal slots without `dynamic`
* `Msgpack.NumbersAlike` — values inside which equal numbers are written alike

## Main results

* `Msgpack.write_injective` — bytes determine what was written
* `Msgpack.same_of_toMsgpack` — values that are written alike are equal
* `Msgpack.toMsgpack_of_same` — equal values are written alike if their numbers are
-/

namespace TypedData

namespace Decimal

/-- Numbers with the same notation are equal. -/
theorem same_of_plain_eq {n k : Decimal} (h : n.plain = k.plain) : n.same k := by
  have htext : (plainLiteral n).text = (plainLiteral k).text := by
    rw [← toList_plain, ← toList_plain, h]
  have hliteral : plainLiteral n = plainLiteral k := by
    have hread := Literal.read?_text (readable_plainLiteral n)
    rw [htext, Literal.read?_text (readable_plainLiteral k)] at hread
    exact (Option.some.inj hread).symm
  have hwritten : n.written = k.written := by
    rw [← value_plainLiteral, ← value_plainLiteral, hliteral]
  rw [same_iff, ← toRat_written n, hwritten, toRat_written]

end Decimal

namespace Msgpack

open Value

variable {slot s t : Ty} {m : Msgpack} {v w : Value} {c : Content Value}

/-! ### Bytes and numbers -/

/-- Bytes determine what was written as them. -/
theorem write_injective {m m' : Msgpack} (h : m.Fits) (h' : m'.Fits) (heq : m.write = m'.write) :
    m = m' := by
  have hread := readValue_write h (max m.cost m'.cost) []
  have hread' := readValue_write h' (max m.cost m'.cost) []
  rw [outcome_of_le (Nat.le_max_left _ _)] at hread
  rw [outcome_of_le (Nat.le_max_right _ _), ← heq, hread] at hread'
  exact (Prod.mk.inj (Except.ok.inj hread')).1

/-- Texts that are written alike are equal. -/
theorem ofText_injective {x y : String} (h : ofText x = ofText y) : x = y := by
  have htext := congrArg asText? h
  rw [asText?_ofText, asText?_ofText] at htext
  exact Option.some.inj htext

/-- Numbers that are written alike are equal. -/
theorem same_of_ofNumber_eq {n k : Decimal} (h : ofNumber n = ofNumber k) : n.same k := by
  have hback {i : Int} {d : Decimal} (hd : d.toInt64? = some i) :
      (Decimal.ofInt i).toRat = d.toRat := by
    rw [Decimal.ofInt_of_toInt64? hd, Decimal.toRat_written]
  unfold ofNumber at h
  split at h
  · rename_i i hn
    split at h
    · rename_i j hk
      obtain rfl := Msgpack.int.inj h
      rw [Decimal.same_iff, ← hback hn, hback hk]
    · split at h <;> cases h
  split at h
  · rename_i f hn
    split at h
    · cases h
    split at h
    · rename_i g hk
      obtain rfl := Msgpack.float64.inj h
      -- Both are the value of one double.
      obtain ⟨x, hx, hxn⟩ := Binary64.value?_of_ofDecimal? hn
      obtain ⟨y, hy, hyk⟩ := Binary64.value?_of_ofDecimal? hk
      obtain rfl := Option.some.inj (hx.symm.trans hy)
      rw [Decimal.same_iff] at hxn hyk ⊢
      exact hxn.symm.trans hyk
    · cases h
  · split at h
    · cases h
    split at h
    · cases h
    · exact Decimal.same_of_plain_eq (ofText_injective h)

/-! ### Equal slots -/

/-- Two values in equal slots without `dynamic`. -/
structure Matched (v w : Value) (s t : Ty) : Prop where
  left : v.WellFormed
  right : w.WellFormed
  leftSlot : s.WellFormed
  rightSlot : t.WellFormed
  slots : s.same t
  leftType : v.ty.same s
  rightType : w.ty.same t
  noDynamic : s.hasDynamic = false

/-- Values in equal slots without `dynamic`, place by place. -/
inductive MatchedEach : List Value → List Value → List Ty → List Ty → Prop
  | nil : MatchedEach [] [] [] []
  | cons {v w : Value} {s t : Ty} {vs ws : List Value} {ss ts : List Ty} (h : Matched v w s t)
      (hs : MatchedEach vs ws ss ts) : MatchedEach (v :: vs) (w :: ws) (s :: ss) (t :: ts)

namespace Matched

theorem isDynamic_left (h : Matched v w s t) : s.isDynamic = false :=
  Ty.isDynamic_of_hasDynamic h.noDynamic

theorem isDynamic_right (h : Matched v w s t) : t.isDynamic = false :=
  (isDynamic_of_same h.slots).symm.trans h.isDynamic_left

theorem same_ty (h : Matched v w s t) : v.ty.same w.ty :=
  h.left.type_wellFormed.same_trans h.leftType
    (h.leftSlot.same_trans h.slots (h.right.type_wellFormed.same_symm h.rightSlot h.rightType))

/-- Two values in one slot without `dynamic`, each written as its own type. -/
theorem of_inSlot {slot : Ty} (hslot : slot.WellFormed) (hv : v.WellFormed) (hw : w.WellFormed)
    (hvs : v.InSlot slot) (hws : w.InSlot slot) (hdynamic : slot.hasDynamic = false) :
    Matched v w v.ty w.ty := by
  have hconcrete := Ty.isDynamic_of_hasDynamic hdynamic
  have hv' := hv.type_wellFormed
  have hw' := hw.type_wellFormed
  have hsame := hv'.same_trans (hvs.same hconcrete) (hw'.same_symm hslot (hws.same hconcrete))
  exact ⟨hv, hw, hv', hw', hsame, hv'.same_refl, hw'.same_refl,
    (hv'.hasDynamic_of_same hslot (hvs.same hconcrete)).trans hdynamic⟩

/-- The members of both sides stand in equal slots, if the slots they stand in are equal. -/
theorem of_mem_parts {x y : Value} {s' t' : Ty} (h : Matched v w s t) (hx : x ∈ parts v.content)
    (hy : y ∈ parts w.content) (hs' : s' ∈ s.parts) (hin : x.InSlot s') (hin' : y.InSlot t')
    (hwell : s'.WellFormed) (hwell' : t'.WellFormed) (hslots : s'.same t') : Matched x y s' t' := by
  have hdynamic := Ty.hasDynamic_of_mem_parts h.noDynamic hs'
  have hconcrete := Ty.isDynamic_of_hasDynamic hdynamic
  exact ⟨h.left.of_mem_parts hx, h.right.of_mem_parts hy, hwell, hwell', hslots, hin.same hconcrete,
    hin'.same (isDynamic_of_same hslots ▸ hconcrete), hdynamic⟩

private theorem each {vs ws : List Value} {ss ts : List Ty} (hvs : List.Forall₂ InSlot vs ss)
    (hws : List.Forall₂ InSlot ws ts) (hst : List.Forall₂ (fun s t => s.same t) ss ts)
    (h : ∀ v ∈ vs, ∀ w ∈ ws, ∀ s ∈ ss, ∀ t ∈ ts, v.InSlot s → w.InSlot t → s.same t →
      Matched v w s t) : MatchedEach vs ws ss ts := by
  induction hvs generalizing ws ts with
  | nil =>
    cases hst
    cases hws
    exact .nil
  | @cons v s vs ss hv _ ih =>
    obtain _ | @⟨_, t, _, ts, hslots, hst⟩ := hst
    obtain _ | @⟨w, _, ws, _, hw, hws⟩ := hws
    refine .cons (h v (by simp) w (by simp) s (by simp) t (by simp) hv hw hslots) ?_
    exact ih hws hst fun v hv w hw s hs t ht =>
      h v (by simp [hv]) w (by simp [hw]) s (by simp [hs]) t (by simp [ht])

/-- The elements of both sides stand in equal slots. -/
theorem items {own own' : Ty} {vs ws : List Value} {marks marks' : Marks} {ss : List Ty}
    (h : Matched ⟨own, .items vs, marks⟩ ⟨own', .items ws, marks'⟩ s t)
    (hlength : vs.length = ws.length) (hss : slots? s vs.length = some ss) :
    ∃ ts, slots? t ws.length = some ts ∧ MatchedEach vs ws ss ts := by
  -- Each side has its slots by itself, and equal types have equal slots.
  obtain ⟨ss', hss', hin, hwell⟩ := h.left.exists_slots_of_same h.leftSlot h.leftType
  obtain rfl := Option.some.inj (hss.symm.trans hss')
  obtain ⟨ts, hts, hin', hwell'⟩ := h.right.exists_slots_of_same h.rightSlot h.rightType
  obtain ⟨ts', hts', hslots⟩ := Value.exists_slots_of_same h.slots hss
  rw [hlength] at hts'
  obtain rfl := Option.some.inj (hts.symm.trans hts')
  refine ⟨ts, hts, each hin hin' hslots fun v hv w hw s hs t ht hvs hwt hst => ?_⟩
  exact h.of_mem_parts hv hw (mem_parts_of_slots? hss hs) hvs hwt (hwell s hs) (hwell' t ht) hst

/-- Entries of both sides under one key stand in equal slots. -/
theorem entries {own own' u : Ty} {es fs : Entries Value} {marks marks' : Marks}
    {e f : String × Value} (h : Matched ⟨own, .entries es, marks⟩ ⟨own', .entries fs, marks'⟩ s t)
    (he : e ∈ es) (hf : f ∈ fs) (hkey : e.1 = f.1) (hu : slotOf? s e.1 = some u) :
    ∃ u', slotOf? t f.1 = some u' ∧ Matched e.2 f.2 u u' := by
  obtain ⟨_, hu', hin, hwell⟩ := h.left.exists_slotOf_of_same h.leftSlot h.leftType he
  obtain rfl := Option.some.inj (hu.symm.trans hu')
  obtain ⟨x, hx, hin', hwell'⟩ := h.right.exists_slotOf_of_same h.rightSlot h.rightType hf
  obtain ⟨_, hx', hslots⟩ := Value.exists_slotOf_of_same h.slots hu
  obtain rfl := Option.some.inj (hx.symm.trans (hkey ▸ hx'))
  exact ⟨x, hx, h.of_mem_parts (List.mem_map_of_mem he) (List.mem_map_of_mem hf)
    (mem_parts_of_slotOf? hu) hin hin' hwell hwell' hslots⟩

end Matched

/-! ### Values that are written alike -/

/-- Whether refinements inside two values that are written alike say the same, in unknowns of equal
types. -/
def RefinementsTold (v w : Value) : Prop :=
  ∀ x, v.Contains x → ∀ y, w.Contains y → x.ty.same y.ty → ∀ r q, x.refinement? = some r →
    y.refinement? = some q → ofUnknown r = ofUnknown q → r.same q

theorem RefinementsTold.of_mem_parts {x y : Value} (h : RefinementsTold v w)
    (hx : x ∈ parts v.content) (hy : y ∈ parts w.content) : RefinementsTold x y :=
  fun x' hx' y' hy' => h x' (.of_mem_parts hx hx') y' (.of_mem_parts hy hy')

/-- Where nothing is unknown there are no refinements. -/
theorem refinementsTold_of_isWhollyKnown (h : v.isWhollyKnown) : RefinementsTold v w := by
  intro x hx y _ _ r q hr
  rw [refinement?_of_isWhollyKnown h x hx] at hr
  cases hr

private theorem forall₂_of_itemsToMsgpack {R : Value → Value → Prop} {i j : Nat}
    {vs ws : List Value} {ss ts : List Ty} {ms : List Msgpack} (h : MatchedEach vs ws ss ts)
    (hms : itemsToMsgpack i ss vs = .ok ms) (hms' : itemsToMsgpack j ts ws = .ok ms)
    (ih : ∀ v ∈ vs, ∀ w ∈ ws, ∀ s t m, Matched v w s t → v.toMsgpack s = .ok m →
      w.toMsgpack t = .ok m → R v w) : List.Forall₂ R vs ws := by
  induction h generalizing i j ms with
  | nil => exact .nil
  | @cons v w s t vs ws ss ts h _ ihs =>
    obtain ⟨m, rest, hm, hrest, rfl⟩ := exists_of_itemsToMsgpack_cons hms
    obtain ⟨m', rest', hm', hrest', heq⟩ := exists_of_itemsToMsgpack_cons hms'
    obtain ⟨rfl, rfl⟩ := List.cons.inj heq
    exact .cons (ih v (by simp) w (by simp) _ _ _ h hm hm')
      (ihs hrest hrest' fun v hv w hw => ih v (by simp [hv]) w (by simp [hw]))

private theorem forall₂_of_entriesToMsgpack {R : Value → Value → Prop}
    {slotOf slotOf' : String → Option Ty} {es fs : Entries Value} {ms : List (Msgpack × Msgpack)}
    (hms : entriesToMsgpack slotOf es = .ok ms) (hms' : entriesToMsgpack slotOf' fs = .ok ms)
    (ih : ∀ e ∈ es, ∀ f ∈ fs, ∀ s t m, e.1 = f.1 → slotOf e.1 = some s → slotOf' f.1 = some t →
      e.2.toMsgpack s = .ok m → f.2.toMsgpack t = .ok m → R e.2 f.2) :
    List.Forall₂ (fun e f => e.1 = f.1 ∧ R e.2 f.2) es fs := by
  induction es generalizing fs ms with
  | nil =>
    obtain rfl := Except.ok.inj hms
    cases fs with
    | nil => exact .nil
    | cons f fs =>
      obtain ⟨_, _, _, -, -, -, heq⟩ := exists_of_entriesToMsgpack_cons hms'
      cases heq
  | cons e es ihs =>
    obtain ⟨k, v⟩ := e
    obtain ⟨s, m, rest, hs, hm, hrest, rfl⟩ := exists_of_entriesToMsgpack_cons hms
    cases fs with
    | nil => cases hms'
    | cons f fs =>
      obtain ⟨l, w⟩ := f
      obtain ⟨t, m', rest', ht, hm', hrest', heq⟩ := exists_of_entriesToMsgpack_cons hms'
      obtain ⟨hhead, rfl⟩ := List.cons.inj heq
      obtain ⟨hkey, rfl⟩ := Prod.mk.inj hhead
      -- A key is written as a text, so keys that are written alike are one key.
      obtain rfl := ofText_injective hkey
      have hfirst := ih (k, v) (by simp) (k, w) (by simp) s t m rfl hs ht hm hm'
      exact .cons ⟨rfl, hfirst⟩
        (ihs hrest hrest' fun e he f hf => ih e (by simp [he]) f (by simp [hf]))

/-- What was written, and the type, show what kind of contents there are. -/
theorem rank_eq_of_shapeOf_eq (hv : v.WellFormed) (hw : w.WellFormed) (hty : v.ty.same w.ty)
    (hshape : shapeOf v.content = shapeOf w.content) : rank v.content = rank w.content := by
  cases hv <;> cases hw <;> first | rfl | cases hty | cases hshape

/-- Values without members that are written alike in equal slots are identical, apart from their
marks. -/
theorem identical_of_toMsgpack_of_leaf (h : Matched v w s t) (hrank : rank v.content ≠ 4)
    (htold : RefinementsTold v w) (hm : v.toMsgpack s = .ok m) (hm' : w.toMsgpack t = .ok m) :
    v.withoutMarks.identical w.withoutMarks := by
  have hwritten := writtenAs_of_toMsgpack h.isDynamic_left hm
  have hwritten' := writtenAs_of_toMsgpack h.isDynamic_right hm'
  -- A text and a number may be written alike, so it takes the type to tell kinds apart.
  have hranks := rank_eq_of_shapeOf_eq h.left h.right h.same_ty
    (hwritten.shape_eq.symm.trans hwritten'.shape_eq)
  have hty := h.same_ty
  obtain ⟨own, content, marks⟩ := v
  obtain ⟨own', content', marks'⟩ := w
  cases hwritten with
  | items | entries => exact absurd rfl hrank
  | unknown heq =>
    cases content' <;> cases hranks
    cases hwritten' with | unknown heq' =>
    exact identical_iff.mpr ⟨hty, rfl,
      htold _ .self _ .self hty _ _ rfl rfl (heq.symm.trans heq')⟩
  | null =>
    cases content' <;> cases hranks
    exact identical_iff.mpr ⟨hty, rfl, rfl⟩
  | bool heq =>
    cases content' <;> cases hranks
    cases hwritten' with | bool heq' =>
    cases heq.symm.trans heq'
    exact identical_iff.mpr ⟨hty, rfl, beq_self_eq_true _⟩
  | number heq =>
    cases content' <;> cases hranks
    cases hwritten' with | number heq' =>
    exact identical_iff.mpr ⟨hty, rfl, same_of_ofNumber_eq (heq.symm.trans heq')⟩
  | string heq =>
    cases content' <;> cases hranks
    cases hwritten' with | string heq' =>
    exact identical_iff.mpr ⟨hty, rfl, beq_iff_eq.mpr (ofText_injective (heq.symm.trans heq'))⟩

/-- Values that are written alike in equal slots without `dynamic` are identical, apart from their
marks, if refinements that are written alike say the same. -/
theorem identical_of_toMsgpack (h : Matched v w s t) (htold : RefinementsTold v w)
    (hm : v.toMsgpack s = .ok m) (hm' : w.toMsgpack t = .ok m) :
    v.withoutMarks.identical w.withoutMarks := by
  induction v using Value.induction generalizing w s t m with
  | capsule => cases writtenAs_of_toMsgpack h.isDynamic_left hm
  | null | unknown | bool | number | string =>
    exact identical_of_toMsgpack_of_leaf h (by simp [rank]) htold hm hm'
  | items own vs marks ih =>
    have hty := h.same_ty
    have hwritten' := writtenAs_of_toMsgpack h.isDynamic_right hm'
    cases writtenAs_of_toMsgpack h.isDynamic_left hm with
    | items hss hms heq =>
      subst heq
      -- What was written is an array, so the other contents are elements as well.
      have hshape : .list = shapeOf w.content := hwritten'.shape_eq
      obtain ⟨own', content, marks'⟩ := w
      cases content <;> cases hshape
      cases hwritten' with
      | items hts hms' heq =>
        obtain rfl := Msgpack.array.inj heq
        have hlength := (length_of_itemsToMsgpack (length_of_slots? hss) hms).symm.trans
          (length_of_itemsToMsgpack (length_of_slots? hts) hms')
        obtain ⟨ts, hts', heach⟩ := h.items hlength hss
        obtain rfl := Option.some.inj (hts.symm.trans hts')
        rw [withoutMarks_items, withoutMarks_items]
        refine identical_iff.mpr ⟨hty, rfl, identicalEach_iff.mpr ?_⟩
        rw [List.forall₂_map_left_iff, List.forall₂_map_right_iff]
        exact forall₂_of_itemsToMsgpack heach hms hms' fun v hv w hw s t m h hm hm' =>
          ih v hv h (htold.of_mem_parts hv hw) hm hm'
  | entries own es marks ih =>
    have hty := h.same_ty
    have hwritten' := writtenAs_of_toMsgpack h.isDynamic_right hm'
    cases writtenAs_of_toMsgpack h.isDynamic_left hm with
    | entries hms heq =>
      subst heq
      have hshape : .dict = shapeOf w.content := hwritten'.shape_eq
      obtain ⟨own', content, marks'⟩ := w
      cases content <;> cases hshape
      cases hwritten' with
      | entries hms' heq =>
        obtain rfl := Msgpack.map.inj heq
        rw [withoutMarks_entries, withoutMarks_entries]
        refine identical_iff.mpr ⟨hty, rfl, identicalEntries_iff.mpr ?_⟩
        rw [List.forall₂_map_left_iff, List.forall₂_map_right_iff]
        refine forall₂_of_entriesToMsgpack (R := fun v w => v.withoutMarks.identical w.withoutMarks)
          hms hms' fun e he f hf s' t' m hkey hs' ht' hm hm' => ?_
        obtain ⟨u, hu, hmatched⟩ := h.entries he hf hkey hs'
        obtain rfl := Option.some.inj (ht'.symm.trans hu)
        exact ih e he hmatched
          (htold.of_mem_parts (List.mem_map_of_mem he) (List.mem_map_of_mem hf)) hm hm'

/-- Values that are written alike in equal slots without `dynamic` are equal as data, if one of
them is known at every depth. -/
theorem same_of_toMsgpack (h : Matched v w s t) (hknown : v.isWhollyKnown)
    (hm : v.toMsgpack s = .ok m) (hm' : w.toMsgpack t = .ok m) : v.same w :=
  same_iff_identical_withoutMarks.mpr
    ⟨hknown, identical_of_toMsgpack h (refinementsTold_of_isWhollyKnown hknown) hm hm'⟩

/-! ### Equal values -/

/-- Whether equal numbers inside two values are written alike. -/
def NumbersAlike (v w : Value) : Prop :=
  ∀ x, v.Contains x → ∀ y, w.Contains y → ∀ n k, x.asNumber? = some n → y.asNumber? = some k →
    n.same k → ofNumber n = ofNumber k

theorem NumbersAlike.of_mem_parts {x y : Value} (h : NumbersAlike v w) (hx : x ∈ parts v.content)
    (hy : y ∈ parts w.content) : NumbersAlike x y :=
  fun x' hx' y' hy' => h x' (.of_mem_parts hx hx') y' (.of_mem_parts hy hy')

private theorem itemsToMsgpack_of_matched {i j : Nat} {vs ws : List Value} {ss ts : List Ty}
    {ms : List Msgpack} (h : MatchedEach vs ws ss ts)
    (ih : List.Forall₂ (fun v w => ∀ s t m, Matched v w s t → v.toMsgpack s = .ok m →
      w.toMsgpack t = .ok m) vs ws) (hms : itemsToMsgpack i ss vs = .ok ms) :
    itemsToMsgpack j ts ws = .ok ms := by
  induction h generalizing i j ms with
  | nil => exact hms
  | @cons v w s t vs ws ss ts h _ ihs =>
    obtain ⟨hhead, htail⟩ := List.forall₂_cons.mp ih
    obtain ⟨m, rest, hm, hrest, rfl⟩ := exists_of_itemsToMsgpack_cons hms
    have hfirst := hhead s t m h hm
    have hrest' := ihs (j := j + 1) htail hrest
    simp only [itemsToMsgpack, List.headD_cons, List.tail_cons, hfirst, hrest', Except.map]

private theorem entriesToMsgpack_of_matched {slotOf slotOf' : String → Option Ty}
    {es fs : Entries Value} {ms : List (Msgpack × Msgpack)}
    (ih : List.Forall₂ (fun e f => e.1 = f.1 ∧ ∀ s m, slotOf e.1 = some s →
      e.2.toMsgpack s = .ok m → ∃ t, slotOf' f.1 = some t ∧ f.2.toMsgpack t = .ok m) es fs)
    (hms : entriesToMsgpack slotOf es = .ok ms) : entriesToMsgpack slotOf' fs = .ok ms := by
  induction ih generalizing ms with
  | nil => exact hms
  | @cons e f es fs hef _ ihs =>
    obtain ⟨k, v⟩ := e
    obtain ⟨l, w⟩ := f
    obtain ⟨rfl, hhead⟩ := hef
    obtain ⟨s, m, rest, hs, hm, hrest, rfl⟩ := exists_of_entriesToMsgpack_cons hms
    obtain ⟨t, ht, hm'⟩ := hhead s m hs hm
    simp only [entriesToMsgpack, ht, hm', ihs hrest, Except.map]

/-- Equal values are written alike in equal slots without `dynamic`, if equal numbers inside them
are. -/
theorem toMsgpack_of_same (h : Matched v w s t) (halike : NumbersAlike v w) (hsame : v.same w)
    (hm : v.toMsgpack s = .ok m) : w.toMsgpack t = .ok m := by
  induction v, w, hsame using same_induction generalizing s t m with
  | null => exact hm
  | capsule => cases writtenAs_of_toMsgpack h.isDynamic_left hm
  | bool | string =>
    obtain ⟨hv, hw, -, -, hslots, hvs, -, -⟩ := h
    cases hv
    obtain rfl := eq_of_same_of_isPrimitive rfl hvs
    obtain rfl := eq_of_same_of_isPrimitive rfl hslots
    cases hw
    exact hm
  | number _ hnumber =>
    obtain ⟨hv, hw, -, -, hslots, hvs, -, -⟩ := h
    cases hv
    obtain rfl := eq_of_same_of_isPrimitive rfl hvs
    obtain rfl := eq_of_same_of_isPrimitive rfl hslots
    cases hw
    rw [← hm]
    exact congrArg Except.ok (halike _ .self _ .self _ _ rfl rfl hnumber).symm
  | items _ ih =>
    cases writtenAs_of_toMsgpack h.isDynamic_left hm with
    | items hss hms heq =>
      subst heq
      obtain ⟨ts, hts, heach⟩ := h.items ih.length_eq hss
      rw [toMsgpack_items hts]
      refine Except.map_eq_ok_iff.mpr ⟨_, itemsToMsgpack_of_matched heach ?_ hms, rfl⟩
      exact ih.imp_of_mem fun v hv w hw ⟨_, ih⟩ s t m h hm => ih h (halike.of_mem_parts hv hw) hm
  | entries _ ih =>
    cases writtenAs_of_toMsgpack h.isDynamic_left hm with
    | entries hms heq =>
      subst heq
      rw [toMsgpack_entries h.right h.rightType]
      refine Except.map_eq_ok_iff.mpr ⟨_, entriesToMsgpack_of_matched ?_ hms, rfl⟩
      refine ih.imp_of_mem fun e he f hf ⟨hkey, _, ih⟩ => ⟨hkey, fun s m hs hm => ?_⟩
      obtain ⟨u, hu, hmatched⟩ := h.entries he hf hkey hs
      exact ⟨u, hu, ih hmatched
        (halike.of_mem_parts (List.mem_map_of_mem he) (List.mem_map_of_mem hf)) hm⟩

end Msgpack

end TypedData
