import TypedData.Proofs.Value.Equivalence
import TypedData.Proofs.Value.Reachable
import TypedData.Proofs.Wire.Intact

/-!
# Sets that keep their order

Elements of sets that are containers are put in order by their encodings, and the encoding of a
number depends on its form. Sets keep their order where the numbers inside their elements are
encoded alike in the form in which they come back.

## Main definitions

* `Value.Steady` — values whose numbers are encoded alike when they come back
* `Value.Settled` — values in which what stands inside elements of sets is steady
* `Value.Returns` — what a settled value comes back as, and how that is written
* `Value.KeepsBytes` — containers that are encoded as they were
* `Value.exampleTurned` — a set that does not keep its order
* `Value.exampleUnknown` — a tuple of a known and an unknown number, which comes back

## Main results

* `Value.same_of_identical` — equality as data holds of what is identical
* `Value.Intact.returns` — intact values return
* `Value.comesBack_of_settled` — settled values come back from slots without `dynamic`
-/

namespace TypedData.Value

variable {c : Wire.Echo} {limits : Limits} {v w x y : Value} {s t : Ty}

/-- The numbers in a value are encoded alike in the form in which they come back. -/
def Steady (c : Wire.Echo) (v : Value) : Prop :=
  ∀ w, v.Contains w → ∀ n, w.asNumber? = some n →
    Msgpack.ofNumber (c.number n) = Msgpack.ofNumber n

/-- The numbers inside elements of sets are encoded alike in the form in which they come back.
Numbers that are elements themselves are put in numeric order, whatever their form. -/
def Settled (c : Wire.Echo) (v : Value) : Prop :=
  ∀ s, v.Contains s → s.ty.isSet → ∀ e ∈ parts s.content, ∀ x ∈ parts e.content, x.Steady c

theorem Steady.of_mem_parts (h : v.Steady c) (hw : w ∈ parts v.content) : w.Steady c :=
  fun x hx => h x (.of_mem_parts hw hx)

theorem Settled.of_mem_parts (h : v.Settled c) (hw : w ∈ parts v.content) : w.Settled c :=
  fun x hx => h x (.of_mem_parts hw hx)

theorem Steady.settled (h : v.Steady c) : v.Settled c :=
  fun _ hs _ _ he _ hx w hw => h w ((hs.inside he).trans (.of_mem_parts hx hw))

/-- What is not a number is steady if what stands directly inside is. -/
theorem steady_of_asNumber? (hnumber : v.asNumber? = none)
    (h : ∀ x ∈ parts v.content, x.Steady c) : v.Steady c :=
  forall_numbers_of_parts hnumber h

/-- So is a container. -/
theorem steady_of_parts (hv : rank v.content = 4) (h : ∀ x ∈ parts v.content, x.Steady c) :
    v.Steady c := by
  refine steady_of_asNumber? ?_ h
  obtain ⟨own, content, marks⟩ := v
  cases content <;> first | rfl | cases hv

theorem Steady.of_sameData (h : v.Steady c) (hdata : SameData w v) : w.Steady c :=
  forall_numbers_of_sameData h hdata

/-! ### Equal values -/

/-- Values that are identical to equal values without their marks are equal. -/
theorem same_of_identical (hv : v.WellFormed) (hx : x.WellFormed) (hy : y.WellFormed)
    (hxv : x.identical v.withoutMarks) (hyw : y.identical w.withoutMarks) (h : x.same y) :
    v.same w := by
  -- Only what is wholly known equals anything, and then what is identical to it is equal as well.
  have hfirst := same_of_isWhollyKnown (isWhollyKnown_of_same h) hxv
  have hsecond := same_of_isWhollyKnown (isWhollyKnown_of_same (same_symm hx hy h)) hyw
  rw [← same_withoutMarks]
  exact same_trans hv.withoutMarks (same_symm hx hv.withoutMarks hfirst)
    (same_trans hx h hsecond)

/-! ### What is written of what comes back -/

theorem itemsToMsgpack_readBackEach {vs : List Value} {ts ss : List Ty}
    (h : List.Forall₂ (fun v t => ∀ s, t.same s → (v.readBack c t).toMsgpack s = v.toMsgpack s)
      vs ts)
    (hsame : List.Forall₂ (fun t s => t.same s) ts ss) (i : Nat) :
    itemsToMsgpack i ss (readBackEach c ts vs) = itemsToMsgpack i ss vs := by
  induction h generalizing ss i with
  | nil => rfl
  | @cons v t vs ts hv _ ih =>
    obtain _ | @⟨_, s, _, ss, hts, hsame⟩ := hsame
    simp only [readBackEach, itemsToMsgpack, List.headD_cons, List.tail_cons, hv s hts,
      ih hsame (i + 1)]

theorem entriesToMsgpack_readBackEntries {es : Entries Value} {typeOf : String → Ty}
    {slotOf : String → Option Ty}
    (h : ∀ e ∈ es, ∀ s, slotOf e.1 = some s →
      (e.2.readBack c (typeOf e.1)).toMsgpack s = e.2.toMsgpack s) :
    entriesToMsgpack slotOf (readBackEntries c typeOf es) = entriesToMsgpack slotOf es := by
  induction es with
  | nil => rfl
  | cons e es ih =>
    obtain ⟨k, v⟩ := e
    rw [List.forall_mem_cons] at h
    rw [readBackEntries, entriesToMsgpack, entriesToMsgpack, ih h.2]
    cases hslot : slotOf k with
    | none => rfl
    | some s =>
      have hfirst := h.1 s hslot
      simp only [hfirst]

/-! ### The order of what comes back -/

theorem rank_readBack (c : Wire.Echo) (slot : Ty) (v : Value) :
    rank (v.readBack c slot).content = rank v.content := by
  obtain ⟨own, content, marks⟩ := v
  cases content <;> rfl

/-- Values that are encoded as they were when they come back, if they are containers. -/
def KeepsBytes (c : Wire.Echo) (t : Ty) (v : Value) : Prop :=
  rank v.content = 4 → ∃ p, ownBytes? v = some p ∧ ownBytes? (v.readBack c t) = some p

/-- It is enough that containers are written alike when they come back. -/
theorem Placed.keepsBytes (hc : c.KeepsTypes) (h : Placed c t v)
    (halike : rank v.content = 4 →
      (v.readBack c t).toMsgpack (v.readBack c t).ty = v.toMsgpack (v.readBack c t).ty) :
    v.KeepsBytes c t := by
  intro hrank
  have hknown : v.isKnown := by
    obtain ⟨own, content, marks⟩ := v
    cases content <;> first | rfl | cases hrank
  obtain ⟨hplaced, hsame⟩ := h.of_ty_readBack hc hknown
  obtain ⟨m, hm, hm'⟩ := hplaced.exists_toMsgpack_alike hc h.wellFormed.type_wellFormed hsame
  refine ⟨m.write, ?_, ?_⟩
  · rw [ownBytes?, encodeMsgpack, hm']
    rfl
  · rw [ownBytes?, encodeMsgpack, halike hrank, hm]
    rfl

/-- What is neither null nor a container keeps its place when it comes back. -/
theorem compare_readBack_of_leaf (hrank : rank v.content = rank w.content)
    (hnull : rank v.content ≠ 0) (hcontainer : rank v.content ≠ 4) :
    (v.readBack c t).compare (w.readBack c t) = v.compare w := by
  obtain ⟨own, content, marks⟩ := v
  obtain ⟨own', content', marks'⟩ := w
  cases content with
  | null => exact absurd rfl hnull
  | items | entries => exact absurd rfl hcontainer
  | number n =>
    cases content' <;> cases hrank
    rename_i n'
    show (c.number n).compare (c.number n') = n.compare n'
    rw [Decimal.compare_eq, Decimal.compare_eq, Decimal.same_iff.mp (c.same_number n),
      Decimal.same_iff.mp (c.same_number n')]
  | unknown | bool | string | capsule => cases content' <;> cases hrank; rfl

/-- Values of one slot stay in order when they come back, if containers are encoded alike and the
types that come back have their names in the same order. -/
theorem isLE_compare_readBack (hv : v.KeepsBytes c t) (hw : w.KeepsBytes c t)
    (hnames : ownBytes? v = ownBytes? w → (Ord.compare v.ty.name w.ty.name).isLE →
      (Ord.compare (v.readBack c t).ty.name (w.readBack c t).ty.name).isLE)
    (h : (v.compare w).isLE) : ((v.readBack c t).compare (w.readBack c t)).isLE := by
  by_cases hrank : rank v.content = rank w.content
  swap
  · rw [compare_of_rank_ne hrank] at h
    rw [compare_of_rank_ne (by rwa [rank_readBack, rank_readBack]), rank_readBack, rank_readBack]
    exact h
  by_cases hcontainer : rank v.content = 4
  · obtain ⟨p, hp, hp'⟩ := hv hcontainer
    obtain ⟨q, hq, hq'⟩ := hw (hrank ▸ hcontainer)
    rw [compare_of_containers hcontainer (hrank ▸ hcontainer), hp, hq] at h
    rw [compare_of_containers (by rwa [rank_readBack])
      (by rw [rank_readBack, ← hrank, hcontainer]), hp', hq']
    -- The names of types decide only between containers that are encoded alike.
    cases hcompare : Ord.compare p q with
    | lt => simp [compareBytes, hcompare]
    | gt => simp [compareBytes, hcompare] at h
    | eq =>
      simp only [compareBytes, hcompare, Ordering.eq_then] at h ⊢
      exact hnames (by rw [hp, hq, Std.LawfulEqOrd.eq_of_compare hcompare]) h
  by_cases hnull : rank v.content = 0
  · -- Nulls of one slot come back with one type.
    obtain ⟨own, content, marks⟩ := v
    obtain ⟨own', content', marks'⟩ := w
    cases content <;> cases hnull
    cases content' <;> cases hrank
    simp [readBack, null, ofContent, compare]
  · rw [compare_readBack_of_leaf hrank hnull hcontainer]
    exact h

/-- Elements of a set stay in order when they come back, if containers are encoded alike. -/
theorem inSetOrder_readBack {vs : List Value} (hc : c.KeepsTypes) (order : InSetOrder vs)
    (h : ∀ v ∈ vs, Intact c t v) (hnames : t.isDynamic → NamesInOrder vs)
    (hback : ∀ v ∈ vs, v.comesBack c t) (hbytes : ∀ v ∈ vs, v.KeepsBytes c t) :
    InSetOrder (vs.map (readBack c t)) where
  ordered := by
    rw [List.pairwise_map]
    refine order.ordered.imp_of_mem fun {v w} hv hw hvw => ?_
    refine isLE_compare_readBack (hbytes v hv) (hbytes w hw) (fun halike hname => ?_) hvw
    cases ht : t.isDynamic with
    | false => simp [ty_readBack ht]
    | true =>
      rw [(h v hv).ty_readBack_of_isDynamic hc ht, (h w hw).ty_readBack_of_isDynamic hc ht]
      exact hnames ht v hv w hw halike hname
  apart := by
    rw [List.isChain_map]
    refine order.apart.imp_of_mem_imp fun {v w} hv hw hvw => ?_
    have hidentical (x : Value) (hx : x ∈ vs) : (x.readBack c t).identical x.withoutMarks :=
      (identical_readBack (h x hx).wellFormed t).trans (hback x hx)
    rw [Bool.eq_false_iff] at hvw ⊢
    exact fun hsame => hvw (same_of_identical (h w hw).wellFormed
      ((h w hw).wellFormed_readBack hc).1 ((h v hv).wellFormed_readBack hc).1
      (hidentical w hw) (hidentical v hv) hsame)

/-! ### Intact values -/

theorem comesBackEach_of_forall₂ {vs : List Value} {ts : List Ty}
    (h : List.Forall₂ (fun v t => v.comesBack c t) vs ts) : comesBackEach c ts vs := by
  induction h with
  | nil => rfl
  | cons hv _ ih => simpa [comesBackEach] using ⟨hv, ih⟩

theorem comesBackEntries_of_forall {es : Entries Value} {slotOf : String → Ty}
    (h : ∀ e ∈ es, e.2.comesBack c (slotOf e.1)) : comesBackEntries c slotOf es := by
  induction es with
  | nil => rfl
  | cons e es ih =>
    rw [List.forall_mem_cons] at h
    simpa [comesBackEntries] using ⟨h.1, ih h.2⟩

/-- A value comes back from a slot if it is settled, and is written as before if it is steady: into
the slot, and as the type with which it comes back. -/
structure Returns (c : Wire.Echo) (v : Value) (t : Ty) : Prop where
  comesBack : v.Settled c → v.comesBack c t
  writtenAlike : v.Steady c → ∀ s, t.same s ∨ (v.readBack c t).ty.same s →
    (v.readBack c t).toMsgpack s = v.toMsgpack s

namespace Intact

/-- Elements of a settled set come back in the order in which they stood. -/
theorem canonicalSet_readBackEach {own : Ty} {vs : List Value} {m : Marks} {ts : List Ty}
    (hc : c.KeepsTypes) (h : Intact c t ⟨own, .items vs, m⟩) (hset : t.isSet)
    (hts : slots? t vs.length = some ts)
    (heach : List.Forall₂ (fun v u => Intact c u v ∧ v.Returns c u) vs ts)
    (hsettled : Settled c ⟨own, .items vs, m⟩) :
    canonicalSet (readBackEach c ts vs) = readBackEach c ts vs := by
  have hwell := h.wellFormed
  have hsame := h.inSlot.same (isDynamic_of_slots? hts)
  cases t with
  | set u =>
    obtain rfl := Option.some.inj hts
    cases hwell with
    | @set u' _ _ _ elems _ _ order =>
      have huu' : u'.same u := hsame
      have hreturns (v : Value) (hv : v ∈ vs) : Intact c u v ∧ v.Returns c u := by
        obtain ⟨_, hmem, hvu⟩ := heach.exists_of_mem_left hv
        rwa [List.eq_of_mem_replicate hmem] at hvu
      rw [readBackEach_replicate]
      refine canonicalSet_eq_self (inSetOrder_readBack hc order (fun v hv => (hreturns v hv).1)
        (fun hdynamic => ?_)
        (fun v hv => (hreturns v hv).2.comesBack (hsettled.of_mem_parts hv)) fun v hv => ?_)
      · have hown : u' = .dynamic := by
          rw [← isDynamic_of_same huu'] at hdynamic
          cases u' <;> first | rfl | cases hdynamic
        exact h.names _ .self (congrArg Ty.set hown)
      -- Containers are encoded as before, as the numbers inside them are steady.
      · obtain ⟨hintact, hvu⟩ := hreturns v hv
        refine hintact.keepsBytes hc fun hrank => ?_
        exact hvu.writtenAlike (steady_of_parts hrank (hsettled _ .self rfl v hv)) _
          (.inr (hintact.wellFormed_readBack hc).1.type_wellFormed.same_refl)
    | _ => cases hsame
  | _ => cases hset

/-- Nulls and unknowns return from slots of their type. -/
theorem returns_of_not_known (h : Intact c t v) (hknown : v.isKnown = false) : v.Returns c t := by
  have hsame := h.same_of_not_known hknown
  obtain ⟨own, content, m⟩ := v
  cases content with
  | null => exact ⟨fun _ => hsame, fun _ _ _ => rfl⟩
  | unknown r =>
    refine ⟨fun _ => hsame, fun _ s _ => ?_⟩
    have hwell := h.wellFormed
    cases hwell with
    | unknown _ retained =>
      rw [← Refinement.retainFor_eq_of_same hsame] at retained
      exact congrArg Except.ok ((congrArg Msgpack.ofUnknown
        (Refinement.retainFor_written retained)).trans (Msgpack.ofUnknown_written r))
  | _ => cases hknown

/-- Known values return if they do from slots that are not `dynamic`. -/
theorem returns_of_known (hc : c.KeepsTypes) (h : Intact c t v) (hknown : v.isKnown)
    (hreturns : ∀ u, u.isDynamic = false → Intact c u v → v.Returns c u) : v.Returns c t := by
  cases ht : t.isDynamic with
  | false => exact hreturns t ht h
  | true =>
    have hown := h.wellFormed.type_wellFormed
    obtain ⟨hu, hcapsule, hintact⟩ := h.of_isDynamic hc ht hknown
    have hconcrete := (c.type_spec _ _ hu).2
    obtain ⟨hback, halike⟩ := hreturns _ hconcrete hintact
    obtain ⟨j, hj⟩ := Ty.exists_describes hown hcapsule
    have hj' := Ty.toJson_of_same hown hintact.slot hown.same_inKeyOrder hj.written
    obtain ⟨m, hm, hm'⟩ := hintact.exists_toMsgpack_alike hc hown
      (hown.same_symm hintact.slot hown.same_inKeyOrder)
    refine ⟨fun hsettled => (comesBack_of_isDynamic ht hu hknown).trans (hback hsettled),
      fun hsteady s hs => ?_⟩
    rw [readBack_of_isDynamic ht hu hknown] at hs ⊢
    rcases hs with hs | hs
    · -- Beside equal types, which have one text, the same is written of both.
      have hs := isDynamic_of_same hs ▸ ht
      rw [Msgpack.toMsgpack_of_isDynamic hs hknown (h.wellFormed.isDynamic_eq_false hknown),
        Msgpack.toMsgpack_of_isDynamic hs ((isKnown_readBack ..).trans hknown)
          (by rw [ty_readBack hconcrete, hconcrete]),
        ty_readBack hconcrete, halike hsteady _ (.inl hintact.slot.same_refl), hm, hm',
        wrapMsgpack, wrapMsgpack, hj.written, hj']
    · exact halike hsteady s (.inr hs)

/-- A value without members returns from a slot of its type. -/
theorem returns_of_scalar (h : Intact c t v) (hconcrete : t.isDynamic = false)
    (hscalar : 0 < rank v.content ∧ rank v.content < 4) : v.Returns c t := by
  have hvt := h.inSlot.same hconcrete
  have hwell := h.wellFormed
  obtain ⟨own, content, m⟩ := v
  cases hwell with
  | bool | string =>
    obtain rfl := eq_of_same_of_isPrimitive rfl hvt
    refine ⟨fun _ => rfl, fun _ s hts => ?_⟩
    obtain rfl := eq_of_same_of_isPrimitive rfl (or_self_iff.mp hts)
    rfl
  | number =>
    obtain rfl := eq_of_same_of_isPrimitive rfl hvt
    refine ⟨fun _ => rfl, fun hsteady s hts => ?_⟩
    obtain rfl := eq_of_same_of_isPrimitive rfl (or_self_iff.mp hts)
    exact congrArg Except.ok (hsteady _ .self _ rfl)
  | _ => simp [rank] at hscalar

/-- A list, set or tuple returns if its elements do. -/
theorem returns_items {own : Ty} {vs : List Value} {m : Marks} (hc : c.KeepsTypes)
    (h : Intact c t ⟨own, .items vs, m⟩) (hconcrete : t.isDynamic = false)
    (hreturns : ∀ v ∈ vs, ∀ u, Intact c u v → v.Returns c u) :
    Returns c ⟨own, .items vs, m⟩ t := by
  have hown := h.wellFormed.type_wellFormed
  have hback := hown.same_symm h.slot (h.inSlot.same hconcrete)
  obtain ⟨ts, hts, heach⟩ := h.items hconcrete
  have hplaces : List.Forall₂ (fun v u => Intact c u v ∧ v.Returns c u) vs ts :=
    heach.imp_of_mem fun v hv u _ hvu => ⟨hvu, hreturns v hv u hvu⟩
  -- A set is put in order again, which changes nothing if it is settled.
  have hordered (hsettled : Settled c ⟨own, .items vs, m⟩) (hset : t.isSet) :
      canonicalSet (readBackEach c ts vs) = readBackEach c ts vs :=
    h.canonicalSet_readBackEach hc hset hts hplaces hsettled
  constructor
  · intro hsettled
    have hparts : comesBackEach c ts vs := comesBackEach_of_forall₂
      (hplaces.imp_of_mem fun v hv _ _ hvu => hvu.2.comesBack (hsettled.of_mem_parts hv))
    have hsame (hset : t.isSet) :
        identicalEach (canonicalSet (readBackEach c ts vs)) (withoutMarksEach vs) := by
      rw [hordered hsettled hset, identicalEach_readBackEach, hparts]
      exact fun v hv slot => identical_readBack (h.wellFormed.of_mem_items hv) slot
    simp only [comesBack, Wire.Echo.slotType, hconcrete, Bool.false_eq_true, if_false, hback,
      Bool.true_and, itemSlots, hts, Option.getD_some]
    split
    · exact hsame ‹_›
    · exact hparts
  · intro hsteady s hs
    rw [ty_readBack hconcrete, or_self_iff] at hs
    obtain ⟨ss, hss, hsame⟩ := Value.exists_slots_of_same hs hts
    have hinOrder : inOrder t (readBackEach c ts vs) = readBackEach c ts vs := by
      rw [inOrder]
      split
      · exact hordered hsteady.settled ‹_›
      · rfl
    rw [readBack_items hts, hinOrder, ofContent,
      Msgpack.toMsgpack_items ((length_readBackEach c ts vs).symm ▸ hss),
      Msgpack.toMsgpack_items hss, itemsToMsgpack_readBackEach (hplaces.imp_of_mem ?_) hsame]
    exact fun v hv u _ hvu s hus =>
      hvu.2.writtenAlike (hsteady.of_mem_parts hv) s (.inl hus)

/-- A map or object returns if its entries do. -/
theorem returns_entries {own : Ty} {es : Entries Value} {m : Marks}
    (h : Intact c t ⟨own, .entries es, m⟩) (hconcrete : t.isDynamic = false)
    (hreturns : ∀ e ∈ es, ∀ u, Intact c u e.2 → e.2.Returns c u) :
    Returns c ⟨own, .entries es, m⟩ t := by
  have hown := h.wellFormed.type_wellFormed
  have hvt := h.inSlot.same hconcrete
  have heach (e : String × Value) (he : e ∈ es) : e.2.Returns c (entrySlot t e.1) :=
    hreturns e he _ (h.entries hconcrete he)
  constructor
  · intro hsettled
    have hparts : comesBackEntries c (entrySlot t) es := comesBackEntries_of_forall fun e he =>
      (heach e he).comesBack (hsettled.of_mem_parts (List.mem_map_of_mem he))
    simpa [comesBack, Wire.Echo.slotType, hconcrete, hown.same_symm h.slot hvt] using hparts
  · intro hsteady s hs
    rw [ty_readBack hconcrete, or_self_iff] at hs
    have hvs := hown.same_trans hvt hs
    rw [readBack_entries hconcrete, ofContent, Msgpack.toMsgpack_entries h.wellFormed hvs,
      Msgpack.toMsgpack_entries h.wellFormed hvs, entriesToMsgpack_readBackEntries]
    intro e he s' hs'
    -- The slot of the entry under the other type equals its slot here.
    obtain ⟨hu, -⟩ := h.toPlaced.entries hconcrete he
    obtain ⟨s'', hs'', hsame⟩ := Value.exists_slotOf_of_same hs hu
    obtain rfl := Option.some.inj (hs'.symm.trans hs'')
    exact (heach e he).writtenAlike (hsteady.of_mem_parts (List.mem_map_of_mem he)) s'
      (.inl hsame)

/-- Every intact value returns. -/
theorem returns (hc : c.KeepsTypes) (h : Intact c t v) : v.Returns c t := by
  induction v using Value.induction generalizing t with
  | null | unknown => exact h.returns_of_not_known rfl
  | bool | number | string =>
    exact h.returns_of_known hc rfl fun u hu hintact =>
      hintact.returns_of_scalar hu (by simp [rank])
  | capsule own handle => exact absurd rfl (h.capsuleFree _ .self handle)
  | items own vs m ih =>
    exact h.returns_of_known hc rfl fun u hu hintact =>
      hintact.returns_items hc hu fun v hv u hvu => ih v hv hvu
  | entries own es m ih =>
    exact h.returns_of_known hc rfl fun u hu hintact =>
      hintact.returns_entries hu fun e he u heu => ih e he heu

end Intact

/-- Settled values without capsules come back from slots without `dynamic`, apart from their
marks. -/
theorem comesBack_of_settled (hc : c.KeepsTypes) (hv : v.WellFormed) (hcapsule : v.CapsuleFree)
    (ht : t.WellFormed) (hdynamic : t.hasDynamic = false) (hvt : v.ty.same t)
    (hsettled : v.Settled c) : v.comesBack c t :=
  ((intact_of_hasDynamic hv hcapsule ht hdynamic hvt).returns hc).comesBack hsettled

/-! ### A set that does not keep its order -/

/-- A double, with more digits behind the point than a double is written with. -/
def longDouble : Decimal := ⟨54998432566314966671727154844916305100800000, 5⟩

/-- A tuple of one number. -/
def single (n : Decimal) : Value := ⟨.tuple [.number], .items [.number n], .empty⟩

/-- A set whose second element is encoded as a text, until it comes back as a double. -/
def exampleTurned : Value :=
  ⟨.set (.tuple [.number]), .items [single ⟨5000000000, 0⟩, single longDouble], .empty⟩

theorem reachable_exampleTurned : exampleTurned.Reachable := by
  let raw : Native := .list [.list [.number longDouble], .list [.number ⟨5000000000, 0⟩]]
  have horder : canonicalSet [single longDouble, single ⟨5000000000, 0⟩] = _ :=
    canonicalSet_pair (by decide +kernel) (by decide +kernel)
  refine @Reachable.validate .default (.set (.tuple [.number])) raw _ ?_ nofun ?_
  · exact .set (.tuple (by simpa using .number))
  · refine congrArg Except.ok (?_ : sequence _ [single _, single _] = exampleTurned)
    rw [sequence, horder]
    rfl

theorem plain_exampleTurned : exampleTurned.ty.Plain := ⟨rfl, rfl⟩

theorem eq_of_contains_exampleTurned {w : Value} (h : exampleTurned.Contains w) :
    w = exampleTurned ∨ ∃ n ∈ [⟨5000000000, 0⟩, longDouble], w = single n ∨ w = .number n := by
  rcases h.eq_or_exists with rfl | ⟨x, hx, h⟩
  · exact .inl rfl
  · obtain ⟨n, hn, rfl⟩ : ∃ n ∈ [⟨5000000000, 0⟩, longDouble], single n = x := List.mem_map.mp hx
    refine .inr ⟨n, hn, ?_⟩
    rcases h.eq_or_exists with rfl | ⟨y, hy, h⟩
    · exact .inl rfl
    · obtain rfl := List.mem_singleton.mp hy
      rcases h.eq_or_exists with rfl | ⟨z, hz, -⟩
      · exact .inr rfl
      · cases hz

/-- Its numbers are within the limits of the decoders. -/
theorem within_exampleTurned {w : Value} (h : exampleTurned.Contains w) {n : Decimal}
    (hn : w.asNumber? = some n) : n.withinExponent 4096 := by
  have hall : ∀ n ∈ [⟨5000000000, 0⟩, longDouble], n.withinExponent 4096 := by decide
  obtain rfl | ⟨n', hn', rfl | rfl⟩ := eq_of_contains_exampleTurned h <;> cases hn
  exact hall n hn'

theorem refinement?_exampleTurned {w : Value} (h : exampleTurned.Contains w) :
    w.refinement? = none := by
  obtain rfl | ⟨n', hn', rfl | rfl⟩ := eq_of_contains_exampleTurned h <;> rfl

/-- In the form in which they come back, the numbers are the other way round. -/
theorem comesBack_exampleTurned (hsmall : c.number ⟨5000000000, 0⟩ = ⟨5000000000, 0⟩)
    (hlong : c.number longDouble = longDouble.written) :
    exampleTurned.comesBack c exampleTurned.ty = false := by
  have hback :
      readBackEach c (itemSlots exampleTurned.ty 2) [single ⟨5000000000, 0⟩, single longDouble] =
        [single ⟨5000000000, 0⟩, single longDouble.written] := by
    show [single (c.number _), single (c.number _)] = _
    rw [hsmall, hlong]
  have horder : canonicalSet [single ⟨5000000000, 0⟩, single longDouble.written] = _ :=
    canonicalSet_pair (by decide +kernel) (by decide +kernel)
  have hset : exampleTurned.comesBack c exampleTurned.ty =
      (exampleTurned.ty.same exampleTurned.ty && identicalEach
        (canonicalSet (readBackEach c (itemSlots exampleTurned.ty 2)
          [single ⟨5000000000, 0⟩, single longDouble]))
        (withoutMarksEach [single ⟨5000000000, 0⟩, single longDouble])) := rfl
  rw [hset, hback, horder]
  decide +kernel

/-! ### A tuple that comes back -/

/-- Half of one, beside a number that is unknown but not negative. -/
def exampleUnknown : Value := ⟨.tuple [.number, .number], .items [.number ⟨5, 1⟩,
  .unknownRefined .number (Refinement.none.withLower ⟨0, 0⟩ true)], .empty⟩

theorem reachable_exampleUnknown : exampleUnknown.Reachable := by
  let floor : Value := .unknownRefined .number (Refinement.none.withLower ⟨0, 0⟩ true)
  refine @Reachable.validate .default (.tuple [.number, .number])
    (.list [.number ⟨5, 1⟩, .value floor]) _ (.tuple (by simpa using .number)) ?_ rfl
  intro v hv
  obtain rfl := List.mem_singleton.mp hv
  exact .unknownRefined .number (.lower .none trivial _)

theorem plain_exampleUnknown : exampleUnknown.ty.Plain := ⟨rfl, rfl⟩

theorem eq_of_contains_exampleUnknown {w : Value} (h : exampleUnknown.Contains w) :
    w = exampleUnknown ∨ w = .number ⟨5, 1⟩ ∨
      w = .unknownRefined .number (Refinement.none.withLower ⟨0, 0⟩ true) := by
  rcases h.eq_or_exists with rfl | ⟨x, hx, h⟩
  · exact .inl rfl
  · rcases List.mem_cons.mp hx with rfl | hx
    · rcases h.eq_or_exists with rfl | ⟨y, hy, -⟩
      · exact .inr (.inl rfl)
      · cases hy
    · obtain rfl := List.mem_singleton.mp hx
      rcases h.eq_or_exists with rfl | ⟨y, hy, -⟩
      · exact .inr (.inr rfl)
      · cases hy

/-- Its numbers and bounds are within the limits of the decoders. -/
theorem within_exampleUnknown {w : Value} (h : exampleUnknown.Contains w) :
    (∀ n, w.asNumber? = some n → n.withinExponent 4096) ∧
      ∀ r, w.refinement? = some r → r.Writable 4096 := by
  rcases eq_of_contains_exampleUnknown h with rfl | rfl | rfl
  · constructor <;> intro _ h <;> cases h
  · refine ⟨fun n hn => ?_, fun r hr => ?_⟩
    · obtain rfl := Option.some.inj hn
      decide
    · cases hr
  · refine ⟨fun n hn => ?_, fun r hr => ?_⟩
    · cases hn
    · obtain rfl := Option.some.inj hr
      constructor <;> intro b hb <;> cases hb
      decide

/-- It holds no set. -/
theorem settled_exampleUnknown : exampleUnknown.Settled c := by
  intro s hs hset
  rcases eq_of_contains_exampleUnknown hs with rfl | rfl | rfl <;> cases hset

end TypedData.Value
