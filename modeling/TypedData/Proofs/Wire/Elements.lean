import TypedData.Proofs.Wire.Canonical
import TypedData.Proofs.Wire.Documents
import TypedData.Proofs.Wire.Extensional

/-!
# Documents as elements of sets

The value of a document in a slot for `dynamic` comes back equal, with a type whose attributes are
in key order. Those that come back equal are at one place in the order of a set, so a set of them
has the elements it had. What may change is their order: encodings change with the forms of numbers,
and elements that are encoded alike go by the names of their types.

## Main definitions

* `Value.Element` — documents in slots for `dynamic` whose types are read

## Main results

* `Value.canonicalSet_map_iff` — which sets keep their elements in place under a function
* `Value.Element.compare_readBack_eq_eq` — elements that come back equal are at one place
* `Value.Element.compare_readBack` — the order of containers that come back
* `Value.Element.isLE_compare_readBack` — which elements come back in order
-/

namespace TypedData.Value

variable {c : Wire.Echo} {v w x y : Value} {vs ws : List Value}

/-! ### Places of equal elements -/

/-- Elements at the places of equal ones are in order if those are. -/
theorem pairwise_of_forall₂ (h : List.Forall₂ (fun v w => v.compare w = .eq) vs ws)
    (hvs : vs.Pairwise fun v w => (v.compare w).isLE) :
    ws.Pairwise fun v w => (v.compare w).isLE := by
  induction h with
  | nil => exact .nil
  | @cons v w vs ws hvw hrest ih =>
    rw [List.pairwise_cons] at hvs ⊢
    refine ⟨fun y hy => ?_, ih hvs.2⟩
    obtain ⟨x, hx, hxy⟩ := hrest.exists_of_mem_right hy
    rw [← Std.TransCmp.congr_left hvw, ← Std.TransCmp.congr_right hxy]
    exact hvs.1 x hx

/-- Containers of one type are equal if their elements are, place by place. -/
theorem items_beq_iff {t : Ty} (ht : t.WellFormed) :
    (ofContent t (.items ws) == ofContent t (.items vs)) ↔
      List.Forall₂ (fun w v => w.same v) ws vs :=
  same_iff.trans ((and_iff_right ht.same_refl).trans sameEach_iff)

/-- A function that keeps elements up to equality keeps the elements of a set. -/
theorem mem_canonicalSet_map {f : Value → Value} (hfs : ∀ v ∈ vs, (f v).WellFormed)
    (hf : ∀ v ∈ vs, (f v).same v) :
    (∀ v ∈ vs, ∃ w ∈ canonicalSet (vs.map f), w.same v) ∧
      ∀ w ∈ canonicalSet (vs.map f), ∃ v ∈ vs, w.same v := by
  refine ⟨fun v hv => ?_, fun w hw => ?_⟩
  · obtain ⟨w, hw, hdata | hsame⟩ := exists_mem_canonicalSet_same (List.mem_map_of_mem hv)
    · exact ⟨w, hw, (hdata.beq_eq (.refl v)).symm.trans (hf v hv)⟩
    · obtain ⟨x, hx, hdata⟩ := exists_of_mem_canonicalSet hw
      obtain ⟨u, hu, rfl⟩ := List.mem_map.mp hx
      have hwell := (hfs u hu).of_sameData hdata
      exact ⟨w, hw, same_trans hwell (same_symm (hfs v hv) hwell hsame) (hf v hv)⟩
  · obtain ⟨x, hx, hdata⟩ := exists_of_mem_canonicalSet hw
    obtain ⟨v, hv, rfl⟩ := List.mem_map.mp hx
    exact ⟨v, hv, (hdata.beq_eq (.refl v)).trans (hf v hv)⟩

/-- A function that keeps elements up to equality keeps those of a set in their places exactly if
it keeps them in order. -/
theorem canonicalSet_map_iff {f : Value → Value} (horder : InSetOrder vs)
    (hvs : ∀ v ∈ vs, v.WellFormed) (hfs : ∀ v ∈ vs, (f v).WellFormed)
    (hf : ∀ v ∈ vs, (f v).same v)
    (hcompare : ∀ v ∈ vs, ∀ w ∈ vs, (f v).same (f w) → (f v).compare (f w) = .eq) :
    List.Forall₂ (fun w v => w.same v) (canonicalSet (vs.map f)) vs ↔
      (vs.map f).Pairwise fun v w => (v.compare w).isLE := by
  have hback (v : Value) (hv : v ∈ vs) : v.same (f v) :=
    same_symm (hfs v hv) (hvs v hv) (hf v hv)
  refine ⟨fun hplaces => ?_, fun hordered => ?_⟩
  · -- Each canonical element is a given one, and what stands in its place is equal to it.
    refine pairwise_of_forall₂ ?_ (inSetOrder_canonicalSet (vs.map f)).ordered
    rw [List.forall₂_map_right_iff]
    refine hplaces.imp_of_mem fun w hw v hv hwv => ?_
    obtain ⟨y, hy, hdata⟩ := exists_of_mem_canonicalSet hw
    obtain ⟨u, hu, rfl⟩ := List.mem_map.mp hy
    have huv : (f u).same v := (hdata.beq_eq (.refl v)).symm.trans hwv
    rw [hdata.compare_eq]
    exact hcompare u hu v hv (same_trans (hfs u hu) huv (hback v hv))
  · have hkept : InSetOrder (vs.map f) := by
      refine ⟨hordered, ?_⟩
      rw [List.isChain_map]
      refine horder.apart.imp_of_mem_imp fun v w hv hw hne => ?_
      rw [Bool.eq_false_iff] at hne ⊢
      intro hsame
      exact hne (same_trans (hvs w hw) (hback w hw) (same_trans (hfs w hw) hsame (hf v hv)))
    rw [canonicalSet_eq_self hkept]
    exact List.forall₂_map_left_iff.mpr (List.forall₂_same.mpr hf)

/-! ### The order of what comes back -/

/-- Equal values whose numbers are encoded as in the form that is read from text have their
floating-point numbers at the same places. -/
theorem doublesAlike_of_steady (hv : v.Steady Json.echo) (hw : w.Steady Json.echo)
    (hsame : v.same w) : v.doublesAlike w := by
  induction v, w, hsame using same_induction with
  | null | bool | string | capsule => rfl
  | @number _ _ n k _ _ _ hnumber =>
    -- Both numbers are encoded as the one that is read from their common text.
    have halike : Msgpack.ofNumber n = Msgpack.ofNumber k := by
      rw [← hv _ .self n rfl, ← hw _ .self k rfl]
      exact congrArg Msgpack.ofNumber (Decimal.written_eq_of_same hnumber)
    exact beq_iff_eq.mpr ((Msgpack.ofNumber_eq_iff_of_same hnumber).mp halike)
  | items _ ih =>
    refine doublesAlikeEach_of_forall₂ (ih.imp_of_mem ?_)
    exact fun v hmem w hmem' ⟨_, h⟩ => h (hv.of_mem_parts hmem) (hw.of_mem_parts hmem')
  | entries _ ih =>
    refine doublesAlikeEntries_of_forall₂ (ih.imp_of_mem ?_)
    exact fun e hmem f hmem' ⟨_, _, h⟩ => h (hv.of_mem_parts (List.mem_map_of_mem hmem))
      (hw.of_mem_parts (List.mem_map_of_mem hmem'))

/-- Equal values that are encoded, with numbers that are encoded as in the form that is read from
text, have one encoding. -/
theorem ownBytes?_eq_of_steady {m : Msgpack} (hv : v.WellFormed) (hw : w.WellFormed)
    (hsteady : v.Steady Json.echo) (hsteady' : w.Steady Json.echo) (hsame : v.same w)
    (hm : v.toMsgpack v.ty = .ok m) :
    ownBytes? v = some m.write ∧ ownBytes? w = some m.write := by
  obtain ⟨m', hm', hiff⟩ := Msgpack.alike hv hw hsame v.ty w.ty m hv.type_wellFormed
    hw.type_wellFormed (same_iff.mp hsame).1 hm
  obtain rfl := hiff.mpr (doublesAlike_of_steady hsteady hsteady' hsame)
  exact ⟨ownBytes?_of_toMsgpack hm, ownBytes?_of_toMsgpack hm'⟩

/-- Equal values are at one place if their types have one name and, for containers, they have one
encoding. -/
theorem compare_eq_eq_of_names (hsame : v.same w) (hname : v.ty.name = w.ty.name)
    (hbytes : rank v.content = 4 → ∃ bytes, ownBytes? v = some bytes ∧ ownBytes? w = some bytes) :
    v.compare w = .eq := by
  obtain hrank | hrank | hrank := rank_cases_of_same hsame
  · have hcontent := (same_iff.mp hsame).2
    obtain ⟨t, content, m⟩ := v
    obtain ⟨u, content', n⟩ := w
    cases content with
    | null =>
      cases content' <;> first | (cases hcontent; done) | skip
      rw [compare, Std.LawfulEqCmp.compare_eq_iff_eq]
      exact hname
    | capsule a =>
      cases content' <;> first | cases hcontent | skip
      simp only [sameContent, CapsuleHandle.same, Bool.and_eq_true, beq_iff_eq] at hcontent
      rw [compare, Std.LawfulEqCmp.compare_eq_iff_eq]
      exact hcontent.2
    | _ => simp [rank] at hrank
  · exact compare_eq_eq_of_same hsame hrank
  · obtain ⟨bytes, hv, hw⟩ := hbytes hrank
    rw [compare_of_containers hrank (rank_of_same hsame ▸ hrank), hv, hw, hname, compareBytes,
      Std.ReflOrd.compare_self, Std.ReflOrd.compare_self]
    rfl

theorem readBack_of_null {t : Ty} (h : v.content = .null) : v.readBack c t = null t := by
  obtain ⟨own, content, m⟩ := v
  cases h
  rfl

/-! ### Documents as elements -/

/-- The value of a document in a set of `dynamic` elements, beside a type that is read. -/
structure Element (c : Wire.Echo) (v : Value) : Prop where
  wellFormed : v.WellFormed
  documented : v.Documented .dynamic
  types : v.typesRead c .dynamic

namespace Element

theorem exists_toMsgpack (h : v.Element c) : ∃ m, v.toMsgpack v.ty = .ok m := by
  have hown := h.wellFormed.type_wellFormed
  exact Value.exists_toMsgpack h.wellFormed hown (.of_same hown.same_refl)
    (h.documented.hasCapsule_eq_false h.wellFormed .dynamic)

/-- A null among such elements has the type `dynamic`, and there are no capsules. -/
theorem of_rank (h : v.Element c) (hrank : rank v.content = 0 ∨ rank v.content = 5) :
    v.ty = .dynamic ∧ v.content = .null := by
  cases h.documented with
  | null => exact ⟨rfl, rfl⟩
  | bool | number | string | list | object => simp [rank] at hrank

variable (hc : c.Faithful)
include hc

theorem restored (h : v.Element c) : v.Restored c .dynamic :=
  h.documented.restored hc h.wellFormed .dynamic .dynamic rfl (.of_isDynamic rfl) h.types

theorem same_readBack (h : v.Element c) : v.same (v.readBack c .dynamic) :=
  same_symm (h.restored hc).wellFormed h.wellFormed (h.restored hc).same

/-- It comes back with its type in key order. -/
theorem ty_readBack (h : v.Element c) : (v.readBack c .dynamic).ty = v.ty.inKeyOrder := by
  have hknown {own : Ty} (hown : own.WellFormed) (hread : typeRead c .dynamic own) :
      c.slotType .dynamic own = own.inKeyOrder := by
    obtain ⟨u, hu⟩ := Option.isSome_iff_exists.mp (hread : (c.type? own).isSome)
    change (c.type? own).getD own = own.inKeyOrder
    rw [hu]
    exact hc.type_eq _ _ hown hu
  have hown := h.wellFormed.type_wellFormed
  have htypes := h.types
  cases h.documented with
  | null => rfl
  | bool | number | string => exact hknown hown htypes
  | list | object =>
    rw [typesRead, Bool.and_eq_true] at htypes
    exact hknown hown htypes.1

/-- Elements that come back equal are at one place in the order. -/
theorem compare_readBack_eq_eq (hv : v.Element c) (hw : w.Element c)
    (hsame : (v.readBack c .dynamic).same (w.readBack c .dynamic)) :
    (v.readBack c .dynamic).compare (w.readBack c .dynamic) = .eq := by
  have hback := (hv.restored hc).wellFormed
  have hback' := (hw.restored hc).wellFormed
  refine compare_eq_eq_of_names hsame ?_ fun _ => ?_
  · -- Types come back in key order, where equal ones are the same.
    have hvw : v.same w :=
      same_trans hv.wellFormed (hv.same_readBack hc) (same_trans hback hsame (hw.restored hc).same)
    rw [hv.ty_readBack hc, hw.ty_readBack hc, Ty.inKeyOrder_eq_of_same hv.wellFormed.type_wellFormed
      hw.wellFormed.type_wellFormed (same_iff.mp hvw).1
      (hv.documented.hasCapsule_eq_false hv.wellFormed .dynamic v .self)]
  · obtain ⟨m, hm⟩ := hv.exists_toMsgpack
    obtain ⟨m', hm', -⟩ := Msgpack.alike hv.wellFormed hback (hv.same_readBack hc) _ _ m
      hv.wellFormed.type_wellFormed hback.type_wellFormed (same_iff.mp (hv.same_readBack hc)).1 hm
    exact ⟨m'.write, ownBytes?_eq_of_steady hback hback' (steady_readBack hc v .dynamic)
      (steady_readBack hc w .dynamic) hsame hm'⟩

/-- Containers whose numbers are encoded as before come back with their encoding, and are put in
order by it and by the names of their types with the attributes in key order. -/
theorem compare_readBack (hv : v.Element c) (hw : w.Element c)
    (hcontainer : rank v.content = 4) (hcontainer' : rank w.content = 4)
    (hnumbers : ∀ x ∈ parts v.content, x.Steady Json.echo)
    (hnumbers' : ∀ x ∈ parts w.content, x.Steady Json.echo) :
    ∃ bytes bytes', ownBytes? v = some bytes ∧ ownBytes? w = some bytes' ∧
      (v.readBack c .dynamic).compare (w.readBack c .dynamic) =
        (Ord.compare bytes bytes').then
          (Ord.compare v.ty.inKeyOrder.name w.ty.inKeyOrder.name) := by
  have hsame := hv.same_readBack hc
  have hsame' := hw.same_readBack hc
  obtain ⟨m, hm⟩ := hv.exists_toMsgpack
  obtain ⟨m', hm'⟩ := hw.exists_toMsgpack
  obtain ⟨hbytes, hback⟩ := ownBytes?_eq_of_steady hv.wellFormed (hv.restored hc).wellFormed
    (steady_of_parts hcontainer hnumbers) (steady_readBack hc v .dynamic) hsame hm
  obtain ⟨hbytes', hback'⟩ := ownBytes?_eq_of_steady hw.wellFormed (hw.restored hc).wellFormed
    (steady_of_parts hcontainer' hnumbers') (steady_readBack hc w .dynamic) hsame' hm'
  refine ⟨_, _, hbytes, hbytes', ?_⟩
  rw [compare_of_containers (rank_of_same hsame ▸ hcontainer) (rank_of_same hsame' ▸ hcontainer'),
    hback, hback', hv.ty_readBack hc, hw.ty_readBack hc, compareBytes]

/-- Elements come back in order if their numbers are encoded as before, and the names of their
types are in order with their attributes in key order. -/
theorem isLE_compare_readBack (hv : v.Element c) (hw : w.Element c)
    (hnumbers : ∀ x ∈ parts v.content, x.Steady Json.echo)
    (hnumbers' : ∀ x ∈ parts w.content, x.Steady Json.echo)
    (hnames : ownBytes? v = ownBytes? w → (Ord.compare v.ty.name w.ty.name).isLE →
      (Ord.compare v.ty.inKeyOrder.name w.ty.inKeyOrder.name).isLE)
    (h : (v.compare w).isLE) :
    ((v.readBack c .dynamic).compare (w.readBack c .dynamic)).isLE := by
  have hsame := hv.same_readBack hc
  have hsame' := hw.same_readBack hc
  have hrank := rank_of_same hsame
  have hrank' := rank_of_same hsame'
  by_cases hranks : rank v.content = rank w.content
  swap
  · rwa [compare_of_rank_ne (hrank ▸ hrank' ▸ hranks), ← hrank, ← hrank',
      ← compare_of_rank_ne hranks]
  obtain hnull | hleaf | hcontainer := rank_cases_of_same hsame
  · rw [readBack_of_null (hv.of_rank hnull).2, readBack_of_null (hw.of_rank (hranks ▸ hnull)).2]
    exact Std.ReflCmp.isLE_rfl
  · rw [← Std.TransCmp.congr_left (compare_eq_eq_of_same hsame hleaf),
      ← Std.TransCmp.congr_right (compare_eq_eq_of_same hsame' (hranks ▸ hleaf))]
    exact h
  · obtain ⟨bytes, bytes', hbytes, hbytes', hback⟩ :=
      hv.compare_readBack hc hw hcontainer (hranks ▸ hcontainer) hnumbers hnumbers'
    rw [compare_of_containers hcontainer (hranks ▸ hcontainer), hbytes, hbytes'] at h
    rw [hback]
    -- The names of types decide only between elements that are encoded alike.
    cases hcompare : Ord.compare bytes bytes' with
    | lt => rfl
    | gt => simp [compareBytes, hcompare] at h
    | eq =>
      simp only [compareBytes, hcompare, Ordering.eq_then] at h ⊢
      exact hnames (by rw [hbytes, hbytes', Std.LawfulEqOrd.eq_of_compare hcompare]) h

end Element

end TypedData.Value
