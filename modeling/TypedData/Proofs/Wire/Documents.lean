import TypedData.Proofs.Json.Documented
import TypedData.Proofs.Ty.Canonical
import TypedData.Proofs.Wire.Agreement

/-!
# Values of documents over the wire

The value of a JSON document holds no sets, and its nulls have the types of their slots. So it
comes back equal from either format, whatever the order in which its types list their attributes.
In its text there is no number in place of an object, unless the text is refused.

## Main definitions

* `Value.Restored` — values that come back equal from a slot

## Main results

* `Value.Documented.restored` — the value of a document comes back equal
* `Value.Documented.spelled` — its text spells out a number only if it is refused
-/

namespace TypedData

/-- Types of documents have no capsules. -/
theorem Ty.JsonLike.hasCapsule_eq_false {t : Ty} (h : t.JsonLike) : t.hasCapsule = false := by
  induction h with
  | bool | number | string | dynamic => rfl
  | list _ ih => exact ih
  | object _ ih =>
    rw [hasCapsule, anyCapsuleAttr_eq_any, List.any_eq_false]
    exact fun a ha => Bool.eq_false_iff.mp (ih a ha)

namespace Ty

open Json (Refused numberName)

variable {t : Ty} {attrs : List (Attr Ty)} {a : Attr Ty} {j k : Json}

/-! ### Texts of types that are refused -/

theorem refused_of_list (hj : (list t).toJson = .ok j) (hk : t.toJson = .ok k) (h : k.Refused) :
    j.Refused := by
  rw [toJson, hk] at hj
  obtain rfl := Except.ok.inj hj
  exact .item (by simp) h

theorem refused_of_object (hj : (object attrs).toJson = .ok j) (ha : a ∈ attrs)
    (hk : a.ty.toJson = .ok k) (h : k.Refused) : j.Refused := by
  rw [toJson_object] at hj
  obtain ⟨fields, hfields, rfl⟩ := Except.map_eq_ok_iff.mp hj
  rw [firstError_map_eq_ok_iff] at hfields
  obtain ⟨f, hf, -, hwritten⟩ := hfields.exists_of_mem_left (Attr.mem_inKeyOrder.mpr ha)
  obtain rfl := Except.ok.inj (hwritten.symm.trans hk)
  exact .item (List.mem_cons_of_mem _ (List.mem_cons_self ..)) (.field hf h)

/-- The type of an object whose first attribute has the reserved name is refused. -/
theorem refused_of_head (hattrs : (object attrs).WellFormed)
    (hname : (Attr.sortedNames attrs).head? = some numberName)
    (hj : (object attrs).toJson = .ok j) : j.Refused := by
  rw [toJson_object] at hj
  obtain ⟨fields, hfields, rfl⟩ := Except.map_eq_ok_iff.mp hj
  rw [firstError_map_eq_ok_iff] at hfields
  rw [← Attr.map_name_inKeyOrder] at hname
  have hmem {a : Attr Ty} (ha : a ∈ Attr.inKeyOrder attrs) : a.ty.WellFormed :=
    (Attr.WellFormed.of_object hattrs).types a (Attr.mem_inKeyOrder.mp ha)
  revert hname hfields hmem
  generalize Attr.inKeyOrder attrs = sorted
  intro hname hfields hmem
  cases hfields with
  | nil => cases hname
  | @cons a f _ _ hf _ =>
    obtain ⟨name, j⟩ := f
    obtain rfl : name = numberName := hf.1.symm.trans (Option.some.inj hname)
    have hnone := (describes_of_toJson (hmem (by simp)) hf.2).noNumber numberName
    exact .item (List.mem_cons_of_mem _ (List.mem_cons_self ..)) (.here hnone)

end Ty

namespace Value

variable {c : Wire.Echo} {s t own : Ty} {v w : Value} {vs : List Value} {es : Entries Value}

/-- The type of what stands in the value of a document has no capsules. -/
theorem Documented.hasCapsule_eq_false (hd : v.Documented t) (hv : v.WellFormed)
    (ht : t.JsonLike) : ∀ w, v.Contains w → w.ty.hasCapsule = false := by
  induction hd with
  | null => exact forall_contains_iff.mpr ⟨ht.hasCapsule_eq_false, nofun⟩
  | bool | number | string => exact forall_contains_iff.mpr ⟨rfl, nofun⟩
  | list elem _ ih =>
    exact forall_contains_iff.mpr ⟨(Ty.JsonLike.list elem).hasCapsule_eq_false,
      fun v hmem => ih v hmem (hv.of_mem_items hmem) elem⟩
  | object types _ ih =>
    refine forall_contains_iff.mpr ⟨(Ty.JsonLike.object types).hasCapsule_eq_false, fun x hx => ?_⟩
    obtain ⟨e, he, rfl⟩ := List.mem_map.mp hx
    obtain ⟨u, hu, -⟩ := hv.exists_slotOf he
    obtain ⟨a, ha, -⟩ := Option.map_eq_some_iff.mp hu
    exact ih e he a ha (hv.of_mem_entries he) (types a (Attr.mem_of_find? ha))

/-! ### Documents -/

/-- A value comes back from a slot as an equal one that may stand there. -/
structure Restored (c : Wire.Echo) (t : Ty) (v : Value) : Prop where
  wellFormed : (v.readBack c t).WellFormed
  inSlot : (v.readBack c t).InSlot t
  same : (v.readBack c t).same v

/-- The type with which a known value comes back equals its own and may stand in the slot. -/
theorem slotType_spec (hc : c.Faithful) (hown : own.WellFormed) (hs : s.WellFormed)
    (ht : t.WellFormed) (hts : t.same s) (hin : s.isDynamic ∨ own.same s)
    (hread : typeRead c t own) :
    (c.slotType t own).WellFormed ∧ (c.slotType t own).same own ∧
      (t.isDynamic ∨ (c.slotType t own).same t) := by
  cases hdynamic : t.isDynamic with
  | false =>
    have hsame := hin.resolve_left (by simp [← isDynamic_of_same hts, hdynamic])
    simp only [Wire.Echo.slotType, hdynamic, Bool.false_eq_true, if_false, false_or]
    exact ⟨ht, ht.same_trans hts (hown.same_symm hs hsame), ht.same_refl⟩
  | true =>
    simp only [typeRead, hdynamic, Bool.not_true, Bool.false_or] at hread
    obtain ⟨u, hu⟩ := Option.isSome_iff_exists.mp hread
    have hwell := (c.type_spec _ _ hu).1
    simp only [Wire.Echo.slotType, hdynamic, if_true, hu, Option.getD_some, true_or, and_true]
    obtain rfl := hc.type_eq _ _ hown hu
    exact ⟨hwell, hown.same_symm hwell hown.same_inKeyOrder⟩

theorem exists_list_of_same (h : t.same (.list s)) : ∃ u, t = .list u := by
  cases t <;> first | exact ⟨_, rfl⟩ | cases h

theorem exists_object_of_same {attrs : List (Attr Ty)} (h : t.same (.object attrs)) :
    ∃ attrs', t = .object attrs' := by
  cases t <;> first | exact ⟨_, rfl⟩ | cases h

/-- What comes back as a known value of such a type is restored. -/
theorem restored_of_content {content : Content Value}
    (heq : v.readBack c t = ofContent (c.slotType t v.ty) content)
    (hwell : (ofContent (c.slotType t v.ty) content).WellFormed)
    (hsame : (c.slotType t v.ty).same v.ty) (hslot : t.isDynamic ∨ (c.slotType t v.ty).same t)
    (hcontent : sameContent content v.content) : v.Restored c t where
  wellFormed := heq ▸ hwell
  inSlot := heq ▸ hslot
  same := heq ▸ same_iff.mpr ⟨hsame, hcontent⟩

/-- A list comes back if its elements do. -/
theorem restored_list {u u' : Ty} {m : Marks} (hv : WellFormed ⟨.list u, .items vs, m⟩)
    (heq : c.slotType t (.list u) = .list u') (hu' : u'.WellFormed) (hsame : u'.same u)
    (hslot : t.isDynamic ∨ (Ty.list u').same t) (hitems : ∀ v ∈ vs, v.Restored c u') :
    Restored c t ⟨.list u, .items vs, m⟩ := by
  have hback : readBack c t ⟨.list u, .items vs, m⟩ =
      ofContent (c.slotType t (.list u)) (.items (vs.map (readBack c u'))) := by
    rw [← readBackEach_replicate, readBack, heq]
    rfl
  refine restored_of_content hback ?_ (heq ▸ hsame) (heq ▸ hslot) ?_
  · rw [heq]
    cases hv with
    | list _ _ _ known =>
      refine .list hu' ?_ ?_ ?_ <;> simp only [List.forall_mem_map]
      · exact fun v hv => (hitems v hv).wellFormed
      · exact fun v hv => (hitems v hv).inSlot
      · exact fun v hv => (isUnknown_readBack c u' v).trans (known v hv)
  · refine sameEach_iff.mpr (List.forall₂_map_left_iff.mpr (List.forall₂_same.mpr ?_))
    exact fun v hv => (hitems v hv).same

/-- An object comes back if its entries do. -/
theorem restored_object {attrs attrs' : List (Attr Ty)} {m : Marks}
    (hv : WellFormed ⟨.object attrs, .entries es, m⟩)
    (heq : c.slotType t (.object attrs) = .object attrs') (hwell : (Ty.object attrs').WellFormed)
    (hsame : (Ty.object attrs').same (.object attrs))
    (hslot : t.isDynamic ∨ (Ty.object attrs').same t)
    (hentries : ∀ e ∈ es, e.2.Restored c (entrySlot (.object attrs') e.1)) :
    Restored c t ⟨.object attrs, .entries es, m⟩ := by
  have hback : readBack c t ⟨.object attrs, .entries es, m⟩ =
      ofContent (c.slotType t (.object attrs))
        (.entries (es.map fun e => (e.1, e.2.readBack c (entrySlot (.object attrs') e.1)))) := by
    rw [← readBackEntries_eq_map, readBack, heq]
  refine restored_of_content hback ?_ (heq ▸ hsame) (heq ▸ hslot) ?_
  · rw [heq]
    refine .object hwell ?_ ?_ ?_
    · simp only [List.forall_mem_map]
      exact fun e he => (hentries e he).wellFormed
    · rw [List.map_map, ← hv.keys_of_same_object hwell (hwell.same_symm hv.type_wellFormed hsame)]
      rfl
    · simp only [List.forall_mem_map]
      intro e he a ha
      have hslot : entrySlot (.object attrs') e.1 = a.ty := by
        rw [entrySlot, slotOf?, ha]
        rfl
      exact hslot ▸ (hentries e he).inSlot
  · refine sameEntries_iff.mpr (List.forall₂_map_left_iff.mpr (List.forall₂_same.mpr ?_))
    exact fun e he => ⟨rfl, (hentries e he).same⟩

/-- The value of a document comes back equal, from a slot that equals the one it stands in. -/
theorem Documented.restored (hc : c.Faithful) (hd : v.Documented s) (hv : v.WellFormed)
    (hs : s.WellFormed) (ht : t.WellFormed) (hts : t.same s) (hin : v.InSlot s)
    (hread : v.typesRead c t) : v.Restored c t := by
  have hown := hv.type_wellFormed
  -- The type that comes back equals the own one, so the parts have equal slots to come back from.
  induction hd generalizing t with
  | null => exact ⟨.null ht, .of_same ht.same_refl, same_iff.mpr ⟨hts, rfl⟩⟩
  | bool | string | number =>
    obtain ⟨hwell, hsame, hslot⟩ := slotType_spec hc hown hs ht hts hin hread
    have heq := eq_of_same_of_isPrimitive rfl (hwell.same_symm hown hsame)
    refine restored_of_content rfl ?_ hsame hslot ?_
    · rw [heq]
      constructor
    · first | exact beq_self_eq_true _ | exact c.same_number _
  | @list s u vs m _ _ ih =>
    rw [typesRead, Bool.and_eq_true] at hread
    obtain ⟨hwell, hsame, hslot⟩ := slotType_spec hc hown hs ht hts hin hread.1
    obtain ⟨u', heq⟩ := exists_list_of_same hsame
    simp only [heq] at hwell hsame hslot hread
    have hu' : u'.WellFormed := by
      cases hwell
      assumption
    refine restored_list hv heq hu' hsame hslot fun v hmem => ?_
    cases hv with
    | list type elems slots =>
      exact ih v hmem (elems v hmem) type hu' hsame (slots v hmem)
        (typesReadEach_replicate_iff.mp hread.2 v hmem) (elems v hmem).type_wellFormed
  | @object s attrs es m _ _ ih =>
    rw [typesRead, Bool.and_eq_true] at hread
    obtain ⟨hwell, hsame, hslot⟩ := slotType_spec hc hown hs ht hts hin hread.1
    obtain ⟨attrs', heq⟩ := exists_object_of_same hsame
    simp only [heq] at hwell hsame hslot hread
    refine restored_object hv heq hwell hsame hslot fun e he => ?_
    have hmember := hv.of_mem_entries he
    obtain ⟨u, hu, -⟩ := hv.exists_slotOf he
    obtain ⟨htype, htype', hin, huu'⟩ :=
      hv.entry_slots hown hwell hown.same_refl (hwell.same_symm hown hsame) he hu
    obtain ⟨a, ha, rfl⟩ := Option.map_eq_some_iff.mp hu
    exact ih e he a ha hmember htype htype' (htype.same_symm htype' huu') hin
      (typesReadEntries_iff.mp hread.2 e he) hmember.type_wellFormed

/-! ### Texts of documents -/

theorem exists_of_mem_itemsToJson {i : Nat} {js : List Json} {j : Json}
    (h : itemsToJson i (List.replicate vs.length t) vs = .ok js) (hj : j ∈ js) :
    ∃ v ∈ vs, v.toJson t = .ok j := by
  induction vs generalizing i js with
  | nil =>
    obtain rfl := Except.ok.inj h
    cases hj
  | cons v vs ih =>
    rw [List.length_cons, List.replicate_succ] at h
    obtain ⟨j', js', hj', hjs', rfl⟩ := Json.exists_of_itemsToJson_cons h
    rcases List.mem_cons.mp hj with rfl | hj
    · exact ⟨v, by simp, hj'⟩
    · obtain ⟨w, hw, hwritten⟩ := ih hjs' hj
      exact ⟨w, by simp [hw], hwritten⟩

theorem exists_of_mem_entriesToJson {slotOf : String → Option Ty} {fs : List (String × Json)}
    {f : String × Json} (h : entriesToJson slotOf es = .ok fs) (hf : f ∈ fs) :
    ∃ e ∈ es, ∃ u, slotOf e.1 = some u ∧ e.2.toJson u = .ok f.2 := by
  induction es generalizing fs with
  | nil =>
    obtain rfl := Except.ok.inj h
    cases hf
  | cons e es ih =>
    obtain ⟨u, j, fs', hu, hj, hfs', rfl⟩ := Json.exists_of_entriesToJson_cons h
    rcases List.mem_cons.mp hf with rfl | hf
    · exact ⟨e, by simp, u, hu, hj⟩
    · obtain ⟨e', he', hwritten⟩ := ih hfs' hf
      exact ⟨e', by simp [he'], hwritten⟩

/-- The text of a known value beside its type, which holds no number. -/
theorem spelled_of_known {X : Prop} {j : Json} (hv : v.WellFormed) (hknown : v.isKnown)
    (hown : v.ty.JsonLike) (hs : s.WellFormed) (ht : t.WellFormed) (hlike : t.JsonLike)
    (hts : t.same s) (hin : v.InSlot s) (hj : v.toJson t = .ok j) (hvalue : j.Refused → X)
    (htype : ∀ k, t.isDynamic = false → t.toJson = .ok k → k.Refused → X)
    (h : ∀ u j, u.WellFormed → u.JsonLike → u.isDynamic = false → u.same v.ty →
      v.toJson u = .ok j → (j.Refused → X) → (∀ k, u.toJson = .ok k → k.Refused → X) →
      j.Spelled fun f => Json.Reader.spellsNumber f = true → X) :
    j.Spelled fun f => Json.Reader.spellsNumber f = true → X := by
  have hwell := hv.type_wellFormed
  cases hdynamic : t.isDynamic with
  | false =>
    have hsame := hin.same (isDynamic_of_same hts ▸ hdynamic)
    exact h t j ht hlike hdynamic (ht.same_trans hts (hwell.same_symm hs hsame)) hj hvalue
      fun k => htype k hdynamic
  | true =>
    have hconcrete := hv.isDynamic_eq_false hknown
    obtain ⟨inner, spec, hinner, hspec, rfl⟩ :=
      Json.exists_of_toJson_of_isDynamic hdynamic hknown hconcrete hj
    have hfields : ∀ f ∈ [("value", inner), ("type", spec)], f.2.Refused → X :=
      fun f hf hrefused => hvalue (.field hf hrefused)
    have hinner := h v.ty inner hwell hown hconcrete hwell.same_refl hinner
      (hfields ("value", inner) (by simp)) fun k hk hrefused =>
        hfields ("type", spec) (by simp) (Except.ok.inj (hk.symm.trans hspec) ▸ hrefused)
    have hspec := (Ty.describes_of_toJson hwell hspec).spelled
    refine .object (by simp) ?_ ?_
    · intro f hf hspells
      obtain rfl := Option.some.inj hf
      cases hspells
    · simp only [List.forall_mem_cons]
      exact ⟨hinner, hspec.imp fun f hnone hspells => by simp [hnone] at hspells, nofun⟩

/-- The text of an object spells out a number only if one of its entries does, or its type cannot
be written. -/
theorem spelled_object {X : Prop} {attrs attrs' : List (Attr Ty)} {m : Marks} {spec : Json}
    {fs : List (String × Json)} (hv : WellFormed ⟨.object attrs, .entries es, m⟩)
    (hu : (Ty.object attrs').WellFormed) (hsame : (Ty.object attrs').same (.object attrs))
    (hspec : (Ty.object attrs').toJson = .ok spec)
    (hfs : entriesToJson (slotOf? (.object attrs')) es = .ok fs) (htype : spec.Refused → X)
    (hfields : ∀ f ∈ fs, f.2.Spelled fun f => Json.Reader.spellsNumber f = true → X) :
    (Json.object fs).Spelled fun f => Json.Reader.spellsNumber f = true → X := by
  have hkeys := (Json.keys_of_entriesToJson hfs).trans
    (hv.keys_of_same_object hu (hu.same_symm hv.type_wellFormed hsame))
  refine .object ?_ (fun f hf hspells => ?_) hfields
  · rw [Json.keys_of_entriesToJson hfs]
    exact hv.nodup_keys
  · simp only [Json.Reader.spellsNumber, Bool.and_eq_true, beq_iff_eq] at hspells
    refine htype (Ty.refused_of_head hu ?_ hspec)
    rw [← hkeys, List.head?_map, hf, Option.map_some, hspells.1]

/-- The text of the value of a document spells out a number only if something in it, or in the text
of the type it is written for, is refused: the types of objects name the same attributes. -/
theorem Documented.spelled {X : Prop} {j : Json} (hd : v.Documented s) (hv : v.WellFormed)
    (hs : s.WellFormed) (ht : t.WellFormed) (hlike : t.JsonLike) (hts : t.same s)
    (hin : v.InSlot s) (hj : v.toJson t = .ok j) (hvalue : j.Refused → X)
    (htype : ∀ k, t.isDynamic = false → t.toJson = .ok k → k.Refused → X) :
    j.Spelled fun f => Json.Reader.spellsNumber f = true → X := by
  -- A type beside the value holds no number, so that only the value and its slot have a say.
  induction hd generalizing t j with
  | null =>
    obtain rfl := Except.ok.inj hj
    exact .null
  | bool | number | string =>
    refine spelled_of_known hv rfl ?_ hs ht hlike hts hin hj hvalue htype
      fun u j _ _ _ hsame hj _ _ => ?_
    · constructor
    · cases u <;> cases hsame
      obtain rfl := Except.ok.inj hj
      first | exact .bool _ | exact .string _ | exact .number (Json.Token.isNumber_plain _)
  | list elem _ ih =>
    refine spelled_of_known hv rfl (.list elem) hs ht hlike hts hin hj hvalue htype
      fun u j hu hlike hconcrete hsame hj hvalue htype => ?_
    obtain ⟨u, rfl⟩ := exists_list_of_same hsame
    obtain ⟨_, js, hslots, hjs, rfl⟩ := Json.exists_of_toJson_items hconcrete hj
    obtain rfl := Option.some.inj hslots
    cases hlike with | list hlike
    cases hv with
    | list type elems slots =>
      refine .array fun j hmem => ?_
      obtain ⟨v, hv, hwritten⟩ := exists_of_mem_itemsToJson hjs hmem
      have hu' : u.WellFormed := by
        cases hu
        assumption
      refine ih v hv (elems v hv) type hu' hlike hsame (slots v hv) hwritten
        (fun hrefused => hvalue (.item hmem hrefused)) fun k _ hk hrefused => ?_
      obtain ⟨spec, hspec⟩ := Ty.exists_describes hu (Ty.JsonLike.list hlike).hasCapsule_eq_false
      exact htype spec hspec.written (Ty.refused_of_list hspec.written hk hrefused)
  | @object s attrs es m types _ ih =>
    refine spelled_of_known hv rfl (.object types) hs ht hlike hts hin hj hvalue htype
      fun u j hu hlike hconcrete hsame hj hvalue htype => ?_
    obtain ⟨attrs', rfl⟩ := exists_object_of_same hsame
    obtain ⟨-, fs, hfs, rfl⟩ := Json.exists_of_toJson_entries hconcrete hj
    obtain ⟨spec, hspec⟩ := Ty.exists_describes hu hlike.hasCapsule_eq_false
    cases hlike with | object types' =>
    refine spelled_object hv hu hsame hspec.written hfs (htype spec hspec.written) fun f hf => ?_
    obtain ⟨e, he, u', hu', hwritten⟩ := exists_of_mem_entriesToJson hfs hf
    obtain ⟨u, hslot, huu'⟩ := exists_slotOf_of_same hsame hu'
    obtain ⟨a, ha, rfl⟩ := Option.map_eq_some_iff.mp hslot
    obtain ⟨a', ha', rfl⟩ := Option.map_eq_some_iff.mp hu'
    have hmem := Attr.mem_of_find? ha'
    obtain ⟨_, hslot', hin⟩ := hv.exists_slotOf he
    obtain rfl := Option.some.inj (hslot'.symm.trans hslot)
    refine ih e he a ha (hv.of_mem_entries he) (slotOf?_wellFormed hv.type_wellFormed hslot)
      (slotOf?_wellFormed hu hu') (types' a' hmem) huu' hin hwritten
      (fun hrefused => hvalue (.field hf hrefused)) fun k _ hk hrefused => ?_
    exact htype spec hspec.written (Ty.refused_of_object hspec.written hmem hk hrefused)

end Value

end TypedData
