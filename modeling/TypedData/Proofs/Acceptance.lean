import TypedData.Proofs.Ty.Unify
import TypedData.Proofs.Validation
import TypedData.Proofs.Value.Nesting
import TypedData.Proofs.Value.Slots

/-!
# Values of assignable types

A value may be given in place of native data. It is accepted exactly if its type is assignable to
the type asked for, and it then converts to that type too, with the same outcome. No limit on
numbers is in the way, since scalars stay as they are.

## Main results

* `Value.exists_convertAt_of_depth`, `Value.exists_convertAt_of_usableAs` — values of assignable
  types convert
* `Value.ty_of_convertAt` — what a conversion leaves alone, and the type it gives otherwise
* `Native.validate_value_iff_usableAs` — values are accepted exactly if their type is assignable
* `Ty.upper_bound_unify` — values of several types convert to the type that these share
-/

namespace TypedData

namespace Value

variable {limits : Limits} {depth : Nat} {target : Ty} {v w : Value}

/-! ### The outcome of a conversion -/

theorem ty_of_retype? (h : v.retype? target = some w) : w.ty = target := by
  unfold retype? at h
  split at h <;> cases h <;> rfl

/-- A conversion leaves alone what stands in the slot already, and gives anything else the type
that is asked for. -/
theorem ty_of_convertAt (h : v.convertAt limits depth target = .ok w) :
    (v.InSlot target ∧ w = v) ∨ (¬ v.InSlot target ∧ w.ty = target) := by
  by_cases hslot : v.InSlot target
  · rw [convertAt_of_inSlot hslot] at h
    exact .inl ⟨hslot, (Except.ok.inj h).symm⟩
  · refine .inr ⟨hslot, ?_⟩
    cases conversionStep_of_convertAt h with
    | keep hkeep => exact absurd hkeep hslot
    | retyped hw => exact ty_of_retype? hw
    | sequence => exact sequence_ty _ _
    | map => exact mapping_ty _ _
    | object => exact mapping_ty _ _
    | scalar hw => exact (wellFormed_of_convertScalar hw).2

/-! ### Parts of a conversion that succeed -/

/-- What stands in a slot whose type is assignable has an assignable type. -/
theorem InSlot.usableAs {s : Ty} (h : v.InSlot s) (hv : v.ty.WellFormed) (hs : s.WellFormed)
    (huse : s.usableAs target) : v.ty.usableAs target := by
  rcases h with hdynamic | hsame
  · exact Ty.usableAs_of_isDynamic (Ty.isDynamic_of_usableAs huse hdynamic)
  · exact hv.usableAs_of_same hs hsame huse

/-- The places of elements of an assignable type are assignable. -/
theorem exists_targets_of_usableAs {s : Ty} {n : Nat} {ss : List Ty} (huse : s.usableAs target)
    (hdynamic : target.isDynamic = false) (hss : slots? s n = some ss) :
    ∃ ts, elementTargets target n = .ok ts ∧ List.Forall₂ (fun s t => s.usableAs t) ss ts := by
  unfold slots? at hss
  split at hss
  · cases target <;> simp only [Ty.usableAs, Ty.isDynamic, Bool.false_eq_true, reduceCtorEq]
      at huse hdynamic
    obtain rfl := Option.some.inj hss
    exact ⟨_, rfl, List.forall₂_iff_get.mpr ⟨by simp, fun i _ _ => by simpa using huse⟩⟩
  · cases target <;> simp only [Ty.usableAs, Ty.isDynamic, Bool.false_eq_true, reduceCtorEq]
      at huse hdynamic
    obtain rfl := Option.some.inj hss
    exact ⟨_, rfl, List.forall₂_iff_get.mpr ⟨by simp, fun i _ _ => by simpa using huse⟩⟩
  · split at hss
    · rename_i hlength
      obtain rfl := Option.some.inj hss
      cases target <;> simp only [Ty.usableAs, Ty.isDynamic, Bool.false_eq_true, reduceCtorEq]
        at huse hdynamic
      rw [Ty.usableEach_iff] at huse
      exact ⟨_, by rw [elementTargets, if_pos (hlength.trans huse.length_eq)], huse⟩
    · cases hss
  · cases hss

/-- The elements of a value have types that are assignable in the places of an assignable type. -/
theorem WellFormed.exists_elementTargets {own : Ty} {vs : List Value} {m : Marks}
    (hv : WellFormed ⟨own, .items vs, m⟩) (htarget : target.WellFormed)
    (huse : own.usableAs target) (hdynamic : target.isDynamic = false) :
    ∃ ts, elementTargets target vs.length = .ok ts ∧
      List.Forall₂ (fun v t => t.WellFormed ∧ v.ty.usableAs t) vs ts := by
  obtain ⟨ss, hss, hin, hwell⟩ := hv.exists_slots
  obtain ⟨ts, hts, huses⟩ := exists_targets_of_usableAs huse hdynamic hss
  have hwell' := (fills_of_slots? htarget (slots?_of_elementTargets hts)).2.1
  refine ⟨ts, hts, ?_⟩
  rw [List.forall₂_iff_get] at hin huses ⊢
  refine ⟨hin.1.trans huses.1, fun i hi hi' => ⟨hwell' _ (List.get_mem _ _), ?_⟩⟩
  have his : i < ss.length := hin.1 ▸ hi
  exact (hin.2 i hi his).usableAs (hv.of_mem_items (List.get_mem _ _)).type_wellFormed
    (hwell _ (List.get_mem _ _)) (huses.2 i his hi')

/-! ### Conversion to an assignable type -/

/-- A known value without members stands in every slot that its type is assignable to. -/
theorem WellFormed.inSlot_of_usableAs (hv : v.WellFormed) (hknown : v.isKnown)
    (hitems : v.elements? = none) (hentries : v.entries? = none) (huse : v.ty.usableAs target) :
    v.InSlot target := by
  cases hv with
  | null | unknown => cases hknown
  | bool | number | string | capsule =>
    cases target <;> first | exact .of_isDynamic rfl | exact .of_same huse
  | list | set | tuple => cases hitems
  | map | object => cases hentries

theorem exists_convertAt_of_step (hdepth : depth ≤ limits.maxDepth)
    (h : ¬ v.InSlot target → ∃ w, ConversionStep limits depth target v w) :
    ∃ w, v.convertAt limits depth target = .ok w := by
  by_cases hslot : v.InSlot target
  · exact ⟨v, convertAt_of_inSlot hslot⟩
  · obtain ⟨w, hw⟩ := h hslot
    exact ⟨w, convertAt_of_conversionStep hw hslot hdepth⟩

theorem WellFormed.isSequence {own : Ty} {vs : List Value} {m : Marks}
    (hv : WellFormed ⟨own, .items vs, m⟩) : own.isSequence := by
  cases hv <;> rfl

/-- The members of a map convert to its target's, if they convert to every type that their place
in the map is assignable to. -/
theorem exists_step_of_map {t u : Ty} {es : Entries Value} {m : Marks}
    (htarget : (Ty.map u).WellFormed) (huse : t.usableAs u)
    (hmember : ∀ e ∈ es, ∀ u, u.WellFormed → (∀ s, slotOf? (.map t) e.1 = some s → s.usableAs u) →
      ∃ w, e.2.convertAt limits (depth + 1) u = .ok w) :
    ∃ w, ConversionStep limits depth (.map u) ⟨.map t, .entries es, m⟩ w := by
  suffices h : ∃ fs, Ty.firstError ((convertEntries limits (depth + 1) (fun _ => some u) es).map
      fun x => (x.1, x.2.mapError (·.inside (.key x.1)))) = .ok fs from
    h.elim fun fs hfs => ⟨_, .map rfl hfs⟩
  refine exists_firstError fun x hx => ?_
  obtain ⟨⟨k, r⟩, hmem, rfl⟩ := List.mem_map.mp hx
  obtain ⟨v, t, he, ht, rfl⟩ := exists_of_mem_convertEntries hmem
  obtain rfl := Option.some.inj ht
  cases htarget with
  | map hu =>
    obtain ⟨w, hw⟩ := hmember _ he _ hu fun s hs => Option.some.inj hs ▸ huse
    exact ⟨w, Except.mapError_eq_ok_iff.mpr hw⟩

/-- So do the members of an object, which has those that its target asks for. -/
theorem exists_step_of_object {attrs bs : List (Attr Ty)} {es : Entries Value} {m : Marks}
    (htarget : (Ty.object bs).WellFormed) (huse : (Ty.object attrs).usableAs (.object bs))
    (keys : es.map (·.1) = Attr.sortedNames attrs)
    (hmember : ∀ e ∈ es, ∀ u, u.WellFormed →
      (∀ s, slotOf? (.object attrs) e.1 = some s → s.usableAs u) →
        ∃ w, e.2.convertAt limits (depth + 1) u = .ok w) :
    ∃ w, ConversionStep limits depth (.object bs) ⟨.object attrs, .entries es, m⟩ w := by
  have hbs := Attr.WellFormed.of_object htarget
  rw [Ty.usableAs, Ty.usableAttrs_iff] at huse
  suffices h : ∃ fs, Ty.firstError (convertedAttributes (.object attrs) (.object bs) bs
      (convertEntries limits (depth + 1) (fun k => (Attr.find? bs k).map (·.ty)) es)) =
        .ok fs from
    h.elim fun fs hfs => ⟨_, .object rfl rfl hfs⟩
  refine exists_firstError_convertedAttributes (fun x hx => ?_) fun b hb => ?_
  · obtain ⟨v, t, he, ht, hx⟩ := exists_of_mem_convertEntries hx
    obtain ⟨b, hb, rfl⟩ := Option.map_eq_some_iff.mp ht
    rw [hx]
    refine hmember _ he _ (hbs.types b (Attr.mem_of_find? hb)) fun s hs => ?_
    obtain ⟨a, ha, rfl⟩ := Option.map_eq_some_iff.mp hs
    -- The attribute asked for is there, since the object has one of that name.
    rcases huse b (Attr.mem_of_find? hb) with ⟨a', ha', hab⟩ | ⟨hnone, -⟩
    · rw [Attr.name_of_find? hb, ha] at ha'
      exact Option.some.inj ha' ▸ hab
    · rw [Attr.name_of_find? hb, ha] at hnone
      cases hnone
  · rcases huse b hb with ⟨a, ha, -⟩ | ⟨-, ho⟩
    · have hkey : b.name ∈ es.map (·.1) := by
        rw [keys, Attr.sortedNames, List.mem_mergeSort, ← Attr.find?_isSome_iff, ha]
        rfl
      obtain ⟨e, he, hname⟩ := List.mem_map.mp hkey
      have ht : (Attr.find? bs e.1).map (·.ty) = some b.ty := by
        rw [hname, Attr.find?_eq_some_of_mem hbs.names hb, Option.map_some]
      exact .inl (hname ▸ List.mem_map_of_mem (mem_convertEntries he ht))
    · exact .inr ho

/-- A value converts to every type that its own is assignable to, unless something in it stands
too deep. -/
theorem exists_convertAt_of_depth (hv : v.WellFormed) (htarget : target.WellFormed)
    (huse : v.ty.usableAs target) (hdepth : depth + v.depth ≤ limits.maxDepth) :
    ∃ w, v.convertAt limits depth target = .ok w := by
  induction v using Value.induction generalizing depth target with
  | null | unknown =>
    refine exists_convertAt_of_step (Nat.le_of_add_right_le hdepth) fun _ => ?_
    exact ⟨_, .retyped rfl (Ty.convertible_of_usableAs hv.type_wellFormed huse)⟩
  | bool | number | string | capsule =>
    exact ⟨_, convertAt_of_inSlot (hv.inSlot_of_usableAs rfl rfl rfl huse)⟩
  | items own vs m ih =>
    refine exists_convertAt_of_step (Nat.le_of_add_right_le hdepth) fun hslot => ?_
    have hdynamic : target.isDynamic = false := Bool.eq_false_iff.mpr fun h => hslot (.inl h)
    obtain ⟨ts, hts, huses⟩ := hv.exists_elementTargets htarget huse hdynamic
    have helems :
        List.Forall₂ (fun v t => ∃ w, v.convertAt limits (depth + 1) t = .ok w) vs ts := by
      refine huses.imp_of_mem fun v hmem t _ h => ?_
      obtain ⟨ht, huse⟩ := h
      have hinside := depth_lt_depthInside hmem
      rw [Value.depth] at hdepth
      exact ih v hmem (hv.of_mem_items hmem) ht huse (by omega)
    obtain ⟨ws, hws⟩ := (exists_convertItems_iff (i := 0) helems.length_eq).mpr helems
    exact ⟨_, .sequence hv.isSequence hts hws⟩
  | entries own es m ih =>
    refine exists_convertAt_of_step (Nat.le_of_add_right_le hdepth) fun hslot => ?_
    have hmember : ∀ e ∈ es, ∀ u, u.WellFormed → (∀ s, slotOf? own e.1 = some s → s.usableAs u) →
        ∃ w, e.2.convertAt limits (depth + 1) u = .ok w := by
      intro e he u hu huse
      obtain ⟨s, hs, hin⟩ := hv.exists_slotOf he
      have hinside := depth_lt_depthInsideEntries he
      rw [Value.depth] at hdepth
      have hwell := hv.of_mem_entries he
      exact ih e he hwell hu (hin.usableAs hwell.type_wellFormed
        (slotOf?_wellFormed hv.type_wellFormed hs) (huse s hs)) (by omega)
    have hdynamic : target.isDynamic = false := Bool.eq_false_iff.mpr fun h => hslot (.inl h)
    -- Maps are assignable to maps only, and objects to objects.
    cases hv with
    | map =>
      cases target <;> simp only [Ty.usableAs, Ty.isDynamic, Bool.false_eq_true, reduceCtorEq]
        at huse hdynamic
      exact exists_step_of_map htarget huse hmember
    | object _ _ keys =>
      cases target with
      | object => exact exists_step_of_object htarget huse keys hmember
      | _ => simp [Ty.usableAs, Ty.isDynamic] at huse hdynamic

/-- So it does if there are few enough containers in it. -/
theorem exists_convertAt_of_usableAs (hv : v.WellFormed) (htarget : target.WellFormed)
    (huse : v.ty.usableAs target) (hdepth : depth + v.nesting ≤ limits.maxDepth) :
    ∃ w, v.convertAt limits depth target = .ok w :=
  exists_convertAt_of_depth hv htarget huse
    (Nat.le_trans (Nat.add_le_add_left v.depth_le_nesting depth) hdepth)

end Value

namespace Native

open Value

variable {limits : Limits} {ty : Ty} {v w : Value}

/-- Accepting a value of an assignable type is converting it. -/
theorem accept_eq_ok_iff (hv : v.WellFormed) (huse : v.ty.usableAs ty) :
    accept limits ty v = .ok w ↔ v.convert limits ty = .ok w := by
  unfold accept convert
  by_cases hslot : v.InSlot ty
  · have hkeep : (v.ty == ty || ty.isDynamic) = true := Bool.or_eq_true_iff.mpr hslot.symm
    rw [if_pos hkeep, convertAt_of_inSlot hslot, Except.ok.injEq, Except.ok.injEq]
  · have hkeep : ¬ (v.ty == ty || ty.isDynamic) = true := by
      rw [Bool.or_eq_true]
      exact fun h => hslot h.symm
    rw [if_neg hkeep, huse, Bool.not_true, if_neg Bool.false_ne_true]
    split
    · rename_i u hu
      have hconvertible := Ty.convertible_of_usableAs hv.type_wellFormed huse
      rw [convertAt_of_conversionStep (.retyped hu hconvertible) hslot (Nat.zero_le _),
        Except.ok.injEq, Except.ok.injEq]
    · exact Except.mapError_eq_ok_iff

/-- Only what is assignable is accepted. -/
theorem usableAs_of_accept (hv : v.WellFormed) (hty : ty.WellFormed)
    (h : accept limits ty v = .ok w) : v.ty.usableAs ty := by
  rw [accept] at h
  split at h
  · rename_i hkeep
    rcases Bool.or_eq_true_iff.mp hkeep with hsame | hdynamic
    · exact hv.type_wellFormed.usableAs_of_same hty hsame hty.usableAs_refl
    · exact Ty.usableAs_of_isDynamic hdynamic
  · split at h
    · cases h
    · rename_i huse
      simpa using huse

/-- A value is accepted in place of native data exactly if its type is assignable to the type
asked for. It then converts to it too, both times with the same outcome: the value itself where it
may stand as it is, and otherwise a value of the type asked for. -/
theorem validate_value_iff_usableAs (hv : v.WellFormed) (hty : ty.WellFormed)
    (hdepth : v.nesting ≤ limits.maxDepth) :
    ((∃ w, (Native.value v).validate limits ty = .ok w) ↔ v.ty.usableAs ty) ∧
      (v.ty.usableAs ty → ∃ w, (Native.value v).validate limits ty = .ok w ∧
        v.convert limits ty = .ok w ∧
          ((v.InSlot ty ∧ w = v) ∨ (¬ v.InSlot ty ∧ w.ty = ty))) := by
  have haccept : (Native.value v).validate limits ty = accept limits ty v := by
    rw [validate, validateAt, if_neg (Nat.not_lt_zero _)]
  have hconverts (huse : v.ty.usableAs ty) : ∃ w, v.convert limits ty = .ok w :=
    exists_convertAt_of_usableAs hv hty huse (by rwa [Nat.zero_add])
  rw [haccept]
  refine ⟨⟨fun ⟨w, hw⟩ => usableAs_of_accept hv hty hw, fun huse => ?_⟩, fun huse => ?_⟩
  · obtain ⟨w, hw⟩ := hconverts huse
    exact ⟨w, (accept_eq_ok_iff hv huse).mpr hw⟩
  · obtain ⟨w, hw⟩ := hconverts huse
    exact ⟨w, (accept_eq_ok_iff hv huse).mpr hw, hw, ty_of_convertAt hw⟩

/-- An object sheds an attribute that is not asked for, and takes on one that may be left out. -/
theorem validate_value_sheds_attribute :
    let v : Value := ⟨.object [⟨"a", .number, false⟩, ⟨"b", .string, false⟩],
      .entries [("a", .number ⟨1, 0⟩), ("b", .string "x")], .empty⟩
    let ty := Ty.object [⟨"a", .number, false⟩, ⟨"c", .bool, true⟩]
    v.WellFormed ∧ ∃ w, (Native.value v).validate .default ty = .ok w ∧
      v.convert .default ty = .ok w ∧ w.ty = ty := by
  intro v ty
  have hown : v.ty.WellFormed := by
    refine .object (by decide) ?_ ?_ <;> simp only [List.forall_mem_cons]
    · refine ⟨by decide +kernel, by decide +kernel, nofun⟩
    · exact ⟨.number, .string, nofun⟩
  have hty : ty.WellFormed := by
    refine .object (by decide) ?_ ?_ <;> simp only [List.forall_mem_cons]
    · refine ⟨by decide +kernel, by decide +kernel, nofun⟩
    · exact ⟨.number, .bool, nofun⟩
  have hv : v.WellFormed := by
    have hkeys : Attr.sortedNames [⟨"a", Ty.number, false⟩, ⟨"b", .string, false⟩] = ["a", "b"] :=
      List.mergeSort_of_pairwise (by decide)
    refine .object hown ?_ hkeys.symm ?_ <;> simp only [List.forall_mem_cons]
    · exact ⟨.number, .string, nofun⟩
    · refine ⟨fun a ha => ?_, fun a ha => ?_, nofun⟩
      · obtain rfl := Option.some.inj ha
        exact .of_same rfl
      · obtain rfl := Option.some.inj ha
        exact .of_same rfl
  have hslot : ¬ v.InSlot ty := by
    rintro (h | h) <;> exact absurd h (by decide +kernel)
  obtain ⟨w, hw, hconvert, hkept | hgiven⟩ :=
    (@validate_value_iff_usableAs .default _ _ hv hty (by decide)).2 (by decide +kernel)
  · exact absurd hkept.1 hslot
  · exact ⟨hv, w, hw, hconvert, hgiven.2⟩

end Native

namespace Ty

/-- What several types share is an upper bound of them: each of them is assignable to it, and every
value of one of them converts to it, unless something in the value stands too deep. What may stand
there as it is stays as it is, and anything else becomes a value of the type that is shared. -/
theorem upper_bound_unify {types : List Ty} {t : Ty} (h : ∀ t ∈ types, t.WellFormed)
    (ht : t ∈ types) :
    t.usableAs (unify types) ∧
      ∀ (limits : Limits) (v : Value), v.WellFormed → v.ty.same t → v.depth ≤ limits.maxDepth →
        ∃ w, v.convert limits (unify types) = .ok w ∧ w.WellFormed ∧ w.InSlot (unify types) ∧
          ((v.InSlot (unify types) ∧ w = v) ∨
            (¬ v.InSlot (unify types) ∧ w.ty = unify types)) := by
  have huse := usableAs_unify h ht
  refine ⟨huse, fun limits v hv hsame hdepth => ?_⟩
  have hunify := wellFormed_unify h
  obtain ⟨w, hw⟩ := @Value.exists_convertAt_of_depth limits 0 _ _ hv hunify
    (hv.type_wellFormed.usableAs_of_same (h t ht) hsame huse) (by rwa [Nat.zero_add])
  obtain ⟨hwell, hslot⟩ := hv.convertAt hunify hw
  exact ⟨w, hw, hwell, hslot, Value.ty_of_convertAt hw⟩

/-- Two tuples that differ in one place share a tuple that is open in that place. -/
theorem upper_bound_unify_open_place :
    let types := [tuple [.number, .list .bool], tuple [.number, .list .string]]
    let v : Value := ⟨tuple [.number, .list .bool],
      .items [.number ⟨1, 0⟩, ⟨.list .bool, .items [.bool true], .empty⟩], .empty⟩
    (unify types).same (tuple [.number, .list .dynamic]) ∧ v.WellFormed ∧
      v.ty.usableAs (unify types) ∧
        ∃ w, v.convert .default (unify types) = .ok w ∧ w.WellFormed ∧ w.ty = unify types := by
  intro types v
  have hlist : Value.WellFormed ⟨.list .bool, .items [.bool true], .empty⟩ := by
    refine .list .bool ?_ ?_ ?_ <;> rw [List.forall_mem_singleton]
    · exact .bool
    · exact .of_same rfl
    · rfl
  have hplaces : ∀ t ∈ [number, .list .bool], t.WellFormed :=
    List.forall_mem_pair.mpr ⟨.number, .list .bool⟩
  have htypes : ∀ t ∈ types, t.WellFormed := List.forall_mem_pair.mpr
    ⟨.tuple hplaces, .tuple (List.forall_mem_pair.mpr ⟨.number, .list .string⟩)⟩
  have hv : v.WellFormed := .tuple hplaces (List.forall_mem_pair.mpr ⟨.number, hlist⟩)
    (.cons (.of_same rfl) (.cons (.of_same rfl) .nil))
  obtain ⟨huse, hconverts⟩ := upper_bound_unify htypes (t := v.ty) List.mem_cons_self
  obtain ⟨w, hw, hwell, -, hkept | hgiven⟩ :=
    hconverts .default v hv hv.type_wellFormed.same_refl (by decide)
  · rcases hkept.1 with hdynamic | hsame
    · exact absurd hdynamic (by decide +kernel)
    · exact absurd hsame (by decide +kernel)
  · exact ⟨by decide +kernel, hv, huse, w, hw, hwell, hgiven.2⟩

end Ty

end TypedData
