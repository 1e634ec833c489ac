import TypedData.Proofs.Conversion
import TypedData.Proofs.Ty.Convertible
import TypedData.Proofs.Value.Slots

/-!
# Convertibility of the type of a value that converts

An unknown converts if its type is convertible. Where a value converts, its members have tried
most of what its type is convertible by. What is left are the places where it has no member: the
elements of empty collections, and the attributes that are missing in a map which becomes an
object. There the types alone decide, and they may refuse what the value does not need.

## Main definitions

* `Value.untried` — the pairs of types that no member of a value tries

## Main results

* `Value.WellFormed.decides_of_convertAt` — a value that converts decides whether its type is
  convertible up to what it leaves untried
* `Value.convertible_iff_of_convert` — the same for the type of a value, and for the unknowns of
  that type
-/

namespace TypedData.Value

variable {limits : Limits} {depth : Nat} {source target : Ty} {v w : Value}

/-! ### What no member tries -/

/-- What is asked for where a value has no member: the elements of a collection that is empty, and
the attributes that a map lacks. -/
def unfilled (source target : Ty) : Content Value → List (Ty × Ty)
  | .items [] =>
    match source.element?, target.element? with
    | some s, some t => [(s, t)]
    | _, _ => []
  | .entries es =>
    match source, target with
    | .map s, .map t => if es.isEmpty then [(s, t)] else []
    | .map s, .object bs =>
      (bs.filter fun b => !(es.map (·.1)).contains b.name).map fun b => (s, b.ty)
    | _, _ => []
  | _ => []

mutual

/-- What no member tries when a value becomes one of another type: pairs of the type of a place and
the type asked for there. -/
def untried (source target : Ty) (v : Value) : List (Ty × Ty) :=
  if source == target || target.isDynamic || source.isDynamic then []
  else
    match v with
    | ⟨_, .items vs, _⟩ =>
      unfilled source target (.items vs) ++
        untriedEach ((slots? source vs.length).getD []) ((slots? target vs.length).getD []) vs
    | ⟨_, .entries es, _⟩ =>
      unfilled source target (.entries es) ++
        untriedUnder (slotOf? source) (slotOf? target) es
    | _ => []
termination_by structural v

/-- The same for elements one by one. -/
def untriedEach (sources targets : List Ty) : List Value → List (Ty × Ty)
  | [] => []
  | v :: vs =>
    untried (sources.headD .dynamic) (targets.headD .dynamic) v ++
      untriedEach sources.tail targets.tail vs
termination_by structural vs => vs

/-- The same for the entries whose keys are asked for. -/
def untriedUnder (sourceOf targetOf : String → Option Ty) : Entries Value → List (Ty × Ty)
  | [] => []
  | (k, v) :: es =>
    (match sourceOf k, targetOf k with
      | some s, some t => untried s t v
      | _, _ => []) ++ untriedUnder sourceOf targetOf es
termination_by structural es => es

end

/-- Whether a value decides that its source is convertible, up to what it leaves untried. -/
def Decides (source target : Ty) (v : Value) : Prop :=
  source.convertible target ↔ ∀ p ∈ v.untried source target, p.1.convertible p.2

/-- Where nothing is to be done, everything is convertible and nothing is left untried. -/
theorem decides_of_keep (h : source == target || target.isDynamic || source.isDynamic) :
    v.Decides source target := by
  have huntried : v.untried source target = [] := by
    unfold untried
    rw [if_pos h]
  have hconvertible : source.convertible target := by
    unfold Ty.convertible
    rw [h, Bool.true_or]
  simp [Decides, huntried, hconvertible]

/-- Nor is anything left untried by a value without members. -/
theorem decides_of_noMembers (hitems : v.elements? = none) (hentries : v.entries? = none)
    (h : source.convertible target) : v.Decides source target := by
  have huntried : v.untried source target = [] := by
    obtain ⟨own, content, marks⟩ := v
    cases content <;> first | cases hitems; done | cases hentries; done | simp [untried]
  simp [Decides, huntried, h]

/-! ### Elements -/

theorem unfilled_items_eq_nil {vs : List Value}
    (h : source.element? = none ∨ target.element? = none) :
    unfilled source target (.items vs) = [] := by
  cases vs with
  | nil => rcases h with h | h <;> simp [unfilled, h]
  | cons => rfl

/-- The types are convertible if those of the places are, and those of elements that are not
there. -/
theorem convertible_iff_slots {ss ts : List Ty} {vs : List Value}
    (hss : slots? source vs.length = some ss) (hts : slots? target vs.length = some ts) :
    source.convertible target ↔ (∀ p ∈ unfilled source target (.items vs), p.1.convertible p.2) ∧
      List.Forall₂ (fun s t => s.convertible t) ss ts := by
  have htuple {us us' : List Ty} (h : slots? (.tuple us) vs.length = some us') :
      vs.length = us.length ∧ us = us' := by
    rw [slots?, Option.ite_none_right_eq_some] at h
    exact ⟨h.1, Option.some.inj h.2⟩
  -- Only a collection without elements has a place that nothing fills.
  cases source with
  | list s | set s =>
    obtain rfl := Option.some.inj hss
    cases target with
    | list t | set t =>
      obtain rfl := Option.some.inj hts
      refine (Ty.convertible_iff_of_element? (by rfl) (by rfl) (by rfl)).trans ?_
      cases vs <;> simp [unfilled, Ty.element?, List.forall₂_replicate_left_iff]
    | tuple ts =>
      obtain ⟨hlength, rfl⟩ := htuple hts
      rw [unfilled_items_eq_nil (.inr rfl), List.forall₂_replicate_left_iff]
      simpa [hlength] using Ty.convertible_iff_of_tuple (by rfl) (by rfl)
    | _ => cases hts
  | tuple ss =>
    obtain ⟨hlength, rfl⟩ := htuple hss
    rw [unfilled_items_eq_nil (.inl rfl)]
    cases target with
    | list t | set t =>
      obtain rfl := Option.some.inj hts
      rw [List.forall₂_replicate_right_iff]
      simpa [hlength] using Ty.convertible_tuple_iff (by rfl) (by rfl)
    | tuple ts =>
      obtain ⟨-, rfl⟩ := htuple hts
      simpa using Ty.convertible_tuple_tuple
    | _ => cases hts
  | _ => cases hss

/-- Elements decide whether the types of their places are convertible. -/
theorem forall₂_convertible_iff_untriedEach {ss ts : List Ty} {vs : List Value}
    (hss : vs.length = ss.length) (hts : vs.length = ts.length)
    (h : ∀ i (hv : i < vs.length) (hs : i < ss.length) (ht : i < ts.length),
      (vs.get ⟨i, hv⟩).Decides (ss.get ⟨i, hs⟩) (ts.get ⟨i, ht⟩)) :
    List.Forall₂ (fun s t => s.convertible t) ss ts ↔
      ∀ p ∈ untriedEach ss ts vs, p.1.convertible p.2 := by
  induction vs generalizing ss ts with
  | nil =>
    obtain rfl := List.eq_nil_of_length_eq_zero hss.symm
    obtain rfl := List.eq_nil_of_length_eq_zero hts.symm
    simp [untriedEach]
  | cons v vs ih =>
    obtain ⟨s, ss, rfl⟩ := List.exists_cons_of_length_eq_add_one hss.symm
    obtain ⟨t, ts, rfl⟩ := List.exists_cons_of_length_eq_add_one hts.symm
    have hhead : v.Decides s t := h 0 (by simp) (by simp) (by simp)
    have htail := @ih ss ts (by simpa using hss) (by simpa using hts)
      fun i hv hs ht => h (i + 1) (by simpa) (by simpa) (by simpa)
    rw [List.forall₂_cons, untriedEach, List.forall_mem_append]
    exact and_congr hhead htail

/-! ### Entries -/

/-- Whether what stands under the keys of entries may become what is asked for under them. -/
def PlacesConvertible (source target : Ty) (es : Entries Value) : Prop :=
  ∀ e ∈ es, ∀ s t, slotOf? source e.1 = some s → slotOf? target e.1 = some t → s.convertible t

/-- Entries decide whether the types of their places are convertible. -/
theorem placesConvertible_iff_untriedUnder {es : Entries Value}
    (h : ∀ e ∈ es, ∀ s t, slotOf? source e.1 = some s → slotOf? target e.1 = some t →
      e.2.Decides s t) :
    PlacesConvertible source target es ↔
      ∀ p ∈ untriedUnder (slotOf? source) (slotOf? target) es, p.1.convertible p.2 := by
  unfold PlacesConvertible
  induction es with
  | nil => simp [untriedUnder]
  | cons e es ih =>
    rw [List.forall_mem_cons] at h ⊢
    rw [untriedUnder, List.forall_mem_append]
    refine and_congr ?_ (ih h.2)
    cases hs : slotOf? source e.1 with
    | none => simp
    | some s =>
      cases ht : slotOf? target e.1 with
      | none => simp
      | some t => simpa [Decides] using h.1 s t hs ht

theorem convertible_map_map_iff {s t : Ty} {es : Entries Value} :
    (Ty.map s).convertible (.map t) ↔
      (∀ p ∈ unfilled (.map s) (.map t) (.entries es), p.1.convertible p.2) ∧
        PlacesConvertible (.map s) (.map t) es := by
  refine (Ty.convertible_iff_of_element? (by rfl) (by rfl) (by rfl)).trans ?_
  cases es <;> simp +contextual [unfilled, PlacesConvertible, slotOf?]

/-- What is asked for under a key that a map lacks is unfilled. -/
theorem convertible_map_object_iff {s : Ty} {bs : List (Attr Ty)} {es : Entries Value}
    (hbs : (bs.map (·.name)).Nodup) :
    (Ty.map s).convertible (.object bs) ↔
      (∀ p ∈ unfilled (.map s) (.object bs) (.entries es), p.1.convertible p.2) ∧
        PlacesConvertible (.map s) (.object bs) es := by
  rw [Ty.convertible_map_object]
  refine ⟨fun h => ⟨fun p hp => ?_, fun e _ s' t hs ht => ?_⟩, fun ⟨hunfilled, hplaces⟩ b hb => ?_⟩
  · obtain ⟨b, hb, rfl⟩ := List.mem_map.mp hp
    exact h b (List.mem_of_mem_filter hb)
  · obtain rfl := Option.some.inj hs
    obtain ⟨b, hb, rfl⟩ := Option.map_eq_some_iff.mp ht
    exact h b (Attr.mem_of_find? hb)
  · by_cases hmem : b.name ∈ es.map (·.1)
    · obtain ⟨e, he, hname⟩ := List.mem_map.mp hmem
      refine hplaces e he s b.ty rfl ?_
      rw [hname, slotOf?_object hbs hb]
    · refine hunfilled (s, b.ty) (List.mem_map.mpr ⟨b, List.mem_filter.mpr ⟨hb, ?_⟩, rfl⟩)
      simpa using hmem

theorem convertible_object_map_iff {as : List (Attr Ty)} {t : Ty} {es : Entries Value}
    (has : (as.map (·.name)).Nodup) (hkeys : ∀ k, k ∈ es.map (·.1) ↔ k ∈ as.map (·.name)) :
    (Ty.object as).convertible (.map t) ↔
      (∀ p ∈ unfilled (.object as) (.map t) (.entries es), p.1.convertible p.2) ∧
        PlacesConvertible (.object as) (.map t) es := by
  rw [Ty.convertible_object_map]
  refine ⟨fun h => ⟨nofun, fun e _ s t' hs ht => ?_⟩, fun ⟨_, hplaces⟩ a ha => ?_⟩
  · obtain ⟨a, ha, rfl⟩ := Option.map_eq_some_iff.mp hs
    exact Option.some.inj ht ▸ h a (Attr.mem_of_find? ha)
  · obtain ⟨e, he, hname⟩ := List.mem_map.mp ((hkeys a.name).mpr (List.mem_map_of_mem ha))
    refine hplaces e he a.ty t ?_ rfl
    rw [hname, slotOf?_object has ha]

/-- An object has all its attributes, so nothing is left but what may be omitted. -/
theorem convertible_object_object_iff {as bs : List (Attr Ty)} {es : Entries Value}
    (has : Attr.WellFormed as) (hbs : Attr.WellFormed bs)
    (hkeys : ∀ k, k ∈ es.map (·.1) ↔ k ∈ as.map (·.name))
    (hasked : ∀ b ∈ bs, b.name ∈ es.map (·.1) ∨ b.isOptional) :
    (Ty.object as).convertible (.object bs) ↔
      (∀ p ∈ unfilled (.object as) (.object bs) (.entries es), p.1.convertible p.2) ∧
        PlacesConvertible (.object as) (.object bs) es := by
  rw [Ty.convertible_object_object has hbs]
  refine ⟨fun h => ⟨nofun, fun e _ s t hs ht => ?_⟩, fun ⟨_, hplaces⟩ b hb => ?_⟩
  · obtain ⟨a, ha, rfl⟩ := Option.map_eq_some_iff.mp hs
    obtain ⟨b, hb, rfl⟩ := Option.map_eq_some_iff.mp ht
    rcases h b (Attr.mem_of_find? hb) with ⟨a', ha', hab⟩ | ⟨hnone, -⟩
    · rw [Attr.name_of_find? hb, ha] at ha'
      exact Option.some.inj ha' ▸ hab
    · rw [Attr.name_of_find? hb, ha] at hnone
      cases hnone
  · cases hfind : Attr.find? as b.name with
    | none =>
      refine .inr ⟨rfl, (hasked b hb).resolve_left fun hmem => ?_⟩
      have hsome := Attr.find?_isSome_iff.mpr ((hkeys b.name).mp hmem)
      rw [hfind] at hsome
      cases hsome
    | some a =>
      have hmem : b.name ∈ as.map (·.name) := Attr.find?_isSome_iff.mp (by rw [hfind]; rfl)
      obtain ⟨e, he, hname⟩ := List.mem_map.mp ((hkeys b.name).mpr hmem)
      refine .inl ⟨a, rfl, hplaces e he a.ty b.ty ?_ ?_⟩
      · rw [slotOf?, hname, hfind, Option.map_some]
      · rw [hname, slotOf?_object hbs.names hb]

/-- The entries of a well-formed value have the keys that its type declares. -/
theorem WellFormed.convertible_map_iff {own t : Ty} {es : Entries Value} {m : Marks}
    (hv : WellFormed ⟨own, .entries es, m⟩) (hs : source.WellFormed) (hsame : own.same source) :
    source.convertible (.map t) ↔
      (∀ p ∈ unfilled source (.map t) (.entries es), p.1.convertible p.2) ∧
        PlacesConvertible source (.map t) es := by
  cases source with
  | map s => exact convertible_map_map_iff
  | object as =>
    refine convertible_object_map_iff (Attr.WellFormed.of_object hs).names fun k => ?_
    rw [hv.keys_of_same_object hs hsame, Attr.sortedNames, List.mem_mergeSort]
  | _ => cases hv <;> cases hsame

theorem WellFormed.convertible_object_iff {own : Ty} {bs : List (Attr Ty)} {es : Entries Value}
    {m : Marks} (hv : WellFormed ⟨own, .entries es, m⟩) (hs : source.WellFormed)
    (hbs : Attr.WellFormed bs) (hsame : own.same source)
    (hasked : ∀ b ∈ bs, b.name ∈ es.map (·.1) ∨ b.isOptional) :
    source.convertible (.object bs) ↔
      (∀ p ∈ unfilled source (.object bs) (.entries es), p.1.convertible p.2) ∧
        PlacesConvertible source (.object bs) es := by
  cases source with
  | map s => exact convertible_map_object_iff hbs.names
  | object as =>
    refine convertible_object_object_iff (.of_object hs) hbs (fun k => ?_) hasked
    rw [hv.keys_of_same_object hs hsame, Attr.sortedNames, List.mem_mergeSort]
  | _ => cases hv <;> cases hsame

/-! ### Values that convert -/

/-- What stands in a place of one type and in a place of another needs no conversion between
them. -/
theorem InSlot.decides (hin : v.InSlot source) (hslot : v.InSlot target) (hv : v.ty.WellFormed)
    (hs : source.WellFormed) : v.Decides source target := by
  refine decides_of_keep ?_
  rw [Bool.or_eq_true, Bool.or_eq_true]
  rcases hin with hdynamic | hsame
  · exact .inr hdynamic
  · refine .inl (hslot.elim .inr fun hsame' => .inl ?_)
    exact hs.same_trans (hv.same_symm hs hsame) hsame'

theorem InSlot.convertible (h : v.InSlot target) : v.ty.convertible target := by
  unfold Ty.convertible
  rcases h with h | h
  · rw [h, Bool.or_true, Bool.true_or, Bool.true_or]
  · rw [show (v.ty == target) = true from h, Bool.true_or, Bool.true_or, Bool.true_or]

theorem convertible_of_convertScalar {own : Ty} {c : Content Value} {m : Marks}
    (hv : WellFormed ⟨own, c, m⟩) (h : convertScalar limits target c = .ok w) :
    own.convertible target := by
  cases hv <;> cases target <;> first | rfl | cases h

/-- A value without members converts only if its type is convertible. -/
theorem WellFormed.decides_of_noMembers (hv : v.WellFormed) (hs : source.WellFormed)
    (ht : target.WellFormed) (hin : v.InSlot source) (hitems : v.elements? = none)
    (hentries : v.entries? = none) (h : v.convertAt limits depth target = .ok w) :
    v.Decides source target := by
  have hown := hv.type_wellFormed
  rcases hin with hdynamic | hsame
  · exact decides_of_keep (by rw [hdynamic, Bool.or_true])
  · have hconvertible : v.ty.convertible target := by
      cases conversionStep_of_convertAt h with
      | keep hslot => exact hslot.convertible
      | retyped _ hconvertible => exact hconvertible
      | sequence => cases hitems
      | map | object => cases hentries
      | scalar hw => exact convertible_of_convertScalar hv hw
    exact Value.decides_of_noMembers hitems hentries
      (hs.convertible_of_same hown ht (hown.same_symm hs hsame) hconvertible)

/-- Elements that convert decide whether their places are convertible. -/
theorem decides_of_items {own : Ty} {vs ws : List Value} {m : Marks} {targets : List Ty}
    (hv : WellFormed ⟨own, .items vs, m⟩) (hs : source.WellFormed) (ht : target.WellFormed)
    (hsame : own.same source) (htargets : elementTargets target vs.length = .ok targets)
    (hws : convertItems limits (depth + 1) 0 targets vs = .ok ws)
    (hmember : ∀ x ∈ vs, ∀ s t, s.WellFormed → t.WellFormed → x.InSlot s →
      (∃ w, x.convertAt limits (depth + 1) t = .ok w) → x.Decides s t) :
    Decides source target ⟨own, .items vs, m⟩ := by
  by_cases hkeep : source == target || target.isDynamic || source.isDynamic
  · exact decides_of_keep hkeep
  obtain ⟨sources, hsources, hin, hswell⟩ := hv.exists_slots_of_same hs hsame
  have hslots := slots?_of_elementTargets htargets
  obtain ⟨hlength, htwell, -⟩ := fills_of_slots? ht hslots
  have hconverts := (exists_convertItems_iff hlength).mp ⟨ws, hws⟩
  rw [List.forall₂_iff_get] at hin hconverts
  have heach := forall₂_convertible_iff_untriedEach hin.1 hlength fun i hv hs ht =>
    hmember _ (List.get_mem _ _) _ _ (hswell _ (List.get_mem _ _)) (htwell _ (List.get_mem _ _))
      (hin.2 i hv hs) (hconverts.2 i hv ht)
  unfold Decides untried
  rw [if_neg hkeep, List.forall_mem_append, hsources, hslots, Option.getD_some, Option.getD_some,
    ← heach]
  exact convertible_iff_slots hsources hslots

/-- So do entries, if nothing is in the way but the types of their places and what is not filled. -/
theorem decides_of_entries {own : Ty} {es : Entries Value} {m : Marks}
    (h : source.convertible target ↔
      (∀ p ∈ unfilled source target (.entries es), p.1.convertible p.2) ∧
        PlacesConvertible source target es)
    (hmember : ∀ e ∈ es, ∀ s t, slotOf? source e.1 = some s → slotOf? target e.1 = some t →
      e.2.Decides s t) :
    Decides source target ⟨own, .entries es, m⟩ := by
  by_cases hkeep : source == target || target.isDynamic || source.isDynamic
  · exact decides_of_keep hkeep
  unfold Decides untried
  rw [if_neg hkeep, List.forall_mem_append, ← placesConvertible_iff_untriedUnder hmember]
  exact h

/-- What became of each attribute in a conversion that succeeds. -/
theorem exists_of_convertedAttributes {attrs : List (Attr Ty)} {es fs : Entries Value}
    {whole : Ty} {a : Attr Ty} (names : (attrs.map (·.name)).Nodup)
    (hfs : Ty.firstError (convertedAttributes source whole attrs
      (convertEntries limits depth (fun k => (Attr.find? attrs k).map (·.ty)) es)) = .ok fs)
    (ha : a ∈ attrs) :
    (∃ v w, (a.name, v) ∈ es ∧ v.convertAt limits depth a.ty = .ok w) ∨
      (a.name ∉ es.map (·.1) ∧ a.isOptional) := by
  have hslot : (Attr.find? attrs a.name).map (·.ty) = some a.ty := by
    rw [Attr.find?_eq_some_of_mem names ha, Option.map_some]
  obtain ⟨check, hchecks, hcheck⟩ := exists_checks_of_convertedAttributes hfs
  rw [Ty.firstError_map_eq_ok_iff] at hchecks
  obtain ⟨f, -, -, hf⟩ := hchecks.exists_of_mem_left ha
  obtain ⟨hoptional, -, hmissing⟩ | ⟨v, t, hv, ht, hconvert⟩ := hcheck a ha f.2 hf
  · exact .inr ⟨hmissing a.ty hslot, hoptional⟩
  · obtain rfl := Option.some.inj (ht.symm.trans hslot)
    exact .inl ⟨v, f.2, hv, hconvert⟩

/-- A value that converts decides whether its type is convertible, up to what it leaves untried. -/
theorem WellFormed.decides_of_convertAt (hv : v.WellFormed) (hs : source.WellFormed)
    (ht : target.WellFormed) (hin : v.InSlot source)
    (h : v.convertAt limits depth target = .ok w) : v.Decides source target := by
  induction v using Value.induction generalizing source target depth w with
  | null | unknown | bool | number | string | capsule =>
    exact hv.decides_of_noMembers hs ht hin rfl rfl h
  | items own vs m ih =>
    rcases hin with hdynamic | hsame
    · exact decides_of_keep (by rw [hdynamic, Bool.or_true])
    cases conversionStep_of_convertAt h with
    | keep hslot => exact InSlot.decides (.inr hsame) hslot hv.type_wellFormed hs
    | retyped hw => cases hw
    | scalar hw => cases hw
    | sequence _ htargets hws =>
      exact decides_of_items hv hs ht hsame htargets hws fun x hx s t hs ht hin ⟨w, hw⟩ =>
        ih x hx (hv.of_mem_items hx) hs ht hin hw
  | entries own es m ih =>
    rcases hin with hdynamic | hsame
    · exact decides_of_keep (by rw [hdynamic, Bool.or_true])
    have hkeys := hv.nodup_keys
    have hmember : ∀ e ∈ es, ∀ s t, slotOf? source e.1 = some s → slotOf? target e.1 = some t →
        (∃ w, e.2.convertAt limits (depth + 1) t = .ok w) → e.2.Decides s t := by
      intro e he s t hslot hslot' ⟨w, hw⟩
      obtain ⟨u, hu, hin, hwell⟩ := hv.exists_slotOf_of_same hs hsame he
      obtain rfl := Option.some.inj (hu.symm.trans hslot)
      exact ih e he (hv.of_mem_entries he) hwell (slotOf?_wellFormed ht hslot') hin hw
    cases conversionStep_of_convertAt h with
    | keep hslot => exact InSlot.decides (.inr hsame) hslot hv.type_wellFormed hs
    | retyped hw => cases hw
    | scalar hw => cases hw
    | @map _ t _ _ _ htype hfs =>
      subst htype
      refine decides_of_entries (hv.convertible_map_iff hs hsame) fun e he s t' hslot hslot' =>
        hmember e he s t' hslot hslot' ?_
      obtain rfl := Option.some.inj hslot'
      rw [Ty.firstError_map_eq_ok_iff] at hfs
      obtain ⟨f, -, -, hf⟩ := hfs.exists_of_mem_left (mem_convertEntries he rfl)
      exact ⟨f.2, Except.mapError_eq_ok_iff.mp hf⟩
    | @object _ bs _ _ _ htype _ hfs =>
      subst htype
      have hbs := Attr.WellFormed.of_object ht
      refine decides_of_entries (hv.convertible_object_iff hs hbs hsame fun b hb => ?_)
        fun e he s t hslot hslot' => hmember e he s t hslot hslot' ?_
      · rcases exists_of_convertedAttributes hbs.names hfs hb with ⟨u, _, hu, -⟩ | ⟨-, ho⟩
        · exact .inl (List.mem_map_of_mem hu)
        · exact .inr ho
      · obtain ⟨b, hb, rfl⟩ := Option.map_eq_some_iff.mp hslot'
        have hname := Attr.name_of_find? hb
        rcases exists_of_convertedAttributes hbs.names hfs (Attr.mem_of_find? hb) with
          ⟨u, x, hu, hx⟩ | ⟨hmissing, -⟩
        · obtain rfl : (b.name, u) = e := List.inj_on_of_nodup_map hkeys hu he hname
          exact ⟨x, hx⟩
        · exact absurd (hname ▸ List.mem_map_of_mem he) hmissing

/-- An unknown converts exactly if its type is convertible. -/
theorem exists_convert_unknown_iff {ty : Ty} {r : Refinement} :
    (∃ u, (unknownRefined ty r).convert limits target = .ok u) ↔ ty.convertible target := by
  refine ⟨fun ⟨u, hu⟩ => ?_, fun hconvertible => ?_⟩
  · cases conversionStep_of_convertAt hu with
    | keep hslot => exact hslot.convertible
    | retyped _ hconvertible => exact hconvertible
    | scalar hw => cases hw
  · by_cases hslot : (unknownRefined ty r).InSlot target
    · exact ⟨_, convertAt_of_inSlot hslot⟩
    · exact ⟨_, convertAt_of_conversionStep (.retyped rfl hconvertible) hslot (Nat.zero_le _)⟩

/-- The type of a value that converts is convertible, and the unknowns of that type convert too,
exactly if what the value leaves untried is convertible: where a collection inside is empty, its
element type, and where a map inside becomes an object, the types of the attributes that the map
does without. -/
theorem convertible_iff_of_convert (hv : v.WellFormed) (ht : target.WellFormed)
    (h : v.convert limits target = .ok w) :
    (v.ty.convertible target ↔ ∀ p ∈ v.untried v.ty target, p.1.convertible p.2) ∧
      ∀ r, (∃ u, (unknownRefined v.ty r).convert limits target = .ok u) ↔
        ∀ p ∈ v.untried v.ty target, p.1.convertible p.2 := by
  have hown := hv.type_wellFormed
  have hdecides : v.Decides v.ty target :=
    hv.decides_of_convertAt hown ht (.of_ty_eq hown rfl) h
  exact ⟨hdecides, fun r => exists_convert_unknown_iff.trans hdecides⟩

/-- A map of lists of texts becomes an object. No member tries whether texts may be truth values,
nor whether a list of texts may be one of numbers in the place of the attribute that is left out. -/
theorem convertible_iff_of_convert_partial :
    let v : Value := ⟨.map (.list .string),
      .entries [("a", ⟨.list .string, .items [.string "1"], .empty⟩),
        ("b", ⟨.list .string, .items [], .empty⟩)], .empty⟩
    let target := Ty.object
      [⟨"a", .list .number, false⟩, ⟨"b", .list .bool, false⟩, ⟨"c", .set .number, true⟩]
    v.untried v.ty target = [(.list .string, .set .number), (.string, .bool)] ∧
      (∃ w, v.convert .default target = .ok w) ∧
        ∃ u, (unknownRefined v.ty .none).convert .default target = .ok u := by
  intro v target
  have hv : v.WellFormed := by
    refine .map (.list .string) ?_ ?_ ?_ (by decide) ?_ <;> simp only [List.forall_mem_cons]
    · refine ⟨.list .string ?_ ?_ ?_, .list .string nofun nofun nofun, nofun⟩ <;>
        simp only [List.forall_mem_cons]
      · exact ⟨.string, nofun⟩
      · exact ⟨.of_same rfl, nofun⟩
      · exact ⟨rfl, nofun⟩
    · exact ⟨.of_same rfl, .of_same rfl, nofun⟩
    · exact ⟨rfl, rfl, nofun⟩
    · exact ⟨by decide +kernel, by decide +kernel, nofun⟩
  have ht : target.WellFormed := by
    refine .object (by decide) ?_ ?_ <;> simp only [List.forall_mem_cons]
    · exact ⟨by decide +kernel, by decide +kernel, by decide +kernel, nofun⟩
    · exact ⟨.list .number, .list .bool, .set .number, nofun⟩
  have huntried : v.untried v.ty target = [(.list .string, .set .number), (.string, .bool)] := rfl
  have hconverts : ∃ w, v.convert .default target = .ok w := ⟨_, rfl⟩
  obtain ⟨w, hw⟩ := hconverts
  have hunknown := ((convertible_iff_of_convert hv ht hw).2 .none).mpr
  rw [huntried] at hunknown
  exact ⟨huntried, ⟨w, hw⟩, hunknown (by decide)⟩

/-- An empty list of numbers is a list of truth values, and an empty map of numbers an object whose
attribute may be left out, but the types are not convertible and the unknowns are refused. -/
theorem convertible_iff_of_convert_empty :
    let numbers : Value := ⟨.list .number, .items [], .empty⟩
    let noNumbers : Value := ⟨.map .number, .entries [], .empty⟩
    let optional := Ty.object [⟨"a", .bool, true⟩]
    (numbers.WellFormed ∧ (∃ w, numbers.convert .default (.list .bool) = .ok w) ∧
        ¬ numbers.ty.convertible (.list .bool) ∧
        ¬ ∃ u, (unknownRefined numbers.ty .none).convert .default (.list .bool) = .ok u) ∧
      noNumbers.WellFormed ∧ (∃ w, noNumbers.convert .default optional = .ok w) ∧
        ¬ noNumbers.ty.convertible optional := by
  refine ⟨⟨.list .number nofun nofun nofun, ⟨_, rfl⟩, by decide, ?_⟩,
    .map .number nofun nofun nofun .nil nofun, ⟨_, rfl⟩, by decide⟩
  rw [exists_convert_unknown_iff]
  decide

end TypedData.Value
