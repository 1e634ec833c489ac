import TypedData.Proofs.Conversion
import TypedData.Proofs.Wire.ReadBack

/-!
# Containers that keep their places

Where the type asked for has a place for each member of a container, conversion takes the members
one by one and builds the container anew. Nothing is left out, and nothing is filled in.

## Main definitions

* `Value.Keyed` — entries under the keys that a map or object type asks for

## Main results

* `Value.conversionStep_items` — elements convert place by place
* `Value.conversionStep_entries` — entries convert key by key
-/

namespace TypedData

namespace Marks

/-- Nothing is added by no marks. -/
@[simp] theorem union_empty (m : Marks) : m ∪ empty = m := by
  have hlist : (m ∪ empty).toList = m.toList :=
    (m ∪ empty).sorted.eq_of_mem_iff m.sorted fun tag => by
      rw [← mem_iff, mem_union, ← mem_iff]
      simp
  generalize m ∪ empty = n at hlist
  obtain ⟨tags, sorted⟩ := n
  obtain rfl : tags = m.toList := hlist
  rfl

end Marks

namespace Value

variable {limits : Limits} {depth : Nat} {own target : Ty} {m : Marks} {vs ws : List Value}
  {es fs : Entries Value}

theorem withMarks_ofContent (ty : Ty) (c : Content Value) (m : Marks) :
    (ofContent ty c).withMarks m = ⟨ty, c, m⟩ :=
  congrArg (Value.mk ty c) m.union_empty

/-! ### Elements -/

theorem elementTargets_of_slots? {n : Nat} {ts : List Ty} (h : slots? target n = some ts) :
    elementTargets target n = .ok ts := by
  unfold slots? at h
  unfold elementTargets
  split at h
  · exact congrArg Except.ok (Option.some.inj h)
  · exact congrArg Except.ok (Option.some.inj h)
  · split at h
    · rename_i hlength
      simp only [hlength, if_true]
      exact congrArg Except.ok (Option.some.inj h)
    · cases h
  · cases h

/-- Elements convert to what each of them converts to. -/
theorem convertItems_map {α : Type} {slot : α → Ty} {given result : α → Value} {xs : List α}
    (h : ∀ x ∈ xs, (given x).convertAt limits depth (slot x) = .ok (result x)) (i : Nat) :
    convertItems limits depth i (xs.map slot) (xs.map given) = .ok (xs.map result) := by
  induction xs generalizing i with
  | nil => rfl
  | cons x xs ih =>
    rw [List.forall_mem_cons] at h
    simp only [List.map_cons, convertItems, List.headD_cons, List.tail_cons, h.1, ih h.2,
      Except.map]

/-- A list, set or tuple converts element by element, if what its elements convert to is known. -/
theorem conversionStep_items {α : Type} {slot : α → Ty} {given result : α → Value} {xs : List α}
    (hsource : own.isSequence) (hts : slots? target xs.length = some (xs.map slot))
    (h : ∀ x ∈ xs, (given x).convertAt limits (depth + 1) (slot x) = .ok (result x))
    (hknown : ∀ x ∈ xs, (result x).isWhollyKnown) :
    ConversionStep limits depth target ⟨own, .items (xs.map given), m⟩
      ⟨target, .items (inOrder target (xs.map result)), m⟩ := by
  have htargets : elementTargets target (xs.map given).length = .ok (xs.map slot) := by
    rw [List.length_map]
    exact elementTargets_of_slots? hts
  have hstep := ConversionStep.sequence (m := m) hsource htargets (convertItems_map h 0)
  rwa [sequence_of_known hts fun _ => any_isUnknown_eq_false (List.forall_mem_map.mpr hknown),
    withMarks_ofContent] at hstep

/-! ### Entries -/

/-- Whether entries have the keys that a map or object type asks for. From a map, an object takes
nothing but what it asks for, so its entries are to come from an object. -/
inductive Keyed (own : Ty) (es : Entries Value) : Ty → Prop
  | map {t : Ty} : Keyed own es (.map t)
  | object {attrs : List (Attr Ty)} (source : own.isMap = false)
      (keys : es.map (·.1) = Attr.sortedNames attrs) : Keyed own es (.object attrs)

/-- The entries of a well-formed value have the keys that an equal type asks for. -/
theorem WellFormed.keyed (hv : WellFormed ⟨own, .entries es, m⟩) (ht : target.WellFormed)
    (h : own.same target) : Keyed own es target := by
  cases target with
  | map t => exact .map
  | object attrs =>
    refine .object ?_ (hv.keys_of_same_object ht h)
    cases own <;> first | rfl | cases h
  | _ => cases hv <;> cases h

/-- Entries that are among others are all of them, if the keys are the same and distinct. -/
theorem eq_of_keys (hkeys : es.map (·.1) = fs.map (·.1)) (hnodup : (fs.map (·.1)).Nodup)
    (h : ∀ e ∈ es, e ∈ fs) : es = fs := by
  induction es generalizing fs with
  | nil => exact (List.map_eq_nil_iff.mp hkeys.symm).symm
  | cons e es ih =>
    obtain _ | ⟨f, fs⟩ := fs
    · cases hkeys
    rw [List.map_cons, List.map_cons, List.cons.injEq] at hkeys
    rw [List.map_cons, List.nodup_cons] at hnodup
    obtain ⟨hfirst, hrest⟩ := List.forall_mem_cons.mp h
    -- The key of the first entry is not found again, on either side.
    have heq : e = f := (List.mem_cons.mp hfirst).resolve_right fun hmem =>
      hnodup.1 (hkeys.1 ▸ List.mem_map_of_mem hmem)
    refine congrArg₂ List.cons heq (ih hkeys.2 hnodup.2 fun x hx => ?_)
    refine (List.mem_cons.mp (hrest x hx)).resolve_left fun hxf => hnodup.1 ?_
    rw [← hkeys.2, ← hxf]
    exact List.mem_map_of_mem hx

/-- Entries that are all asked for convert one by one. -/
theorem forall₂_convertEntries {targetOf : String → Option Ty}
    (h : List.Forall₂ (fun e f => e.1 = f.1 ∧ ∃ t, targetOf e.1 = some t ∧
      e.2.convertAt limits depth t = .ok f.2) es fs) :
    List.Forall₂ (fun c f => c.1 = f.1 ∧ c.2 = .ok f.2) (convertEntries limits depth targetOf es)
      fs := by
  induction h with
  | nil => exact .nil
  | @cons e f es fs hef _ ih =>
    obtain ⟨hkey, t, ht, hconvert⟩ := hef
    simp only [convertEntries, ht]
    exact .cons ⟨hkey, hconvert⟩ ih

/-- What was converted under the names of all attributes makes up the object. -/
theorem exists_convertedAttributes {source : Ty} {attrs : List (Attr Ty)}
    {members : List (String × Except ConversionError Value)}
    (hattrs : (attrs.map (·.name)).Nodup) (hkeys : fs.map (·.1) = Attr.sortedNames attrs)
    (hmembers : List.Forall₂ (fun c f => c.1 = f.1 ∧ c.2 = .ok f.2) members fs) :
    ∃ gs, Ty.firstError (convertedAttributes source target attrs members) = .ok gs ∧
      sortEntries gs = fs := by
  have hnames : members.map (·.1) = Attr.sortedNames attrs :=
    (hmembers.map_eq_map fun _ _ h => h.1).trans hkeys
  -- Every attribute is asked for, so none of them is filled in with a null.
  have hasked : ∀ a ∈ attrs, a.name ∈ members.map (·.1) := by
    intro a ha
    rw [hnames, Attr.sortedNames, List.mem_mergeSort]
    exact List.mem_map_of_mem ha
  obtain ⟨gs, hgs⟩ : ∃ gs,
      Ty.firstError (convertedAttributes source target attrs members) = .ok gs := by
    refine exists_firstError_convertedAttributes (fun c hc => ?_) fun a ha => .inl (hasked a ha)
    obtain ⟨f, -, -, hf⟩ := hmembers.exists_of_mem_left hc
    exact ⟨f.2, hf⟩
  refine ⟨gs, hgs, ?_⟩
  rw [convertedAttributes, Ty.firstError_map_eq_ok_iff] at hgs
  have hsorted : (sortEntries gs).map (·.1) = fs.map (·.1) := by
    rw [keys_sortEntries, hkeys, ← hgs.map_eq_map fun _ _ h => h.1, Attr.sortedNames]
  refine eq_of_keys hsorted ?_ fun g hg => ?_
  · rw [hkeys]
    exact (pairwise_lt_mergeSort hattrs).imp String.ne_of_lt
  · obtain ⟨a, ha, hname, hg'⟩ := hgs.exists_of_mem_right (mem_sortEntries.mp hg)
    split at hg'
    · rename_i k r hfind
      obtain ⟨f, hf, hkey, hr⟩ := hmembers.exists_of_mem_left (List.mem_of_find?_eq_some hfind)
      rw [Except.mapError_eq_ok_iff] at hg'
      have hkname : k = a.name := by simpa using List.find?_some hfind
      have hgf : g = f := Prod.ext (hname.symm.trans (hkname.symm.trans hkey))
        (Except.ok.inj (hg'.symm.trans hr))
      exact hgf ▸ hf
    · rename_i hnone
      obtain ⟨c, hc, hcname⟩ := List.mem_map.mp (hasked a ha)
      exact absurd hcname (by simpa using List.find?_eq_none.mp hnone c hc)

/-- A map or object converts entry by entry, if what its entries convert to is known. -/
theorem conversionStep_entries {α : Type} {key : α → String} {slot : α → Ty}
    {given result : α → Value} {xs : List α}
    (hkeyed : Keyed own (xs.map fun x => (key x, given x)) target) (ht : target.WellFormed)
    (h : ∀ x ∈ xs, slotOf? target (key x) = some (slot x) ∧
      (given x).convertAt limits (depth + 1) (slot x) = .ok (result x))
    (hknown : ∀ x ∈ xs, (result x).isWhollyKnown) :
    ConversionStep limits depth target ⟨own, .entries (xs.map fun x => (key x, given x)), m⟩
      ⟨target, .entries (xs.map fun x => (key x, result x)), m⟩ := by
  have hentries {targetOf : String → Option Ty} (htarget : targetOf = slotOf? target) :
      List.Forall₂ (fun c f => c.1 = f.1 ∧ c.2 = .ok f.2)
        (convertEntries limits (depth + 1) targetOf (xs.map fun x => (key x, given x)))
        (xs.map fun x => (key x, result x)) := by
    refine forall₂_convertEntries ?_
    rw [htarget, List.forall₂_map_left_iff, List.forall₂_map_right_iff, List.forall₂_same]
    exact fun x hx => ⟨rfl, slot x, h x hx⟩
  have hbuilt : (mapping target (xs.map fun x => (key x, result x))).withMarks m =
      ⟨target, .entries (xs.map fun x => (key x, result x)), m⟩ := by
    rw [mapping_of_known fun _ => any_isUnknown_eq_false
      (List.forall_mem_map.mpr (List.forall_mem_map.mpr hknown)), withMarks_ofContent]
  rw [← hbuilt]
  cases hkeyed with
  | map =>
    refine .map rfl (Ty.firstError_map_eq_ok_iff.mpr ((hentries rfl).imp fun c f hcf => ?_))
    exact ⟨hcf.1, Except.mapError_eq_ok_iff.mpr hcf.2⟩
  | @object attrs source keys =>
    have hkeys : (xs.map fun x => (key x, result x)).map (·.1) = Attr.sortedNames attrs := by
      rw [← keys, List.map_map, List.map_map]
      rfl
    obtain ⟨gs, hgs, hsorted⟩ :=
      exists_convertedAttributes (Attr.WellFormed.of_object ht).names hkeys (hentries rfl)
    rw [← hsorted]
    exact .object rfl (by rw [source]; rfl) hgs

end Value

end TypedData
