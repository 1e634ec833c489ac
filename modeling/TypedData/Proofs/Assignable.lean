import TypedData.Proofs.Acceptance
import TypedData.Proofs.Wire.ReadBack

/-!
# What becomes of assignable values

A value whose type is assignable to another without `dynamic` converts to it part by part. Scalars
stay as they are, nulls and unknowns take on the new type, elements and entries are those of the
value in their new places, and attributes that are left out are null. Nothing known becomes unknown
on the way.

## Main definitions

* `Value.Assignable` — values whose type is assignable to a type without `dynamic`
* `Value.AttributesGiven` — the attributes that an object is given when it is converted

## Main results

* `Value.Assignable.isUnknown_eq` — what is known stays known
* `Value.Assignable.exists_items`, `Value.Assignable.exists_map`, `Value.Assignable.exists_object` —
  what containers become
* `Value.Assignable.exists_part` — what stands inside was inside, or is a null
-/

namespace TypedData.Value

variable {limits : Limits} {depth : Nat} {t u : Ty} {v w : Value}

/-- The places under one key of assignable types are assignable. -/
theorem usableAs_of_slotOf? {s u' : Ty} {key : String} (husable : s.usableAs t)
    (hu : slotOf? s key = some u) (hu' : slotOf? t key = some u') : u.usableAs u' := by
  cases t with
  | map b =>
    obtain rfl : b = u' := Option.some.inj hu'
    cases s <;> first | cases husable | skip
    rename_i a
    obtain rfl : a = u := Option.some.inj hu
    exact husable
  | object bs =>
    obtain ⟨b, hb, rfl⟩ := Option.map_eq_some_iff.mp hu'
    cases s <;> first | cases husable | skip
    rename_i as
    obtain ⟨a, ha, rfl⟩ := Option.map_eq_some_iff.mp hu
    rw [Ty.usableAs, Ty.usableAttrs_iff] at husable
    -- The object has the attribute, so that it is not one that is left out.
    obtain ⟨a', ha', hab⟩ | ⟨hnone, -⟩ := husable b (Attr.mem_of_find? hb)
    · rw [Attr.name_of_find? hb, ha] at ha'
      exact Option.some.inj ha' ▸ hab
    · rw [Attr.name_of_find? hb, ha] at hnone
      cases hnone
  | _ => cases hu'

/-- The attributes that an object is given: those that it had, in their new places, and nulls. -/
def AttributesGiven (limits : Limits) (depth : Nat) (bs : List (Attr Ty))
    (es fs : Entries Value) : Prop :=
  ∀ f ∈ fs, ∀ b ∈ bs, b.name = f.1 →
    (∃ e ∈ es, e.1 = f.1 ∧ e.2.convertAt limits depth b.ty = .ok f.2) ∨
      ((∀ e ∈ es, e.1 ≠ f.1) ∧ f.2 = null b.ty)

/-- A value whose type is assignable to a type without `dynamic`. -/
structure Assignable (t : Ty) (v : Value) : Prop where
  wellFormed : v.WellFormed
  slot : t.WellFormed
  noDynamic : t.hasDynamic = false
  usable : v.ty.usableAs t

namespace Assignable

theorem concrete (h : v.Assignable t) : t.isDynamic = false :=
  Ty.isDynamic_of_hasDynamic h.noDynamic

/-- Only sets are assignable to sets, and only collections to collections. -/
theorem kind_eq (h : v.Assignable t) :
    v.ty.isSet = t.isSet ∧ v.ty.isCollection = t.isCollection := by
  have husable := h.usable
  have hconcrete := h.concrete
  revert husable hconcrete
  generalize v.ty = s
  intro husable hconcrete
  cases t <;> cases hconcrete <;> cases s <;> first | exact ⟨rfl, rfl⟩ | cases husable

/-! ### Parts -/

/-- The elements are assignable to their new places. -/
theorem exists_slots {own : Ty} {vs : List Value} {m : Marks}
    (h : Assignable t ⟨own, .items vs, m⟩) :
    ∃ ts, elementTargets t vs.length = .ok ts ∧ slots? t vs.length = some ts ∧
      List.Forall₂ (fun v t => v.Assignable t) vs ts := by
  obtain ⟨ts, hts, hin⟩ := h.wellFormed.exists_elementTargets h.slot h.usable h.concrete
  have hslots := slots?_of_elementTargets hts
  refine ⟨ts, hts, hslots, hin.imp_of_mem fun v hv t ht hvt => ?_⟩
  exact ⟨h.wellFormed.of_mem_items hv, hvt.1,
    Ty.hasDynamic_of_mem_parts h.noDynamic (mem_parts_of_slots? hslots ht), hvt.2⟩

/-- An entry is assignable to the place that there is for its key. -/
theorem entry {own : Ty} {es : Entries Value} {m : Marks} {e : String × Value}
    (h : Assignable t ⟨own, .entries es, m⟩) (he : e ∈ es) (hu : slotOf? t e.1 = some u) :
    e.2.Assignable u := by
  have hwell := h.wellFormed.of_mem_entries he
  obtain ⟨s, hs, hin⟩ := h.wellFormed.exists_slotOf he
  have hswell := slotOf?_wellFormed h.wellFormed.type_wellFormed hs
  exact ⟨hwell, slotOf?_wellFormed h.slot hu,
    Ty.hasDynamic_of_mem_parts h.noDynamic (mem_parts_of_slotOf? hu),
    hin.usableAs hwell.type_wellFormed hswell (usableAs_of_slotOf? h.usable hs hu)⟩

/-! ### Values without members -/

/-- Scalars and capsules stay as they are. -/
theorem eq_of_leaf (h : v.Assignable t) (hknown : v.isKnown) (hrank : rank v.content ≠ 4)
    (hw : v.convertAt limits depth t = .ok w) : w = v := by
  have hin : v.InSlot t := by
    obtain ⟨own, content, m⟩ := v
    cases content with
    | items | entries => exact absurd rfl hrank
    | _ => exact h.wellFormed.inSlot_of_usableAs hknown rfl rfl h.usable
  rw [convertAt_of_inSlot hin] at hw
  exact (Except.ok.inj hw).symm

/-- Nulls stay null. -/
theorem content_of_null {own : Ty} {m : Marks}
    (hw : convertAt limits depth t ⟨own, .null, m⟩ = .ok w) : w.content = .null := by
  cases conversionStep_of_convertAt hw with
  | keep => rfl
  | retyped hretype =>
    obtain rfl := Option.some.inj hretype
    rfl
  | scalar hscalar => cases hscalar

/-- Unknowns keep what still applies of their refinement. -/
theorem content_of_unknown {own : Ty} {r : Refinement} {m : Marks}
    (h : Assignable t ⟨own, .unknown r, m⟩)
    (hw : convertAt limits depth t ⟨own, .unknown r, m⟩ = .ok w) :
    w.content = .unknown (r.retainFor t) := by
  cases conversionStep_of_convertAt hw with
  | keep hslot =>
    cases h.wellFormed with
    | unknown _ retained =>
      rw [← Refinement.retainFor_eq_of_same (hslot.same h.concrete), retained]
  | retyped hretype =>
    obtain rfl := Option.some.inj hretype
    have hset : t.isSet = own.isSet := h.kind_eq.1.symm
    simp [hset]
  | scalar hscalar => cases hscalar

/-! ### Known values stay known -/

theorem forall₂_of_convertItems {R : Value → Ty → Prop} {vs ws : List Value} {ts : List Ty}
    {i : Nat} (hin : List.Forall₂ R vs ts) (h : convertItems limits depth i ts vs = .ok ws) :
    List.Forall₂ (fun v w => ∃ t, R v t ∧ v.convertAt limits depth t = .ok w) vs ws := by
  induction hin generalizing i ws with
  | nil =>
    obtain rfl := Except.ok.inj h
    exact .nil
  | @cons v t vs ts hv _ ih =>
    rw [convertItems] at h
    split at h
    · cases h
    · rename_i w hw
      obtain ⟨ws', hws, rfl⟩ := Except.map_eq_ok_iff.mp h
      exact .cons ⟨t, hv, hw⟩ (ih hws)

/-- The elements of a collection are known in their new places, if known ones stay known. -/
theorem any_isUnknown_eq_false_of_items {own : Ty} {vs ws : List Value} {m : Marks} {ts : List Ty}
    {i : Nat} (h : Assignable t ⟨own, .items vs, m⟩)
    (hin : List.Forall₂ (fun v t => v.Assignable t) vs ts)
    (hws : convertItems limits depth i ts vs = .ok ws) (hcollection : t.isCollection)
    (hknown : ∀ v ∈ vs, ∀ t w, v.Assignable t → v.convertAt limits depth t = .ok w →
      w.isUnknown = v.isUnknown) : ws.any isUnknown = false := by
  rw [List.any_eq_false]
  intro w hw
  obtain ⟨v, hv, u, hvu, hw⟩ := (forall₂_of_convertItems hin hws).exists_of_mem_right hw
  rw [hknown v hv u w hvu hw, h.wellFormed.isUnknown_parts (h.kind_eq.2.trans hcollection) hv]
  exact Bool.false_ne_true

/-- Nor are the entries of a map unknown in their new place. -/
theorem any_isUnknown_eq_false_of_entries {own : Ty} {es fs : Entries Value} {m : Marks}
    (h : Assignable (.map u) ⟨own, .entries es, m⟩)
    (hfs : List.Forall₂ (fun e f => e.1 = f.1 ∧ e.2.convertAt limits depth u = .ok f.2) es fs)
    (hknown : ∀ e ∈ es, ∀ w, e.2.Assignable u → e.2.convertAt limits depth u = .ok w →
      w.isUnknown = e.2.isUnknown) : (fs.map (·.2)).any isUnknown = false := by
  rw [List.any_eq_false]
  intro w hw
  obtain ⟨f, hf, rfl⟩ := List.mem_map.mp hw
  obtain ⟨e, he, -, hef⟩ := hfs.exists_of_mem_right hf
  rw [hknown e he f.2 (h.entry he rfl) hef,
    h.wellFormed.isUnknown_parts h.kind_eq.2 (List.mem_map_of_mem he)]
  exact Bool.false_ne_true

/-- What is known stays known. -/
theorem isUnknown_eq (h : v.Assignable t) (hw : v.convertAt limits depth t = .ok w) :
    w.isUnknown = v.isUnknown := by
  -- A collection becomes unknown by an unknown member, and conversion makes none of those.
  induction v using Value.induction generalizing t w depth with
  | null own m => rw [isUnknown, content_of_null hw]; rfl
  | unknown own r m => rw [isUnknown, h.content_of_unknown hw]; rfl
  | bool | number | string | capsule => rw [h.eq_of_leaf rfl (by simp [rank]) hw]
  | items own vs m ih =>
    obtain ⟨ts, hts, hslots, hin⟩ := h.exists_slots
    cases conversionStep_of_convertAt hw with
    | keep => rfl
    | retyped hretype => cases hretype
    | scalar hscalar => cases hscalar
    | sequence _ htargets hws =>
      obtain rfl := Except.ok.inj (htargets.symm.trans hts)
      rw [sequence_of_known hslots fun hcollection =>
        h.any_isUnknown_eq_false_of_items hin hws hcollection fun v hv t w => ih v hv]
      rfl
  | entries own es m ih =>
    cases conversionStep_of_convertAt hw with
    | keep => rfl
    | retyped hretype => cases hretype
    | scalar hscalar => cases hscalar
    | map htarget hfs =>
      subst htarget
      rw [mapping_of_known fun _ => h.any_isUnknown_eq_false_of_entries
        (forall₂_of_convertEntries hfs) fun e he w => ih e he]
      rfl
    | object htarget =>
      subst htarget
      rfl

/-! ### What containers become -/

theorem convertItems_of_inSlot {vs : List Value} {ts : List Ty} (h : List.Forall₂ InSlot vs ts)
    (i : Nat) : convertItems limits depth i ts vs = .ok vs := by
  induction h generalizing i with
  | nil => rfl
  | cons hv _ ih =>
    simp only [convertItems, List.headD_cons, List.tail_cons, convertAt_of_inSlot hv, ih (i + 1),
      Except.map]

/-- A list, set or tuple is left as it is, or put together again from its elements in their new
places. -/
theorem exists_items {own : Ty} {vs : List Value} {m : Marks}
    (h : Assignable t ⟨own, .items vs, m⟩)
    (hw : convertAt limits depth t ⟨own, .items vs, m⟩ = .ok w) :
    ∃ ts ws, slots? t vs.length = some ts ∧ List.Forall₂ (fun v t => v.Assignable t) vs ts ∧
      convertItems limits (depth + 1) 0 ts vs = .ok ws ∧ w.content = .items (inOrder t ws) ∧
      (own.same t → ws = vs) := by
  obtain ⟨ts, hts, hslots, hin⟩ := h.exists_slots
  refine ⟨ts, ?_⟩
  cases conversionStep_of_convertAt hw with
  | keep hslot =>
    -- The elements stand in their new places already, and those of a set are in order.
    have hsame : own.same t := hslot.same h.concrete
    obtain ⟨ts', hts', hstand, -⟩ := h.wellFormed.exists_slots_of_same h.slot hsame
    obtain rfl := Option.some.inj (hslots.symm.trans hts')
    refine ⟨vs, hslots, hin, convertItems_of_inSlot hstand 0, ?_, fun _ => rfl⟩
    have horder : inOrder t vs = vs := by
      rw [inOrder]
      split
      · rename_i hset
        cases h.wellFormed with
        | set _ _ _ _ order => exact canonicalSet_eq_self order
        | list | tuple => cases h.kind_eq.1.trans hset
      · rfl
    rw [horder]
  | retyped hretype => cases hretype
  | scalar hscalar => cases hscalar
  | @sequence _ _ ws _ _ _ htargets hws =>
    obtain rfl := Except.ok.inj (htargets.symm.trans hts)
    refine ⟨ws, hslots, hin, hws, ?_, fun hsame => ?_⟩
    · rw [sequence_of_known hslots fun hcollection =>
        h.any_isUnknown_eq_false_of_items hin hws hcollection fun v _ t w => isUnknown_eq]
      rfl
    · obtain ⟨ts', hts', hstand, -⟩ := h.wellFormed.exists_slots_of_same h.slot hsame
      obtain rfl := Option.some.inj (hslots.symm.trans hts')
      exact Except.ok.inj (hws.symm.trans (convertItems_of_inSlot hstand 0))

/-- A map has its entries in their new place. -/
theorem exists_map {own : Ty} {es : Entries Value} {m : Marks}
    (h : Assignable (.map u) ⟨own, .entries es, m⟩)
    (hw : convertAt limits depth (.map u) ⟨own, .entries es, m⟩ = .ok w) :
    ∃ fs, w.content = .entries fs ∧
      List.Forall₂ (fun e f => e.1 = f.1 ∧ e.2.convertAt limits (depth + 1) u = .ok f.2) es fs := by
  cases conversionStep_of_convertAt hw with
  | keep hslot =>
    refine ⟨es, rfl, List.forall₂_same.mpr fun e he => ⟨rfl, convertAt_of_inSlot ?_⟩⟩
    obtain ⟨u', hu', hin, -⟩ :=
      h.wellFormed.exists_slotOf_of_same h.slot (hslot.same h.concrete) he
    exact Option.some.inj hu' ▸ hin
  | retyped hretype => cases hretype
  | scalar hscalar => cases hscalar
  | @map _ _ _ fs _ htarget hfs =>
    obtain rfl := Ty.map.inj htarget
    have hplaces := forall₂_of_convertEntries hfs
    refine ⟨fs, ?_, hplaces⟩
    rw [mapping_of_known fun _ => h.any_isUnknown_eq_false_of_entries hplaces
      fun _ _ _ => isUnknown_eq]
    rfl
  | object htarget => cases htarget

/-- An object has the attributes that are asked for. -/
theorem exists_object {own : Ty} {es : Entries Value} {m : Marks} {bs : List (Attr Ty)}
    (h : Assignable (.object bs) ⟨own, .entries es, m⟩)
    (hw : convertAt limits depth (.object bs) ⟨own, .entries es, m⟩ = .ok w) :
    ∃ fs, w.content = .entries fs ∧ fs.map (·.1) = Attr.sortedNames bs ∧
      AttributesGiven limits (depth + 1) bs es fs := by
  have hbs := Attr.WellFormed.of_object h.slot
  cases conversionStep_of_convertAt hw with
  | keep hslot =>
    have hsame : own.same (.object bs) := hslot.same rfl
    refine ⟨es, rfl, h.wellFormed.keys_of_same_object h.slot hsame, fun f hf b hb hname => .inl ?_⟩
    obtain ⟨u, hu, hin, -⟩ := h.wellFormed.exists_slotOf_of_same h.slot hsame hf
    rw [← hname, slotOf?_object hbs.names hb] at hu
    obtain rfl := Option.some.inj hu
    exact ⟨f, hf, rfl, convertAt_of_inSlot hin⟩
  | retyped hretype => cases hretype
  | scalar hscalar => cases hscalar
  | map htarget => cases htarget
  | @object _ bs' _ fs _ htarget _ hfs =>
    obtain rfl := Ty.object.inj htarget
    obtain ⟨check, hchecks, hcheck⟩ := exists_checks_of_convertedAttributes hfs
    rw [Ty.firstError_map_eq_ok_iff] at hchecks
    have hnames : bs.map (·.name) = fs.map (·.1) := hchecks.map_eq_map fun _ _ h => h.1
    refine ⟨sortEntries fs, rfl, ?_, fun f hf b hb hname => ?_⟩
    · rw [keys_sortEntries, ← hnames, Attr.sortedNames]
    -- The names are distinct, so that the place under the name is the one it was made for.
    obtain ⟨b', hb', hname', hf⟩ := hchecks.exists_of_mem_right (mem_sortEntries.mp hf)
    obtain rfl := List.inj_on_of_nodup_map hbs.names hb hb' (hname.trans hname'.symm)
    have hslot : (Attr.find? bs b.name).map (·.ty) = some b.ty := by
      rw [Attr.find?_eq_some_of_mem hbs.names hb, Option.map_some]
    obtain ⟨-, hnull, hmissing⟩ | ⟨x, t, hx, ht, hconvert⟩ := hcheck b hb f.2 hf
    · refine .inr ⟨fun e he hkey => hmissing b.ty hslot ?_, hnull⟩
      exact List.mem_map.mpr ⟨e, he, hkey.trans hname.symm⟩
    · obtain rfl := Option.some.inj (ht.symm.trans hslot)
      exact .inl ⟨(b.name, x), hx, hname, hconvert⟩

/-- Maps and objects are assignable to maps and objects only. -/
theorem isMap_or_object {own : Ty} {es : Entries Value} {m : Marks}
    (h : Assignable t ⟨own, .entries es, m⟩) : (∃ u, t = .map u) ∨ ∃ bs, t = .object bs := by
  have hwell := h.wellFormed
  have husable := h.usable
  have hconcrete := h.concrete
  cases t with
  | map u => exact .inl ⟨u, rfl⟩
  | object bs => exact .inr ⟨bs, rfl⟩
  | dynamic => cases hconcrete
  | _ => cases hwell <;> cases husable

/-- The kind of contents stays the same. -/
theorem rank_eq (h : v.Assignable t) (hw : v.convertAt limits depth t = .ok w) :
    rank w.content = rank v.content := by
  obtain ⟨own, content, m⟩ := v
  cases content with
  | null => rw [content_of_null hw]
  | unknown r => rw [h.content_of_unknown hw]; rfl
  | bool | number | string | capsule => rw [h.eq_of_leaf rfl (by simp [rank]) hw]
  | items vs =>
    obtain ⟨_, _, -, -, -, hcontent, -⟩ := h.exists_items hw
    rw [hcontent]
    rfl
  | entries es =>
    obtain ⟨u, rfl⟩ | ⟨bs, rfl⟩ := h.isMap_or_object
    · obtain ⟨_, hcontent, -⟩ := h.exists_map hw
      rw [hcontent]
      rfl
    · obtain ⟨_, hcontent, -⟩ := h.exists_object hw
      rw [hcontent]
      rfl

/-- What stands inside is the null of an attribute that was left out, or stood inside before, up to
its own marks. -/
theorem exists_part {x : Value} (h : v.Assignable t) (hw : v.convertAt limits depth t = .ok w)
    (hx : x ∈ parts w.content) :
    x.content = .null ∨ ∃ y ∈ parts v.content, ∃ u z, y.Assignable u ∧
      y.convertAt limits (depth + 1) u = .ok z ∧ SameData x z := by
  -- Only containers have something inside, and what it is depends on the kind of the target.
  obtain ⟨own, content, m⟩ := v
  cases content with
  | null =>
    rw [content_of_null hw] at hx
    cases hx
  | unknown r =>
    rw [h.content_of_unknown hw] at hx
    cases hx
  | bool | number | string | capsule =>
    obtain rfl := h.eq_of_leaf rfl (by simp [rank]) hw
    cases hx
  | items vs =>
    obtain ⟨_, ws, -, hin, hws, hcontent, -⟩ := h.exists_items hw
    rw [hcontent] at hx
    obtain ⟨z, hz, hdata⟩ := exists_of_mem_inOrder hx
    obtain ⟨y, hy, u, hyu, hyz⟩ := (forall₂_of_convertItems hin hws).exists_of_mem_right hz
    exact .inr ⟨y, hy, u, z, hyu, hyz, hdata⟩
  | entries es =>
    obtain ⟨u, rfl⟩ | ⟨bs, rfl⟩ := h.isMap_or_object
    · obtain ⟨fs, hcontent, hfs⟩ := h.exists_map hw
      rw [hcontent] at hx
      obtain ⟨f, hf, rfl⟩ := List.mem_map.mp hx
      obtain ⟨e, he, -, hef⟩ := hfs.exists_of_mem_right hf
      exact .inr ⟨e.2, List.mem_map_of_mem he, u, f.2, h.entry he rfl, hef, .refl _⟩
    · obtain ⟨fs, hcontent, hkeys, hgiven⟩ := h.exists_object hw
      rw [hcontent] at hx
      obtain ⟨f, hf, rfl⟩ := List.mem_map.mp hx
      have hname : f.1 ∈ bs.map (·.name) := by
        have hmem : f.1 ∈ fs.map (·.1) := List.mem_map_of_mem hf
        rwa [hkeys, Attr.sortedNames, List.mem_mergeSort] at hmem
      obtain ⟨b, hb, hname⟩ := List.mem_map.mp hname
      obtain ⟨e, he, hkey, hef⟩ | ⟨-, hnull⟩ := hgiven f hf b hb hname
      · have hu : slotOf? (.object bs) e.1 = some b.ty := by
          rw [hkey, ← hname, slotOf?_object (Attr.WellFormed.of_object h.slot).names hb]
        exact .inr ⟨e.2, List.mem_map_of_mem he, b.ty, f.2, h.entry he hu, hef, .refl _⟩
      · rw [hnull]
        exact .inl rfl

/-- What holds of everything inside holds of everything that comes up, unless nulls, unknowns or
containers fail it. -/
theorem forall_contains {P : Content Value → Prop} (hnull : P .null)
    (hunknown : ∀ r, P (.unknown r)) (hitems : ∀ vs, P (.items vs))
    (hentries : ∀ es, P (.entries es)) (h : v.Assignable t)
    (hw : v.convertAt limits depth t = .ok w) (hv : ∀ x, v.Contains x → P x.content) :
    ∀ x, w.Contains x → P x.content := by
  induction v using Value.induction_parts generalizing t w depth with
  | step v ih =>
    refine forall_contains_iff.mpr ⟨?_, fun x hx => ?_⟩
    · -- Only scalars and capsules bring anything along, and those stay as they are.
      have hrank := h.rank_eq hw
      have hself := hv v .self
      obtain ⟨own, content, m⟩ := v
      cases content with
      | null => rwa [content_of_null hw]
      | unknown r =>
        rw [h.content_of_unknown hw]
        exact hunknown _
      | bool | number | string | capsule => rwa [h.eq_of_leaf rfl (by simp [rank]) hw]
      | items | entries =>
        obtain ⟨own', content', m'⟩ := w
        cases content' <;> first | exact hitems _ | exact hentries _ | cases hrank
    · obtain hcontent | ⟨y, hy, u, z, hyu, hyz, hdata⟩ := h.exists_part hw hx
      · refine forall_contains_iff.mpr ⟨hcontent ▸ hnull, fun y hy => ?_⟩
        rw [hcontent] at hy
        cases hy
      · have hz := ih y hy hyu hyz fun x hx => hv x (.of_mem_parts hy hx)
        rw [forall_contains_iff] at hz ⊢
        rwa [hdata.2]

/-- Without capsules inside, none come up. -/
theorem capsuleFree (h : v.Assignable t) (hw : v.convertAt limits depth t = .ok w)
    (hcapsule : v.CapsuleFree) : w.CapsuleFree :=
  h.forall_contains (P := fun content => ∀ handle, content ≠ .capsule handle) nofun
    (fun _ => nofun) (fun _ => nofun) (fun _ => nofun) hw hcapsule

end Assignable

end TypedData.Value
