import TypedData.Proofs.Assignable
import TypedData.Proofs.Wire.Agreement
import TypedData.Proofs.Wire.ReadElements

/-!
# Assignable values in their slots

What a value is written as in a slot to whose type its own is assignable is read there exactly if
its numbers and refinements are within the limits of the reader in the form in which they come back.
What is read then stands for the value that it converts to: the writer, the reader and the
conversion go through the places of the two types in step, what the writer leaves out is null for
the reader, and sets are put in order by the reader as they are by the conversion.

## Main definitions

* `Value.Deliverable`, `Value.Readable` — what is written, and what of it is read
* `Value.Arrived` — what was read stands for another value
* `Value.DeliveredAs` — what is written of one value is read as another

## Main results

* `Value.Assignable.deliveredAs` — assignable values are delivered as what they convert to
-/

namespace TypedData

namespace Value

variable {limit : Nat} {limits limits' : Limits} {depth depth' : Nat} {t u : Ty}
  {v w d x : Value} {m : Msgpack} {vs ws ds : List Value} {ts : List Ty}

/-- Values without capsules in whose refinements lengths are unsigned words. -/
structure Deliverable (v : Value) : Prop where
  capsuleFree : v.CapsuleFree
  counted : ∀ w, v.Contains w → ∀ r, w.refinement? = some r → r.Counted

theorem Deliverable.of_mem_parts (h : v.Deliverable) (hw : w ∈ parts v.content) :
    w.Deliverable where
  capsuleFree := h.capsuleFree.of_mem_parts hw
  counted x hx := h.counted x (.of_mem_parts hw hx)

/-- Values whose numbers and refinements are within a limit in the form in which they come back. -/
structure Readable (limit : Nat) (v : Value) : Prop where
  numbers : Msgpack.NumbersReturn limit v
  refinements : v.RefinementsReturn limit

theorem Readable.of_mem_parts (h : v.Readable limit) (hw : w ∈ parts v.content) :
    w.Readable limit where
  numbers x hx := h.numbers x (.of_mem_parts hw hx)
  refinements := h.refinements.of_mem_parts hw

theorem readable_of_parts (hnumber : v.asNumber? = none) (hrefinement : v.refinement? = none)
    (h : ∀ x ∈ parts v.content, x.Readable limit) : v.Readable limit where
  numbers := Msgpack.numbersReturn_of_parts hnumber fun x hx => (h x hx).numbers
  refinements := refinementsReturn_of_parts hrefinement fun x hx => (h x hx).refinements

/-- What was read in a slot stands for a value, if it is what comes back of that from text once its
numbers are in the form in which they are read from there. -/
structure Arrived (limit : Nat) (t : Ty) (w d : Value) : Prop where
  readIn : d.ReadIn limit t
  isUnknown_eq : d.isUnknown = w.isUnknown
  rewritten_eq : d.EncodedInside → d.rewritten = w.readBack Json.echo t

/-- What a value is written as is read exactly if its numbers and refinements can be, and what is
read stands for another value. -/
structure Delivers (limits : Limits) (t : Ty) (v w : Value) (m : Msgpack) : Prop where
  arrives : ∀ depth d, m.toValue limits depth t = .ok d →
    v.Readable limits.maxNumberExponent ∧ Arrived limits.maxNumberExponent t w d
  read : v.Readable limits.maxNumberExponent → ∀ depth,
    2 * depth + m.cost ≤ 2 * limits.maxDepth + 1 → ∃ d, m.toValue limits depth t = .ok d

/-- Whatever a value is written as in a slot delivers another one. -/
def DeliveredAs (limits : Limits) (t : Ty) (v w : Value) : Prop :=
  ∀ m, v.toMsgpack t = .ok m → m.Fits → Delivers limits t v w m

/-! ### Values without members -/

theorem deliveredAs_of_null (ht : t.WellFormed) (hnull : v.content = .null)
    (hw : w.content = .null) : DeliveredAs limits t v w := by
  intro m hm _
  obtain ⟨own, content, marks⟩ := v
  obtain ⟨own', content', marks'⟩ := w
  obtain rfl := hnull
  obtain rfl := hw
  obtain rfl := Except.ok.inj hm
  have hread (depth : Nat) (hdepth : depth ≤ limits.maxDepth) :
      Msgpack.toValue limits depth t .nil = .ok (null t) := by
    unfold Msgpack.toValue
    rw [if_neg (by omega)]
  have hreadable : Readable limits.maxNumberExponent ⟨own, .null, marks⟩ :=
    readable_of_parts rfl rfl (List.forall_mem_nil _)
  refine ⟨fun depth d hd => ⟨hreadable, ?_⟩, fun _ depth hcost => ?_⟩
  · obtain rfl := Except.ok.inj (hd.symm.trans (hread depth (Msgpack.depth_le_of_toValue hd)))
    exact ⟨readIn_null ht, rfl, fun _ => rfl⟩
  · rw [Msgpack.cost] at hcost
    exact ⟨_, hread depth (by omega)⟩

theorem deliveredAs_of_unknown (hupper : limits.maxNumberExponent < Word.signedBound)
    (ht : t.WellFormed) {own : Ty} {r : Refinement} {marks : Marks}
    (hv : WellFormed ⟨own, .unknown r, marks⟩) (hcounted : r.Counted)
    (hw : w.content = .unknown (r.retainFor t)) :
    DeliveredAs limits t ⟨own, .unknown r, marks⟩ w := by
  intro m hm hfits
  obtain rfl := Except.ok.inj hm
  cases hv with
  | unknown _ _ start =>
    have hread (hr : r.written.Writable limits.maxNumberExponent) (depth : Nat)
        (hdepth : depth ≤ limits.maxDepth) :
        (Msgpack.ofUnknown r).toValue limits depth t = .ok (unknownRefined t r.written) := by
      rw [← Msgpack.ofUnknown_written] at hfits ⊢
      rw [Msgpack.toValue_ofUnknown t hupper hr start hfits hdepth, Refinement.written_written]
    refine ⟨fun depth d hd => ?_, fun hreadable depth hcost => ?_⟩
    · have hr := Msgpack.writable_of_toValue_ofUnknown hcounted hfits hd
      obtain rfl := Except.ok.inj (hd.symm.trans (hread hr depth (Msgpack.depth_le_of_toValue hd)))
      have hreadable : Readable limits.maxNumberExponent ⟨own, .unknown r, marks⟩ := by
        refine ⟨Msgpack.numbersReturn_of_parts rfl (List.forall_mem_nil _),
          forall_contains_iff.mpr ⟨fun q hq => ?_, List.forall_mem_nil _⟩⟩
        obtain rfl := Option.some.inj hq
        exact hr
      have hback : (unknownRefined t r.written).ReadIn limits.maxNumberExponent t := by
        refine readIn_of_leaf (.unknownRefined ht (start.of_eq rfl)) rfl rfl rfl
          (fun _ h => by cases h) (fun q hq => ?_) fun _ h => by cases h
        obtain rfl := Option.some.inj hq
        exact hr.retainFor t
      refine ⟨hreadable, hback, ?_, fun _ => ?_⟩
      · obtain ⟨own', content', marks'⟩ := w
        obtain rfl := hw
        rfl
      · obtain ⟨own', content', marks'⟩ := w
        obtain rfl := hw
        -- What a type does not say is dropped before the bounds are written, or after.
        have hretained : (r.retainFor t).written.retainFor t = r.written.retainFor t := by
          cases t <;> rfl
        rw [readBack, unknownRefined, unknownRefined, hretained]
        rfl
    · have hpositive := (Msgpack.ofUnknown r).cost_pos
      exact ⟨_, hread (hreadable.refinements _ .self r rfl) depth (by omega)⟩

theorem Assignable.deliveredAs_of_scalar (hupper : limits.maxNumberExponent < Word.signedBound)
    (h : v.Assignable t) (hrank : rank v.content ∈ [1, 2, 3]) : DeliveredAs limits t v v := by
  intro m hm hfits
  have hwell := h.wellFormed
  obtain ⟨hin, hrefinement, hparts, hjson, hmsgpack⟩ : v.InSlot t ∧ v.refinement? = none ∧
      parts v.content = [] ∧ v.typesRead Json.echo t ∧ v.typesRead Msgpack.echo t := by
    have hconcrete := h.concrete
    cases hwell <;> simp only [rank, List.mem_cons, List.not_mem_nil, Nat.reduceEqDiff, or_self,
      or_false, false_or] at hrank
    all_goals
      exact ⟨h.wellFormed.inSlot_of_usableAs rfl rfl rfl h.usable, rfl, rfl,
        by simp [typesRead, typeRead, hconcrete], by simp [typesRead, typeRead, hconcrete]⟩
  have hrefinements : v.RefinementsReturn limits.maxNumberExponent :=
    refinementsReturn_of_parts hrefinement (by simp [hparts])
  obtain ⟨m', hconveys⟩ := Msgpack.exists_conveys_of_scalar hupper hwell hrank
    (hin.same h.concrete) h.slot.same_refl
  obtain rfl := Except.ok.inj (hm.symm.trans hconveys.written)
  refine ⟨fun depth d hd => ?_, fun hreadable depth hcost =>
    ⟨_, hconveys.read hfits hmsgpack hreadable.numbers depth hcost⟩⟩
  obtain rfl := (Msgpack.echoes hupper hwell t t m depth d h.slot h.slot hin h.slot.same_refl
    hrefinements hfits hm hd).eq
  have hback : (v.readBack Msgpack.echo t).ReadIn limits.maxNumberExponent t :=
    readIn_of_scalar (Msgpack.wellFormed_toValue h.slot hd).1 (ty_readBack h.concrete v)
      (marks_readBack _ t v) (by rwa [rank_readBack]) (steady_readBack Msgpack.faithful_echo v t)
  exact ⟨⟨(hconveys.needed depth _ hd).2, hrefinements⟩, hback, isUnknown_readBack _ t v,
    fun _ => rewritten_readBack hwell hjson hmsgpack⟩

/-! ### Elements -/

/-- Elements that were read stand for others, each in its slot. -/
inductive ArrivedEach (limit : Nat) : List Ty → List Value → List Value → Prop
  | nil : ArrivedEach limit [] [] []
  | cons {t : Ty} {w d : Value} {ts : List Ty} {ws ds : List Value} (h : Arrived limit t w d)
      (hs : ArrivedEach limit ts ws ds) : ArrivedEach limit (t :: ts) (w :: ws) (d :: ds)

namespace ArrivedEach

theorem exists_arrived (h : ArrivedEach limit ts ws ds) (hd : d ∈ ds) :
    ∃ t ∈ ts, ∃ w ∈ ws, Arrived limit t w d := by
  induction h with
  | nil => cases hd
  | @cons t w _ _ _ _ h _ ih =>
    rcases List.mem_cons.mp hd with rfl | hd
    · exact ⟨t, by simp, w, by simp, h⟩
    · obtain ⟨t, ht, w, hw, h⟩ := ih hd
      exact ⟨t, by simp [ht], w, by simp [hw], h⟩

theorem any_isUnknown_eq (h : ArrivedEach limit ts ws ds) :
    ds.any isUnknown = ws.any isUnknown := by
  induction h with
  | nil => rfl
  | cons h _ ih => rw [List.any_cons, List.any_cons, h.isUnknown_eq, ih]

theorem map_rewritten (h : ArrivedEach limit ts ws ds) (hencoded : ∀ d ∈ ds, d.EncodedInside) :
    ds.map rewritten = readBackEach Json.echo ts ws := by
  induction h with
  | nil => rfl
  | cons h _ ih =>
    rw [List.forall_mem_cons] at hencoded
    rw [List.map_cons, readBackEach, h.rewritten_eq hencoded.1, ih hencoded.2, List.headD_cons,
      List.tail_cons]

end ArrivedEach

section Items

variable {R : Value → Ty → Prop} {ms : List Msgpack} {i j k : Nat}

/-- What was read of elements stands for what they convert to. -/
theorem arrivedEach_of_itemsToValues (hin : List.Forall₂ R vs ts)
    (hws : convertItems limits' depth' i ts vs = .ok ws) (hms : itemsToMsgpack j ts vs = .ok ms)
    (h : ∀ v ∈ vs, ∀ t w, R v t → v.convertAt limits' depth' t = .ok w → DeliveredAs limits t v w)
    (hfits : ∀ m ∈ ms, m.Fits) (hds : Msgpack.itemsToValues limits depth k ts ms = .ok ds) :
    (∀ v ∈ vs, v.Readable limits.maxNumberExponent) ∧
      ArrivedEach limits.maxNumberExponent ts ws ds := by
  induction hin generalizing i j k ws ms ds with
  | nil =>
    obtain rfl := Except.ok.inj hws
    obtain rfl := Except.ok.inj hms
    obtain rfl := Except.ok.inj hds
    exact ⟨nofun, .nil⟩
  | @cons v t vs ts hv _ ih =>
    rw [convertItems] at hws
    split at hws
    · cases hws
    rename_i w hw
    obtain ⟨ws', hws', rfl⟩ := Except.map_eq_ok_iff.mp hws
    obtain ⟨m, ms', hm, hms', rfl⟩ := Msgpack.exists_of_itemsToMsgpack_cons hms
    rw [List.forall_mem_cons] at h hfits
    rw [Msgpack.itemsToValues] at hds
    split at hds
    · cases hds
    rename_i d hd
    obtain ⟨ds', hds', rfl⟩ := Except.map_eq_ok_iff.mp hds
    obtain ⟨hreadable, harrived⟩ := (h.1 t w hv hw m hm hfits.1).arrives depth d hd
    obtain ⟨hreadables, harriveds⟩ := ih hws' hms' h.2 hfits.2 hds'
    exact ⟨List.forall_mem_cons.mpr ⟨hreadable, hreadables⟩, .cons harrived harriveds⟩

/-- Elements are read if each of them can be. -/
theorem exists_itemsToValues (hin : List.Forall₂ R vs ts)
    (hws : convertItems limits' depth' i ts vs = .ok ws) (hms : itemsToMsgpack j ts vs = .ok ms)
    (h : ∀ v ∈ vs, ∀ t w, R v t → v.convertAt limits' depth' t = .ok w → DeliveredAs limits t v w)
    (hfits : ∀ m ∈ ms, m.Fits) (hreadable : ∀ v ∈ vs, v.Readable limits.maxNumberExponent)
    (hcost : 2 * depth + Msgpack.costOfItems ms ≤ 2 * limits.maxDepth + 1) :
    ∃ ds, Msgpack.itemsToValues limits depth k ts ms = .ok ds := by
  induction hin generalizing i j k ws ms with
  | nil =>
    obtain rfl := Except.ok.inj hms
    exact ⟨[], rfl⟩
  | @cons v t vs ts hv _ ih =>
    rw [convertItems] at hws
    split at hws
    · cases hws
    rename_i w hw
    obtain ⟨ws', hws', rfl⟩ := Except.map_eq_ok_iff.mp hws
    obtain ⟨m, ms', hm, hms', rfl⟩ := Msgpack.exists_of_itemsToMsgpack_cons hms
    rw [List.forall_mem_cons] at h hfits hreadable
    rw [Msgpack.costOfItems] at hcost
    obtain ⟨d, hd⟩ := (h.1 t w hv hw m hm hfits.1).read hreadable.1 depth (by omega)
    obtain ⟨ds, hds⟩ := ih (k := k + 1) hws' hms' h.2 hfits.2 hreadable.2 (by omega)
    exact ⟨d :: ds, by simp only [Msgpack.itemsToValues, List.headD_cons, List.tail_cons, hd, hds,
      Except.map]⟩

end Items

/-- Elements that were read are in the order of those that they stand for, as these come back. -/
theorem ArrivedEach.map_rewritten_inOrder (hlimit : limit < Word.signedBound) (ht : t.WellFormed)
    (hdynamic : t.hasDynamic = false) (hts : slots? t ws.length = some ts)
    (h : ArrivedEach limit ts ws ds) (hws : List.Forall₂ (fun w u => Placed Json.echo u w) ws ts)
    (hknown : t.isCollection → ds.any isUnknown = false)
    (hencoded : ∀ d ∈ inOrder t ds, d.EncodedInside) :
    (inOrder t ds).map rewritten =
      inOrder t (readBackEach Json.echo (itemSlots t (inOrder t ws).length) (inOrder t ws)) := by
  cases hset : t.isSet with
  | false =>
    simp only [inOrder, hset, Bool.false_eq_true, if_false] at hencoded ⊢
    rw [itemSlots, hts, Option.getD_some, h.map_rewritten hencoded]
  | true =>
    simp only [inOrder, hset, if_true] at hencoded ⊢
    cases t with
    | set u =>
      obtain rfl := Option.some.inj hts
      have hu : u.WellFormed := by cases ht; assumption
      have hread : ∀ d ∈ ds, d.ReadIn limit u := by
        intro d hd
        obtain ⟨t, ht, _, -, harrived⟩ := h.exists_arrived hd
        exact List.eq_of_mem_replicate ht ▸ harrived.readIn
      have hplaced : ∀ w ∈ ws, Placed Json.echo u w := by
        intro w hw
        obtain ⟨t, ht, hwt⟩ := hws.exists_of_mem_left hw
        exact List.eq_of_mem_replicate ht ▸ hwt
      have hconcrete : u.hasDynamic = false := hdynamic
      have hinside := ReadIn.encodedInside_of_canonicalSet hconcrete hread hencoded
      have himages := h.map_rewritten hinside
      rw [readBackEach_replicate] at himages
      rw [itemSlots, slots?, Option.getD_some, readBackEach_replicate]
      refine map_rewritten_canonicalSet hlimit hu hconcrete hread (fun d hd => ?_) hinside hplaced
        himages
      exact Bool.eq_false_iff.mpr (List.any_eq_false.mp (hknown rfl) d hd)
    | _ => cases hset

namespace Assignable

/-- What an assignable value converts to is placed. -/
theorem placed (h : v.Assignable t) (hcapsule : v.CapsuleFree)
    (hw : v.convertAt limits depth t = .ok w) : Placed Json.echo t w := by
  obtain ⟨hwell, hin⟩ := h.wellFormed.convertAt h.slot hw
  exact placed_of_hasDynamic hwell (h.capsuleFree hw hcapsule) h.slot h.noDynamic
    (hin.same h.concrete)

theorem placed_items {i : Nat} (hin : List.Forall₂ (fun v t => v.Assignable t) vs ts)
    (hcapsule : ∀ v ∈ vs, v.CapsuleFree) (hws : convertItems limits depth i ts vs = .ok ws) :
    List.Forall₂ (fun w t => Placed Json.echo t w) ws ts := by
  induction hin generalizing i ws with
  | nil =>
    obtain rfl := Except.ok.inj hws
    exact .nil
  | cons hv _ ih =>
    rw [List.forall_mem_cons] at hcapsule
    rw [convertItems] at hws
    split at hws
    · cases hws
    rename_i w hw
    obtain ⟨ws', hws', rfl⟩ := Except.map_eq_ok_iff.mp hws
    exact .cons (hv.placed hcapsule.1 hw) (ih hcapsule.2 hws')

theorem deliveredAs_items (hupper : limits.maxNumberExponent < Word.signedBound) {own : Ty}
    {marks : Marks} (h : Assignable t ⟨own, .items vs, marks⟩)
    (hcapsule : CapsuleFree ⟨own, .items vs, marks⟩)
    (hw : convertAt limits' depth' t ⟨own, .items vs, marks⟩ = .ok w)
    (ih : ∀ v ∈ vs, ∀ t w, v.Assignable t → v.convertAt limits' (depth' + 1) t = .ok w →
      DeliveredAs limits t v w) : DeliveredAs limits t ⟨own, .items vs, marks⟩ w := by
  intro m hm hfits
  obtain ⟨ts, ws, hts, hin, hws, hcontent, -⟩ := h.exists_items hw
  rw [Msgpack.toMsgpack_items hts] at hm
  obtain ⟨ms, hms, rfl⟩ := Except.map_eq_ok_iff.mp hm
  have hlength : ms.length = vs.length :=
    Msgpack.length_of_itemsToMsgpack (length_of_slots? hts) hms
  have hwlength : ws.length = vs.length := (forall₂_of_convertItems hin hws).length_eq.symm
  cases hfits with
  | array hcount hfits =>
    refine ⟨fun depth d hd => ?_, fun hreadable depth hcost => ?_⟩
    · have hback := Msgpack.wellFormed_toValue h.slot hd
      rw [Msgpack.toValue_array (hlength ▸ hts) (Msgpack.depth_le_of_toValue hd)] at hd
      obtain ⟨ds, hds, rfl⟩ := Except.map_eq_ok_iff.mp hd
      obtain ⟨hreadable, heach⟩ := arrivedEach_of_itemsToValues hin hws hms ih hfits hds
      have hknown : t.isCollection → ds.any isUnknown = false := fun hcollection => by
        rw [heach.any_isUnknown_eq]
        exact h.any_isUnknown_eq_false_of_items hin hws hcollection fun _ _ _ _ => isUnknown_eq
      rw [sequence_of_known (hwlength ▸ hts) hknown] at hback ⊢
      have hunmarked : ∀ d ∈ ds, d.marks = .empty := by
        intro d hd
        obtain ⟨_, -, _, -, harrived⟩ := heach.exists_arrived hd
        exact harrived.readIn.unmarked
      refine ⟨readable_of_parts rfl rfl hreadable,
        readIn_of_parts hback.1 rfl rfl rfl fun x hx => ?_, (h.isUnknown_eq hw).symm,
        fun hencoded => ?_⟩
      · obtain ⟨u, -, _, -, harrived⟩ := heach.exists_arrived (mem_of_mem_inOrder hunmarked hx)
        exact ⟨u, harrived.readIn⟩
      · have hmap := heach.map_rewritten_inOrder hupper h.slot h.noDynamic (hwlength ▸ hts)
          (placed_items hin (fun v hv => hcapsule.of_mem_parts hv) hws) hknown
          fun d hd => hencoded.of_mem_parts hd
        obtain ⟨own', content', marks'⟩ := w
        obtain rfl := hcontent
        rw [ofContent, rewritten, rewrittenEach_eq_map, hmap, readBack, Wire.Echo.slotType,
          h.concrete]
        rfl
    · rw [Msgpack.cost] at hcost
      obtain ⟨ds, hds⟩ : ∃ ds, Msgpack.itemsToValues limits (depth + 1) 0 _ ms = .ok ds :=
        exists_itemsToValues hin hws hms ih hfits (fun v hv => hreadable.of_mem_parts hv)
          (by omega)
      exact ⟨_, by rw [Msgpack.toValue_array (hlength ▸ hts) (by omega), hds]; rfl⟩

end Assignable

/-! ### Entries -/

/-- An entry that was read stands for another one, under the same key. -/
def EntryArrived (limit : Nat) (t : Ty) (f g : String × Value) : Prop :=
  f.1 = g.1 ∧ Arrived limit (entrySlot t f.1) f.2 g.2

section Entries

variable {es fs gs : Entries Value} {ms : List (Msgpack × Msgpack)} {own : Ty} {marks : Marks}

/-- Entries that were read stand for what is delivered. -/
theorem exists_arrived_members
    (h : List.Forall₂ (fun e f => e.1 = f.1 ∧ DeliveredAs limits (entrySlot t e.1) e.2 f.2) es fs)
    (hms : entriesToMsgpack (slotOf? t) es = .ok ms) (hfits : ∀ p ∈ ms, p.2.Fits)
    (hok : ∀ p ∈ Msgpack.entriesToMembers limits depth (entrySlot t) (es.map (·.1)) ms,
      ∃ d, p.2 = .ok d) :
    (∀ e ∈ es, e.2.Readable limits.maxNumberExponent) ∧ ∃ gs,
      Msgpack.entriesToMembers limits depth (entrySlot t) (es.map (·.1)) ms =
        gs.map (fun g => (g.1, .ok g.2)) ∧
      List.Forall₂ (EntryArrived limits.maxNumberExponent t) fs gs := by
  induction h generalizing ms with
  | nil =>
    obtain rfl := Except.ok.inj hms
    exact ⟨nofun, [], rfl, .nil⟩
  | @cons e f es fs hef _ ih =>
    obtain ⟨u, m, ms', hu, hm, hms', rfl⟩ := Msgpack.exists_of_entriesToMsgpack_cons hms
    have hslot : entrySlot t e.1 = u := by rw [entrySlot, hu, Option.getD_some]
    rw [List.forall_mem_cons] at hfits
    rw [List.map_cons, Msgpack.entriesToMembers, List.headD_cons, List.tail_cons] at hok ⊢
    obtain ⟨⟨d, hd⟩, hok⟩ := List.forall_mem_cons.mp hok
    obtain ⟨hreadable, harrived⟩ := (hef.2 m (hslot ▸ hm) hfits.1).arrives depth d hd
    obtain ⟨hreadables, gs, hgs, harriveds⟩ := ih hms' hfits.2 hok
    refine ⟨List.forall_mem_cons.mpr ⟨hreadable, hreadables⟩, (f.1, d) :: gs, ?_,
      .cons ⟨rfl, hef.1 ▸ harrived⟩ harriveds⟩
    rw [hgs, List.map_cons, ← hef.1]
    exact congrArg (fun r => (e.1, r) :: _) hd

/-- Entries are read if each of them can be. -/
theorem ok_entriesToMembers
    (h : List.Forall₂ (fun e f => e.1 = f.1 ∧ DeliveredAs limits (entrySlot t e.1) e.2 f.2) es fs)
    (hms : entriesToMsgpack (slotOf? t) es = .ok ms) (hfits : ∀ p ∈ ms, p.2.Fits)
    (hreadable : ∀ e ∈ es, e.2.Readable limits.maxNumberExponent)
    (hcost : 2 * depth + Msgpack.costOfEntries ms ≤ 2 * limits.maxDepth + 1) :
    ∀ p ∈ Msgpack.entriesToMembers limits depth (entrySlot t) (es.map (·.1)) ms,
      ∃ d, p.2 = .ok d := by
  induction h generalizing ms with
  | nil =>
    obtain rfl := Except.ok.inj hms
    exact nofun
  | @cons e f es fs hef _ ih =>
    obtain ⟨u, m, ms', hu, hm, hms', rfl⟩ := Msgpack.exists_of_entriesToMsgpack_cons hms
    have hslot : entrySlot t e.1 = u := by rw [entrySlot, hu, Option.getD_some]
    rw [List.forall_mem_cons] at hfits hreadable
    rw [Msgpack.costOfEntries] at hcost
    rw [List.map_cons, Msgpack.entriesToMembers, List.headD_cons, List.tail_cons]
    exact List.forall_mem_cons.mpr ⟨(hef.2 m (hslot ▸ hm) hfits.1).read hreadable.1 depth
      (by omega), ih hms' hfits.2 hreadable.2 (by omega)⟩

/-- Only declared attributes were written. -/
theorem declared_of_entriesToMsgpack {bs : List (Attr Ty)}
    (hms : entriesToMsgpack (slotOf? (.object bs)) es = .ok ms) :
    ∀ k ∈ es.map (·.1), k ∈ bs.map (·.name) := by
  induction es generalizing ms with
  | nil => exact List.forall_mem_nil _
  | cons e es ih =>
    obtain ⟨u, m, ms', hu, -, hms', -⟩ := Msgpack.exists_of_entriesToMsgpack_cons hms
    obtain ⟨b, hb, -⟩ := Option.map_eq_some_iff.mp hu
    exact List.forall_mem_cons.mpr ⟨Attr.find?_isSome_iff.mp (hb ▸ rfl), ih hms'⟩

/-- Each attribute of an object is one that was read, or it was left out and is null. -/
theorem exists_arrived_attribute {bs : List (Attr Ty)} (hbs : (Ty.object bs).WellFormed)
    (hkeys : fs.map (·.1) = Attr.sortedNames bs)
    (hgiven : AttributesGiven limits' depth' bs es fs) {fs' : Entries Value}
    (hes : List.Forall₂ (fun e f => f ∈ fs ∧ e.1 = f.1) es fs')
    (hgs : List.Forall₂ (EntryArrived limit (.object bs)) fs' gs) {f : String × Value}
    (hf : f ∈ fs) : ∃ h : String × Value, EntryArrived limit (.object bs) f h ∧
      (h ∈ gs ∨ h.1 ∉ gs.map (·.1) ∧ h.2 = null (entrySlot (.object bs) h.1)) := by
  have hnames := (Attr.WellFormed.of_object hbs).names
  have hfs : (fs.map (·.1)).Nodup :=
    hkeys ▸ (List.mergeSort_perm _ _).nodup_iff.mpr hnames
  have hsame : es.map (·.1) = gs.map (·.1) :=
    (hes.map_eq_map fun _ _ h => h.2).trans (hgs.map_eq_map fun _ _ h => h.1)
  by_cases hmem : f.1 ∈ gs.map (·.1)
  · rw [← hsame] at hmem
    obtain ⟨e, he, hkey⟩ := List.mem_map.mp hmem
    obtain ⟨f', hf', hmem', hkey'⟩ := hes.exists_of_mem_left he
    obtain rfl := List.inj_on_of_nodup_map hfs hmem' hf (hkey'.symm.trans hkey)
    obtain ⟨g, hg, harrived⟩ := hgs.exists_of_mem_left hf'
    exact ⟨g, harrived, .inl hg⟩
  · have hslot : f.1 ∈ bs.map (·.name) := by
      have hin : f.1 ∈ fs.map (·.1) := List.mem_map_of_mem hf
      rwa [hkeys, Attr.sortedNames, List.mem_mergeSort] at hin
    obtain ⟨b, hb, hname⟩ := List.mem_map.mp hslot
    obtain ⟨e, he, hkey, -⟩ | ⟨-, hnull⟩ := hgiven f hf b hb hname
    · exact absurd (hsame ▸ List.mem_map.mpr ⟨e, he, hkey⟩) hmem
    · have hentry : entrySlot (.object bs) f.1 = b.ty := by
        rw [entrySlot, ← hname, slotOf?_object hnames hb, Option.getD_some]
      have hwell := (Attr.WellFormed.of_object hbs).types b hb
      refine ⟨(f.1, null b.ty), ⟨rfl, ?_⟩, .inr ⟨hmem, congrArg null hentry.symm⟩⟩
      rw [hentry, hnull]
      exact ⟨readIn_null hwell, rfl, fun _ => rfl⟩

/-- What is read of some attributes makes the object that has nulls for the others. -/
theorem exists_arrived_attributes {bs : List (Attr Ty)} (hbs : (Ty.object bs).WellFormed)
    (hkeys : fs.map (·.1) = Attr.sortedNames bs)
    (hgiven : AttributesGiven limits' depth' bs es fs) (hnodup : (es.map (·.1)).Nodup)
    {fs' : Entries Value} (hes : List.Forall₂ (fun e f => f ∈ fs ∧ e.1 = f.1) es fs')
    (hgs : List.Forall₂ (EntryArrived limit (.object bs)) fs' gs) :
    ∃ hs, List.Forall₂ (EntryArrived limit (.object bs)) fs hs ∧
      Wire.objectOf (.object bs) bs (gs.map fun g => (g.1, .ok g.2)) =
        .ok (mapping (.object bs) hs) := by
  have hnames := (Attr.WellFormed.of_object hbs).names
  have hsame : es.map (·.1) = gs.map (·.1) :=
    (hes.map_eq_map fun _ _ h => h.2).trans (hgs.map_eq_map fun _ _ h => h.1)
  rw [hsame] at hnodup
  obtain ⟨hs, hhs⟩ := List.exists_forall₂_of_mem fun f (hf : f ∈ fs) =>
    exists_arrived_attribute hbs hkeys hgiven hes hgs hf
  have hnamed : hs.map (·.1) = fs.map (·.1) := (hhs.map_eq_map fun _ _ h => h.1.1).symm
  refine ⟨hs, hhs.imp fun _ _ h => h.1, Wire.objectOf_eq_of_absent hnames (hnamed.trans hkeys)
    hnodup (fun g hg => ?_) fun g hg hnot a ha hname => ?_⟩
  · obtain ⟨f, hf, hkey, -⟩ := hgs.exists_of_mem_right hg
    obtain ⟨e, -, hmem, -⟩ := hes.exists_of_mem_right hf
    obtain ⟨g', hg', ⟨hkey', -⟩, hin⟩ := hhs.exists_of_mem_left hmem
    have hkeys' : g'.1 = g.1 := hkey'.symm.trans hkey
    rcases hin with hin | ⟨hnot, -⟩
    · exact List.inj_on_of_nodup_map hnodup hin hg hkeys' ▸ hg'
    · exact absurd (hkeys' ▸ List.mem_map_of_mem hg) hnot
  · obtain ⟨f, -, -, hin | ⟨-, hnull⟩⟩ := hhs.exists_of_mem_right hg
    · exact absurd (List.mem_map_of_mem hin) hnot
    · rw [hnull, entrySlot, ← hname, slotOf?_object hnames ha, Option.getD_some]

/-- What the entries `es` are written as is read exactly if each of them is, and what is read then
stands for the entries `fs`. An object has more of these, for the attributes that `es` lacks. -/
structure EntriesDelivered (limits : Limits) (depth : Nat) (t : Ty) (es fs : Entries Value)
    (ms : List (Msgpack × Msgpack)) : Prop where
  each : ∃ fs' : Entries Value,
    List.Forall₂ (fun e f => e.1 = f.1 ∧ DeliveredAs limits (entrySlot t e.1) e.2 f.2) es fs'
  read : (∀ p ∈ Msgpack.entriesToMembers limits (depth + 1) (entrySlot t) (es.map (·.1)) ms,
    ∃ d, p.2 = .ok d) → (∀ e ∈ es, e.2.Readable limits.maxNumberExponent) ∧ ∃ gs,
      List.Forall₂ (EntryArrived limits.maxNumberExponent t) fs gs ∧
      Msgpack.toValue limits depth t (.map ms) = .ok (ofContent t (.entries gs))
  needed : ∀ d, Msgpack.toValue limits depth t (.map ms) = .ok d →
    ∀ p ∈ Msgpack.entriesToMembers limits (depth + 1) (entrySlot t) (es.map (·.1)) ms,
      ∃ d, p.2 = .ok d

namespace Assignable

/-- Each declared attribute is given under its name. -/
theorem exists_given {bs : List (Attr Ty)} {e : String × Value}
    (h : Assignable (.object bs) ⟨own, .entries es, marks⟩)
    (hkeys : fs.map (·.1) = Attr.sortedNames bs)
    (hgiven : AttributesGiven limits' depth' bs es fs) (he : e ∈ es)
    (hdeclared : e.1 ∈ bs.map (·.name)) : ∃ f ∈ fs, e.1 = f.1 ∧ ∃ u,
      slotOf? (.object bs) e.1 = some u ∧ e.2.convertAt limits' depth' u = .ok f.2 := by
  have hmem : e.1 ∈ fs.map (·.1) := by rwa [hkeys, Attr.sortedNames, List.mem_mergeSort]
  obtain ⟨f, hf, hkey⟩ := List.mem_map.mp hmem
  obtain ⟨b, hb, hname⟩ := List.mem_map.mp hdeclared
  have hslot : slotOf? (.object bs) e.1 = some b.ty := by
    rw [← hname, slotOf?_object (Attr.WellFormed.of_object h.slot).names hb]
  -- Since the object has the attribute, what is under its name does not come from an omission.
  obtain ⟨e', he', hkey', hconvert⟩ | ⟨hnone, -⟩ := hgiven f hf b hb (hname.trans hkey.symm)
  · obtain rfl := List.inj_on_of_nodup_map h.wellFormed.nodup_keys he' he (hkey'.trans hkey)
    exact ⟨f, hf, hkey.symm, b.ty, hslot, hconvert⟩
  · exact absurd hkey.symm (hnone e he)

/-- The entries are written into the slots of their keys. -/
theorem toMsgpack_entries (h : Assignable t ⟨own, .entries es, marks⟩) :
    toMsgpack t ⟨own, .entries es, marks⟩ = (entriesToMsgpack (slotOf? t) es).map .map := by
  obtain ⟨u, rfl⟩ | ⟨bs, rfl⟩ := h.isMap_or_object <;> rfl

/-- A map keeps all its keys, and so the order of its entries. -/
theorem entriesDelivered_map (h : Assignable (.map u) ⟨own, .entries es, marks⟩)
    (hw : convertAt limits' depth' (.map u) ⟨own, .entries es, marks⟩ = .ok w)
    (ih : ∀ e ∈ es, ∀ t w, e.2.Assignable t → e.2.convertAt limits' (depth' + 1) t = .ok w →
      DeliveredAs limits t e.2 w)
    (hms : entriesToMsgpack (slotOf? (.map u)) es = .ok ms) (hfits : ∀ p ∈ ms, p.2.Fits)
    (hdepth : depth ≤ limits.maxDepth) :
    ∃ fs : Entries Value, w.content = .entries fs ∧
      EntriesDelivered limits depth (.map u) es fs ms := by
  have hkeysOf := Msgpack.keysOf_of_entriesToMsgpack h.wellFormed hms
  obtain ⟨fs, hcontent, hfs⟩ := h.exists_map hw
  have hdelivered : List.Forall₂ (fun e f => e.1 = f.1 ∧
      DeliveredAs limits (entrySlot (.map u) e.1) e.2 f.2) es fs :=
    hfs.imp_of_mem fun e he f _ hef => ⟨hef.1, ih e he u f.2 (h.entry he rfl) hef.2⟩
  refine ⟨fs, hcontent, ⟨fs, hdelivered⟩, fun hok => ?_, fun d hd => ?_⟩
  · obtain ⟨hreadable, gs, hmembers, hgs⟩ := exists_arrived_members hdelivered hms hfits hok
    refine ⟨hreadable, gs, hgs, ?_⟩
    have hsorted : (gs.map (·.1)).Pairwise (· < ·) := by
      rw [← hgs.map_eq_map fun _ _ h => h.1, ← hfs.map_eq_map fun _ _ h => h.1]
      exact h.wellFormed.entries_keys.1
    have hknown : (gs.map (·.2)).any isUnknown = false := by
      have hany := h.any_isUnknown_eq_false_of_entries hfs fun _ _ _ => isUnknown_eq
      rw [List.any_eq_false, List.forall_mem_map] at hany ⊢
      intro g hg
      obtain ⟨f, hf, -, harrived⟩ := hgs.exists_of_mem_right hg
      rw [harrived.isUnknown_eq]
      exact hany f hf
    rw [← mapping_of_known fun _ => hknown, Msgpack.toValue_map hkeysOf hdepth,
      ← Wire.mapOf_eq hsorted]
    exact congrArg (Wire.mapOf (.map u)) hmembers
  · rw [Msgpack.toValue_map hkeysOf hdepth] at hd
    exact Wire.ok_of_mapOf hd

/-- The attributes that were written are some of those that the object is given. -/
theorem exists_delivered_attributes {bs : List (Attr Ty)}
    (h : Assignable (.object bs) ⟨own, .entries es, marks⟩)
    (hkeys : fs.map (·.1) = Attr.sortedNames bs)
    (hgiven : AttributesGiven limits' (depth' + 1) bs es fs)
    (ih : ∀ e ∈ es, ∀ t w, e.2.Assignable t → e.2.convertAt limits' (depth' + 1) t = .ok w →
      DeliveredAs limits t e.2 w)
    (hms : entriesToMsgpack (slotOf? (.object bs)) es = .ok ms) :
    ∃ fs' : Entries Value, List.Forall₂ (fun e f => (f ∈ fs ∧ e.1 = f.1) ∧
      DeliveredAs limits (entrySlot (.object bs) e.1) e.2 f.2) es fs' := by
  refine List.exists_forall₂_of_mem fun e he => ?_
  obtain ⟨f, hf, hkey, u, hu, hconvert⟩ := h.exists_given hkeys hgiven he
    (declared_of_entriesToMsgpack hms e.1 (List.mem_map_of_mem he))
  refine ⟨f, ⟨hf, hkey⟩, ?_⟩
  rw [entrySlot, hu, Option.getD_some]
  exact ih e he u f.2 (h.entry he hu) hconvert

/-- An object gets nulls for what was left out. -/
theorem entriesDelivered_object {bs : List (Attr Ty)}
    (h : Assignable (.object bs) ⟨own, .entries es, marks⟩)
    (hw : convertAt limits' depth' (.object bs) ⟨own, .entries es, marks⟩ = .ok w)
    (ih : ∀ e ∈ es, ∀ t w, e.2.Assignable t → e.2.convertAt limits' (depth' + 1) t = .ok w →
      DeliveredAs limits t e.2 w)
    (hms : entriesToMsgpack (slotOf? (.object bs)) es = .ok ms) (hfits : ∀ p ∈ ms, p.2.Fits)
    (hdepth : depth ≤ limits.maxDepth) :
    ∃ fs : Entries Value, w.content = .entries fs ∧
      EntriesDelivered limits depth (.object bs) es fs ms := by
  have hkeysOf := Msgpack.keysOf_of_entriesToMsgpack h.wellFormed hms
  have hdeclared := declared_of_entriesToMsgpack hms
  obtain ⟨fs, hcontent, hkeys, hgiven⟩ := h.exists_object hw
  obtain ⟨fs', hfs'⟩ := h.exists_delivered_attributes hkeys hgiven ih hms
  have hdelivered : List.Forall₂ (fun e f => e.1 = f.1 ∧
      DeliveredAs limits (entrySlot (.object bs) e.1) e.2 f.2) es fs' :=
    hfs'.imp fun _ _ h => ⟨h.1.2, h.2⟩
  refine ⟨fs, hcontent, ⟨fs', hdelivered⟩, fun hok => ?_, fun d hd => ?_⟩
  · obtain ⟨hreadable, gs, hmembers, hgs⟩ := exists_arrived_members hdelivered hms hfits hok
    obtain ⟨hs, hhs, hobject⟩ := exists_arrived_attributes h.slot hkeys hgiven
      h.wellFormed.nodup_keys (hfs'.imp fun _ _ h => h.1) hgs
    refine ⟨hreadable, hs, hhs, ?_⟩
    rw [Msgpack.toValue_object hkeysOf hdeclared hdepth]
    exact (congrArg (Wire.objectOf (.object bs) bs) hmembers).trans hobject
  · rw [Msgpack.toValue_object hkeysOf hdeclared hdepth] at hd
    have hnames : (Msgpack.entriesToMembers limits (depth + 1) (entrySlot (.object bs))
        (es.map (·.1)) ms).map (·.1) = es.map (·.1) :=
      Msgpack.keys_entriesToMembers (Msgpack.length_keysOf hkeysOf)
    refine Wire.ok_of_objectOf ((congrArg List.Nodup hnames).mpr h.wellFormed.nodup_keys)
      (fun p hp => hdeclared p.1 ?_) hd
    rw [← hnames]
    exact List.mem_map_of_mem hp

/-- What is written of a map or object is read as the entries of what that converts to. -/
theorem exists_entriesDelivered (h : Assignable t ⟨own, .entries es, marks⟩)
    (hw : convertAt limits' depth' t ⟨own, .entries es, marks⟩ = .ok w)
    (ih : ∀ e ∈ es, ∀ t w, e.2.Assignable t → e.2.convertAt limits' (depth' + 1) t = .ok w →
      DeliveredAs limits t e.2 w)
    (hms : entriesToMsgpack (slotOf? t) es = .ok ms) (hfits : ∀ p ∈ ms, p.2.Fits)
    (hdepth : depth ≤ limits.maxDepth) :
    ∃ fs : Entries Value, w.content = .entries fs ∧ EntriesDelivered limits depth t es fs ms := by
  obtain ⟨u, rfl⟩ | ⟨bs, rfl⟩ := h.isMap_or_object
  · exact h.entriesDelivered_map hw ih hms hfits hdepth
  · exact h.entriesDelivered_object hw ih hms hfits hdepth

theorem deliveredAs_entries (h : Assignable t ⟨own, .entries es, marks⟩)
    (hw : convertAt limits' depth' t ⟨own, .entries es, marks⟩ = .ok w)
    (ih : ∀ e ∈ es, ∀ t w, e.2.Assignable t → e.2.convertAt limits' (depth' + 1) t = .ok w →
      DeliveredAs limits t e.2 w) : DeliveredAs limits t ⟨own, .entries es, marks⟩ w := by
  intro m hm hfits
  rw [h.toMsgpack_entries] at hm
  obtain ⟨ms, hms, rfl⟩ := Except.map_eq_ok_iff.mp hm
  cases hfits with
  | map hcount _ hfits =>
    refine ⟨fun depth d hd => ?_, fun hreadable depth hcost => ?_⟩
    · have hback := (Msgpack.wellFormed_toValue h.slot hd).1
      obtain ⟨fs, hcontent, hes⟩ := h.exists_entriesDelivered hw ih hms hfits
        (Msgpack.depth_le_of_toValue hd)
      obtain ⟨hreadable, gs, hgs, hmade⟩ := hes.read (hes.needed d hd)
      obtain rfl := Except.ok.inj (hd.symm.trans hmade)
      refine ⟨readable_of_parts rfl rfl (List.forall_mem_map.mpr hreadable),
        readIn_of_parts hback rfl rfl rfl fun x hx => ?_, (h.isUnknown_eq hw).symm,
        fun hencoded => ?_⟩
      · obtain ⟨g, hg, rfl⟩ := List.mem_map.mp hx
        obtain ⟨f, -, -, harrived⟩ := hgs.exists_of_mem_right hg
        exact ⟨_, harrived.readIn⟩
      · have hentries : (gs.map fun g => (g.1, g.2.rewritten)) =
            fs.map fun f => (f.1, f.2.readBack Json.echo (entrySlot t f.1)) := by
          refine ((hgs.imp_of_mem fun f _ g hg hfg => ?_).map_eq_map fun _ _ h => h).symm
          obtain ⟨hkey, harrived⟩ := hfg
          rw [← harrived.rewritten_eq (hencoded.of_mem_parts (List.mem_map_of_mem hg)), hkey]
        obtain ⟨own', content', marks'⟩ := w
        obtain rfl := hcontent
        rw [readBack_entries h.concrete, readBackEntries_eq_map, ← hentries, ofContent, rewritten,
          rewrittenEntries_eq_map, ofContent]
    · rw [Msgpack.cost] at hcost
      have hdepth : depth ≤ limits.maxDepth := by omega
      obtain ⟨fs, -, hes⟩ := h.exists_entriesDelivered hw ih hms hfits hdepth
      obtain ⟨fs', hdelivered⟩ := hes.each
      obtain ⟨-, gs, -, hmade⟩ := hes.read (ok_entriesToMembers hdelivered hms hfits
        (fun e he => hreadable.of_mem_parts (List.mem_map_of_mem he)) (by omega))
      exact ⟨_, hmade⟩

end Assignable

end Entries

/-! ### Whole values -/

/-- Whatever an assignable value is written as delivers what it converts to. -/
theorem Assignable.deliveredAs (hupper : limits.maxNumberExponent < Word.signedBound)
    (h : v.Assignable t) (hv : v.Deliverable) (hw : v.convertAt limits' depth' t = .ok w) :
    DeliveredAs limits t v w := by
  induction v using Value.induction generalizing t w depth' with
  | null => exact deliveredAs_of_null h.slot rfl (content_of_null hw)
  | unknown own r marks =>
    exact deliveredAs_of_unknown hupper h.slot h.wellFormed (hv.counted _ .self r rfl)
      (h.content_of_unknown hw)
  | bool | number | string =>
    obtain rfl := h.eq_of_leaf rfl (by simp [rank]) hw
    exact h.deliveredAs_of_scalar hupper (by simp [rank])
  | items own vs marks ih =>
    exact h.deliveredAs_items hupper hv.capsuleFree hw fun v hmem t w hvt hvw =>
      ih v hmem hvt (hv.of_mem_parts hmem) hvw
  | entries own es marks ih =>
    exact h.deliveredAs_entries hw fun e he t w het hew =>
      ih e he het (hv.of_mem_parts (List.mem_map_of_mem he)) hew
  | capsule own handle => exact absurd rfl (hv.capsuleFree _ .self handle)

end Value

end TypedData
