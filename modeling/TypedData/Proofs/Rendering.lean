import TypedData.Proofs.Acceptance
import TypedData.Proofs.Recovery

/-!
# Values as texts and back

A value converts to texts at every depth, and its texts convert back. Numbers come back in the form
in which they are read from text, so sets are put in order by that form. What comes back is the
value itself exactly if its sets are in order in that form too.

## Main definitions

* `Value.Arranged` — readings of the texts of elements in the order that their container keeps

## Main results

* `Value.exists_recovers` — every value within the limits has a text, which is read back
* `Value.convert_asText_and_back` — values convert to texts and back
-/

namespace TypedData.Value

variable {limits : Limits} {depth : Nat} {own t u : Ty} {m : Marks} {v w w' x : Value}
  {vs ws : List Value} {es : Entries Value} {ts : List Ty} {p q : Place} {r : TextReading}
  {ps : List Place} {rs : List TextReading}

/-! ### Lists, sets and tuples -/

/-- Readings of the texts of elements, in the order that their container keeps. -/
structure Arranged (limits : Limits) (depth : Nat) (t : Ty) (ps : List Place)
    (rs : List TextReading) : Prop where
  places : ∀ p ∈ ps, p.Sound limits depth
  slots : slots? t ps.length = some (ps.map (·.slot))
  readings : ∀ r ∈ rs, r.Sound limits depth ∧ r.place ∈ ps
  arranged : List.Forall₂ (fun k r => SameData k r.place.text) (inOrder t (ps.map (·.text))) rs
  readSlots : slots? t rs.length = some (rs.map (·.place.slot))
  kept : t.isSet = false → rs.map (·.place) = ps

theorem inOrder_of_isSet (ht : t.isSet) (vs : List Value) : inOrder t vs = canonicalSet vs :=
  if_pos ht

theorem inOrder_of_not_isSet (ht : t.isSet = false) (vs : List Value) : inOrder t vs = vs :=
  if_neg (Bool.eq_false_iff.mp ht)

@[simp] theorem inOrder_asText (t : Ty) (vs : List Value) : inOrder t.asText vs = inOrder t vs := by
  rw [inOrder, inOrder, Ty.isSet_asText]

/-- The texts in the order that their container keeps are those of places of the same types. -/
theorem exists_arranged (hts : slots? t ps.length = some (ps.map (·.slot))) :
    ∃ qs : List Place, (∀ q ∈ qs, q ∈ ps) ∧
      List.Forall₂ (fun k q => SameData k q.text) (inOrder t (ps.map (·.text))) qs ∧
        slots? t qs.length = some (qs.map (·.slot)) ∧ (t.isSet = false → qs = ps) := by
  by_cases hset : t.isSet
  · cases t <;> cases hset
    rename_i u
    have hslots : ∀ p ∈ ps, p.slot = u := by
      intro p hp
      rw [slots?, Option.some.injEq] at hts
      exact List.eq_of_mem_replicate (hts ▸ List.mem_map_of_mem hp)
    -- Elements of a set all have one type, so the texts that are kept go with any of the places.
    have heach : List.Forall₂ (fun k l => ∃ c : Value × Place, c.1 = k ∧ c.1 = l ∧ c.2 ∈ ps ∧
        SameData c.1 c.2.text) (canonicalSet (ps.map (·.text)))
        (canonicalSet (ps.map (·.text))) := by
      refine List.forall₂_same.mpr fun k hk => ?_
      obtain ⟨w, hw, hdata⟩ := exists_of_mem_canonicalSet hk
      obtain ⟨q, hq, rfl⟩ := List.mem_map.mp hw
      exact ⟨(k, q), rfl, rfl, hq, hdata⟩
    obtain ⟨cs, hcs, -, hmem⟩ := heach.exists_map_eq
    refine ⟨cs.map (·.2), List.forall_mem_map.mpr fun c hc => (hmem c hc).1, ?_, ?_, ?_⟩
    · rw [inOrder_of_isSet rfl, ← hcs, List.forall₂_map_left_iff, List.forall₂_map_right_iff,
        List.forall₂_same]
      exact fun c hc => (hmem c hc).2
    · rw [slots?, Option.some.injEq, eq_comm, List.eq_replicate_iff, List.map_map]
      exact ⟨by simp, List.forall_mem_map.mpr fun c hc => hslots _ (hmem c hc).1⟩
    · rintro ⟨⟩
  · refine ⟨ps, fun _ => id, ?_, hts, fun _ => rfl⟩
    rw [inOrder_of_not_isSet (by simpa using hset), List.forall₂_map_left_iff, List.forall₂_same]
    exact fun p _ => .refl p.text

namespace Arranged

variable (h : Arranged limits depth t ps rs) (ht : t.WellFormed) (hplain : t.Plain)
  (hty : own.same t) (horderly : Orderly ⟨own, .items (ps.map (·.value)), m⟩)
include h

/-- What is read back is in written form. -/
theorem written : Written ⟨t, .items (inOrder t (rs.map (·.result))), m⟩ := by
  refine written_of_asNumber? rfl fun x hx => ?_
  obtain ⟨y, hy, hdata⟩ := exists_of_mem_inOrder hx
  obtain ⟨r, hr, rfl⟩ := List.mem_map.mp hy
  exact (h.readings r hr).1.recovered.written.of_sameData hdata

include ht hplain hty horderly

/-- In a set, these are readings of the texts of its elements. -/
theorem setReadings (hset : t = .set u) : SetReadings limits depth u ps rs where
  type := ht.of_mem_parts (hset ▸ List.mem_singleton_self u)
  plain := hplain.of_mem_parts (hset ▸ List.mem_singleton_self u)
  places p hp := by
    have hslots := h.slots
    rw [hset, slots?, Option.some.injEq] at hslots
    exact ⟨h.places p hp, List.eq_of_mem_replicate (hslots ▸ List.mem_map_of_mem hp),
      horderly.of_mem_parts (List.mem_map_of_mem hp)⟩
  order := by
    have hwell := horderly.wellFormed
    rw [rewritten, rewrittenEach_eq_map] at hwell
    subst hset
    cases hwell with
    | set _ _ _ _ order => exact order
    | list | tuple => cases hty
  readings := h.readings
  arranged := by
    have harranged := h.arranged
    rwa [inOrder_of_isSet (by rw [hset, Ty.isSet])] at harranged

/-- What is read back of an orderly container equals its elements place by place. -/
theorem forall₂_same : List.Forall₂ (fun x v => x.same v) (inOrder t (rs.map (·.result)))
    (ps.map (·.value)) := by
  cases hset : t.isSet with
  | true =>
    cases t <;> cases hset
    exact (h.setReadings ht hplain hty horderly rfl).forall₂_same
  | false =>
    rw [inOrder_of_not_isSet hset, ← h.kept hset, List.map_map, List.forall₂_map_left_iff,
      List.forall₂_map_right_iff, List.forall₂_same]
    exact fun r hr => (h.readings r hr).1.recovered.same
      (horderly.of_mem_parts (List.mem_map_of_mem (h.readings r hr).2))

/-- It is identical to them if what was given is identical to the texts. -/
theorem forall₂_identical (hgiven : List.Forall₂ (fun w k => w.identical k) (rs.map (·.given))
      (inOrder t (ps.map (·.text)))) :
    List.Forall₂ (fun x v => x.identical v) (inOrder t (rs.map (·.result)))
      (ps.map (·.value)) := by
  cases hset : t.isSet with
  | true =>
    cases t <;> cases hset
    exact (h.setReadings ht hplain hty horderly rfl).forall₂_identical hgiven
  | false =>
    rw [inOrder_of_not_isSet hset, ← h.kept hset, List.map_map, List.forall₂_map_left_iff,
      List.forall₂_map_right_iff, List.forall₂_same] at hgiven ⊢
    exact fun r hr => (h.readings r hr).1.recovered.identical
      (horderly.of_mem_parts (List.mem_map_of_mem (h.readings r hr).2)) (hgiven r hr)

end Arranged

/-- The texts of the elements, in the order that the container keeps, are its text. -/
theorem conversionStep_texts (h : Renderable limits depth t ⟨own, .items (ps.map (·.value)), m⟩)
    (hts : slots? t ps.length = some (ps.map (·.slot)))
    (hps : ∀ p ∈ ps, p.Sound limits (depth + 1)) :
    ConversionStep limits depth t.asText ⟨own, .items (ps.map (·.value)), m⟩
      ⟨t.asText, .items (inOrder t (ps.map (·.text))), m⟩ := by
  have hslots : slots? t.asText ps.length = some (ps.map (·.slot.asText)) := by
    rw [slots?_asText, hts, Option.map_some, List.map_map]
    rfl
  rw [← inOrder_asText]
  exact conversionStep_items h.wellFormed.isSequence hslots (fun p hp => (hps p hp).converts)
    fun p hp => isWhollyKnown_of_same (hps p hp).text_same

/-- Whatever equals these texts is read in the same order. -/
theorem exists_arranged_readings (hts : slots? t ps.length = some (ps.map (·.slot)))
    (hps : ∀ p ∈ ps, p.Sound limits depth) (hws : ∀ w ∈ ws, w.WellFormed)
    (h : List.Forall₂ (fun w k => w.same k) ws (inOrder t (ps.map (·.text)))) :
    ∃ rs : List TextReading, rs.map (·.given) = ws ∧ Arranged limits depth t ps rs := by
  obtain ⟨qs, hqs, harranged, hreadSlots, hkept⟩ := exists_arranged hts
  have hgiven : List.Forall₂ (fun w q => w.same q.text) ws qs :=
    h.trans_of_mem harranged fun w _ k _ q hwk hkq =>
      ((SameData.refl w).beq_eq hkq).symm.trans hwk
  obtain ⟨rs, rfl, rfl, hrs⟩ := exists_readings (fun q hq => hps q (hqs q hq)) hws hgiven
  rw [List.forall₂_map_right_iff] at harranged
  rw [List.length_map, List.map_map] at hreadSlots
  exact ⟨rs, rfl, hps, hts, fun r hr => ⟨hrs r hr, hqs _ (List.mem_map_of_mem hr)⟩, harranged,
    hreadSlots, hkept⟩

/-- Elements convert one by one. -/
theorem exists_recovers_items (h : Renderable limits depth t ⟨own, .items vs, m⟩)
    (hne : ¬ own.same t.asText)
    (ih : ∀ v ∈ vs, ∀ u, Renderable limits (depth + 1) u v →
      ∃ w, v.convertAt limits (depth + 1) u.asText = .ok w ∧ Recovers limits (depth + 1) u v w) :
    ∃ w, convertAt limits depth t.asText ⟨own, .items vs, m⟩ = .ok w ∧
      Recovers limits depth t ⟨own, .items vs, m⟩ w := by
  obtain ⟨ts, hts, heach⟩ := h.exists_slots
  obtain ⟨ps, rfl, rfl, hps⟩ := exists_places heach ih
  rw [List.length_map] at hts
  refine exists_recovers_of_step h hne (conversionStep_texts h hts hps) fun w' hw' hsame => ?_
  -- What equals the text has as many elements, each with the data of the text at its place.
  obtain ⟨-, hcontent⟩ := same_iff.mp hsame
  obtain ⟨own', content, m'⟩ := w'
  cases content <;> first | cases hcontent | skip
  obtain ⟨rs, rfl, hrs⟩ := exists_arranged_readings hts hps (fun w hw => hw'.of_mem_items hw)
    (sameEach_iff.mp hcontent)
  refine ⟨_, conversionStep_items hw'.isSequence hrs.readSlots
    (fun r hr => (hrs.readings r hr).1.converts) fun r hr => (hrs.readings r hr).1.result_known,
    hrs.written, fun horderly => ?_,
    fun horderly hw => ?_⟩
  · exact same_iff.mpr ⟨h.wellFormed.type_wellFormed.same_symm h.type h.sameType,
      sameEach_iff.mpr (hrs.forall₂_same h.type h.plain h.sameType horderly)⟩
  · obtain ⟨-, hmarks, hidentical⟩ := identical_iff.mp hw
    exact identical_iff.mpr ⟨h.wellFormed.type_wellFormed.same_symm h.type h.sameType, hmarks,
      identicalEach_iff.mpr (hrs.forall₂_identical h.type h.plain h.sameType horderly
        (identicalEach_iff.mp hidentical))⟩

/-! ### Maps and objects -/

/-- Texts stand under the same keys. -/
theorem keyed_asText_iff : Keyed own es t.asText ↔ Keyed own es t := by
  cases t with
  | map t => exact iff_of_true .map .map
  | object attrs =>
    have hnames : Attr.sortedNames (Ty.asTextAttrs attrs) = Attr.sortedNames attrs := by
      rw [Attr.sortedNames, Attr.sortedNames, Ty.names_asTextAttrs]
    constructor
    · rintro ⟨⟩
      rename_i source keys
      exact .object source (keys.trans hnames)
    · rintro ⟨⟩
      rename_i source keys
      exact .object source (keys.trans hnames.symm)
  | _ => constructor <;> rintro ⟨⟩

/-- The entries of a renderable value as places under their keys. -/
theorem exists_keyed_places (h : Renderable limits depth t ⟨own, .entries es, m⟩)
    (ih : ∀ e ∈ es, ∀ u, Renderable limits (depth + 1) u e.2 →
      ∃ w, e.2.convertAt limits (depth + 1) u.asText = .ok w ∧
        Recovers limits (depth + 1) u e.2 w) :
    ∃ ps : List (String × Place), ps.map (fun p => (p.1, p.2.value)) = es ∧
      ∀ p ∈ ps, slotOf? t p.1 = some p.2.slot ∧ p.2.Sound limits (depth + 1) := by
  have heach : List.Forall₂ (fun e f => ∃ p : String × Place, (p.1, p.2.value) = e ∧
      (p.1, p.2.value) = f ∧ slotOf? t p.1 = some p.2.slot ∧ p.2.Sound limits (depth + 1))
      es es := by
    refine List.forall₂_same.mpr fun e he => ?_
    obtain ⟨u, hu, hrender⟩ := h.exists_slotOf he
    obtain ⟨w, hw, hrecovers⟩ := ih e he u hrender
    exact ⟨(e.1, ⟨e.2, u, w⟩), rfl, rfl, hu, hrender, hw, hrecovers⟩
  obtain ⟨ps, hes, -, hps⟩ := heach.exists_map_eq
  exact ⟨ps, hes, hps⟩

/-- Whatever equals their texts is read under the same keys. -/
theorem exists_keyed_readings {gs : Entries Value} {ps : List (String × Place)}
    (hps : ∀ p ∈ ps, p.2.Sound limits depth) (hgs : ∀ g ∈ gs, g.2.WellFormed)
    (h : List.Forall₂ (fun g p => g.1 = p.1 ∧ g.2.same p.2.text) gs ps) :
    ∃ rs : List (String × TextReading), rs.map (fun r => (r.1, r.2.given)) = gs ∧
      rs.map (fun r => (r.1, r.2.place)) = ps ∧ ∀ r ∈ rs, r.2.Sound limits depth := by
  refine List.Forall₂.exists_map_eq (h.imp_of_mem fun g hg p hp hgp => ?_)
  obtain ⟨hkey, hsame⟩ := hgp
  obtain ⟨x, hx, -⟩ := (hps p hp).recovers g.2 (hgs g hg) hsame
  exact ⟨(g.1, ⟨p.2, g.2, x⟩), rfl, Prod.ext hkey rfl, hps p hp, hgs g hg, hsame, hx⟩

/-- Entries convert key by key. -/
theorem exists_recovers_entries (h : Renderable limits depth t ⟨own, .entries es, m⟩)
    (hne : ¬ own.same t.asText)
    (ih : ∀ e ∈ es, ∀ u, Renderable limits (depth + 1) u e.2 →
      ∃ w, e.2.convertAt limits (depth + 1) u.asText = .ok w ∧
        Recovers limits (depth + 1) u e.2 w) :
    ∃ w, convertAt limits depth t.asText ⟨own, .entries es, m⟩ = .ok w ∧
      Recovers limits depth t ⟨own, .entries es, m⟩ w := by
  obtain ⟨ps, rfl, hps⟩ := exists_keyed_places h ih
  have hto : ConversionStep limits depth t.asText
      ⟨own, .entries (ps.map fun p => (p.1, p.2.value)), m⟩
      ⟨t.asText, .entries (ps.map fun p => (p.1, p.2.text)), m⟩ := by
    refine conversionStep_entries (keyed_asText_iff.mpr (h.wellFormed.keyed h.type h.sameType))
      h.type.asText (fun p hp => ⟨?_, (hps p hp).2.converts⟩)
      fun p hp => isWhollyKnown_of_same (hps p hp).2.text_same
    rw [slotOf?_asText, (hps p hp).1, Option.map_some]
  -- Whatever equals the texts is read back entry by entry.
  refine exists_recovers_of_step h hne hto fun w' hw' hsame => ?_
  obtain ⟨hty, hcontent⟩ := same_iff.mp hsame
  obtain ⟨own', content, m'⟩ := w'
  cases content <;> first | cases hcontent | skip
  obtain ⟨rs, rfl, rfl, hrs⟩ := exists_keyed_readings (fun p hp => (hps p hp).2)
    (fun g hg => hw'.of_mem_entries hg)
    (List.forall₂_map_right_iff.mp (sameEntries_iff.mp hcontent))
  have hfrom : ConversionStep limits depth t
      ⟨own', .entries (rs.map fun r => (r.1, r.2.given)), m'⟩
      ⟨t, .entries (rs.map fun r => (r.1, r.2.result)), m'⟩ :=
    conversionStep_entries (keyed_asText_iff.mp (hw'.keyed h.type.asText hty)) h.type
      (fun r hr => ⟨(hps _ (List.mem_map_of_mem hr)).1, (hrs r hr).converts⟩)
      fun r hr => (hrs r hr).result_known
  have hback : t.same own := h.wellFormed.type_wellFormed.same_symm h.type h.sameType
  refine ⟨_, hfrom, written_of_asNumber? rfl fun x hx => ?_, fun horderly => ?_,
    fun horderly hw => ?_⟩
  · obtain ⟨e, he, rfl⟩ := List.mem_map.mp hx
    obtain ⟨r, hr, rfl⟩ := List.mem_map.mp he
    exact (hrs r hr).recovered.written
  all_goals
    have hmember : ∀ r ∈ rs, r.2.place.value.Orderly := fun r hr =>
      horderly.of_mem_parts (List.mem_map_of_mem (List.mem_map_of_mem (List.mem_map_of_mem hr)))
  · refine same_iff.mpr ⟨hback, sameEntries_iff.mpr ?_⟩
    rw [List.forall₂_map_left_iff, List.forall₂_map_right_iff, List.forall₂_map_right_iff,
      List.forall₂_same]
    exact fun r hr => ⟨rfl, (hrs r hr).recovered.same (hmember r hr)⟩
  · obtain ⟨-, hmarks, hidentical⟩ := identical_iff.mp hw
    refine identical_iff.mpr ⟨hback, hmarks, identicalEntries_iff.mpr ?_⟩
    replace hidentical := identicalEntries_iff.mp hidentical
    rw [List.forall₂_map_left_iff, List.forall₂_map_right_iff, List.forall₂_map_right_iff,
      List.forall₂_same] at hidentical ⊢
    exact fun r hr => ⟨rfl, (hrs r hr).recovered.identical (hmember r hr) (hidentical r hr).2⟩

/-! ### Values -/

/-- Every value within the limits has a text, which is read back as the value. -/
theorem exists_recovers (h : Renderable limits depth t v)
    (hlimit : limits.maxNumberExponent < Word.signedBound) :
    ∃ w, v.convertAt limits depth t.asText = .ok w ∧ Recovers limits depth t v w := by
  -- `Recovers` speaks of everything that equals the text, because a set passes on texts that merely
  -- equal those of its elements.
  induction v using Value.induction generalizing depth t with
  | null => exact exists_recovers_of_ne h (exists_recovers_null h)
  | unknown => cases h.known
  | bool => exact exists_recovers_of_ne h (exists_recovers_bool h)
  | number => exact exists_recovers_of_ne h (exists_recovers_number h hlimit)
  | string =>
    refine exists_recovers_of_ne h fun hne => absurd ?_ hne
    cases h.wellFormed
    obtain rfl := eq_of_same_of_isPrimitive rfl h.sameType
    rfl
  | items own vs m ih =>
    exact exists_recovers_of_ne h fun hne =>
      exists_recovers_items h hne fun v hv u hu => ih v hv hu
  | entries own es m ih =>
    exact exists_recovers_of_ne h fun hne =>
      exists_recovers_entries h hne fun e he u hu => ih e he hu
  | capsule own handle m =>
    have hplain := h.plain.of_same h.wellFormed.type_wellFormed h.type h.sameType
    cases h.wellFormed
    cases hplain.noCapsule

/-- A value that is known at every depth and within the limits converts to texts, and these convert
back. If all lengths inside can be written, then what comes back is the value itself, its marks
included, exactly if its sets are in order when their numbers are in the form in which they are read
from text. They are if the numbers inside elements of sets are encoded alike in that form. -/
theorem convert_asText_and_back (ht : t.WellFormed) (hplain : t.Plain) (hv : v.WellFormed)
    (hty : v.ty.same t) (hknown : v.isWhollyKnown) (hdepth : v.depth ≤ limits.maxDepth)
    (hwithin : ∀ s, v.Contains s → ∀ n, s.asNumber? = some n →
      n.withinExponent limits.maxNumberExponent)
    (hlimit : limits.maxNumberExponent < Word.signedBound) :
    ∃ w x, v.convert limits t.asText = .ok w ∧ w.convert limits t = .ok x ∧
      (v.rewritten.EncodedInside → (x.identical v ↔ v.rewritten.WellFormed)) ∧
      (v.Settled Json.echo → v.rewritten.WellFormed) := by
  have h : Renderable limits 0 t v :=
    ⟨hv, ht, hplain, hty, hknown, by rwa [Nat.zero_add], hwithin⟩
  obtain ⟨w, hw, hrecovers⟩ := exists_recovers h hlimit
  have hwwell := (hv.convertAt ht.asText hw).1
  have hwknown := isWhollyKnown_convertAt hknown hw
  obtain ⟨x, hx, hrecovered⟩ := hrecovers w hwwell (same_refl hwwell hwknown)
  refine ⟨w, x, hw, hx, fun hencoded => ⟨fun hidentical => ?_, fun hwell => ?_⟩, ?_⟩
  · exact hv.rewritten_of_same (hplain.of_same hv.type_wellFormed ht hty) hencoded
      (hwwell.convertAt ht hx).1 hrecovered.written
      (same_of_isWhollyKnown (isWhollyKnown_convertAt hwknown hx) hidentical)
  · exact hrecovered.identical ⟨hwell, hencoded⟩ hwwell.identical_refl
  · exact hv.rewritten_of_settled

/-! ### Lengths that can be written -/

theorem encodedInside_number {n : Decimal}
    (h : (Text.Utf8.ofString n.plain).length < 0x100000000) :
    EncodedInside ⟨.number, .number n, m⟩ :=
  encodedInside_iff.mpr ⟨⟨.ofNumber n, rfl, Msgpack.fits_ofNumber h⟩, nofun⟩

/-! ### A set that keeps its order -/

/-- Two numbers, one of them marked, whose texts are in the other order. -/
def prices : Value :=
  ⟨.set .number, .items [number ⟨250, 2⟩, (number ⟨10, 0⟩).mark "x"], .empty⟩

theorem wellFormed_prices : prices.WellFormed :=
  .set .number (List.forall_mem_pair.mpr ⟨.number, .number⟩)
    (List.forall_mem_pair.mpr ⟨.of_same rfl, .of_same rfl⟩) (by decide)
    ⟨by decide +kernel, by decide +kernel⟩

/-- Nothing stands inside its elements. -/
theorem parts_of_mem_prices : ∀ e ∈ parts prices.content, parts e.content = [] :=
  List.forall_mem_pair.mpr ⟨rfl, rfl⟩

theorem eq_of_contains_prices {w : Value} (h : prices.Contains w) :
    w = prices ∨ w ∈ parts prices.content := by
  rcases h.eq_or_exists with rfl | ⟨x, hx, h⟩
  · exact .inl rfl
  · rcases h.eq_or_exists with rfl | ⟨y, hy, -⟩
    · exact .inr hx
    · rw [parts_of_mem_prices x hx] at hy
      cases hy

/-- Its numbers are within the limits of the converter. -/
theorem within_prices {w : Value} (h : prices.Contains w) {n : Decimal}
    (hn : w.asNumber? = some n) : n.withinExponent 4096 := by
  have hall : ∀ e ∈ parts prices.content, ∀ n ∈ e.asNumber?, n.withinExponent 4096 := by decide
  rcases eq_of_contains_prices h with rfl | hw
  · cases hn
  · exact hall w hw n hn

/-- It holds no elements inside which there are numbers. -/
theorem settled_prices : prices.Settled Json.echo := by
  intro s hs _ e he x hx
  rcases eq_of_contains_prices hs with rfl | hs
  · rw [parts_of_mem_prices e he] at hx
    cases hx
  · rw [parts_of_mem_prices s hs] at he
    cases he

theorem encodedInside_prices : prices.rewritten.EncodedInside := by
  have hwritten : prices.rewritten = ⟨.set .number,
      .items [number (Decimal.written ⟨250, 2⟩), (number (Decimal.written ⟨10, 0⟩)).mark "x"],
      .empty⟩ := rfl
  have hsmall : Decimal.written ⟨250, 2⟩ = ⟨25, 1⟩ := by decide +kernel
  have hlarge : Decimal.written ⟨10, 0⟩ = ⟨10, 0⟩ := by decide +kernel
  have hlength : (Text.Utf8.ofString (Decimal.plain ⟨25, 1⟩)).length < 0x100000000 ∧
      (Text.Utf8.ofString (Decimal.plain ⟨10, 0⟩)).length < 0x100000000 := by decide +kernel
  rw [hwritten, hsmall, hlarge]
  refine encodedInside_iff.mpr ⟨⟨.array [_, _], rfl, .array (by decide) ?_⟩, ?_⟩ <;>
    refine List.forall_mem_pair.mpr ?_
  · exact ⟨Msgpack.fits_ofNumber hlength.1, Msgpack.fits_ofNumber hlength.2⟩
  · exact ⟨encodedInside_number hlength.1, encodedInside_number hlength.2⟩

/-- The texts of the numbers stand in another order, and the numbers come back in theirs. -/
theorem convert_asText_and_back_prices :
    prices.WellFormed ∧ ∃ w x, prices.convert .default prices.ty.asText = .ok w ∧
      w.convert .default prices.ty = .ok x ∧ x.identical prices := by
  have hwell := wellFormed_prices
  obtain ⟨w, x, hw, hx, hback, hordered⟩ := @convert_asText_and_back .default _ _
    hwell.type_wellFormed ⟨rfl, rfl⟩ hwell (by decide) (by decide) (by decide)
    (fun w hw n hn => within_prices hw hn) (by decide)
  exact ⟨hwell, w, x, hw, hx, (hback encodedInside_prices).mpr (hordered settled_prices)⟩

/-! ### A set that does not keep its order -/

theorem encodedInside_single {n : Decimal}
    (h : (Text.Utf8.ofString n.plain).length < 0x100000000) : (single n).EncodedInside := by
  refine encodedInside_iff.mpr ⟨encoded_single h, fun w hw => ?_⟩
  obtain rfl := List.mem_singleton.mp hw
  exact encodedInside_number h

/-- In the form in which it is read from text, its second number is a double. -/
theorem rewritten_exampleTurned : exampleTurned.rewritten =
    ⟨.set (.tuple [.number]), .items [single ⟨5000000000, 0⟩, single longWhole], .empty⟩ := by
  have hwritten : exampleTurned.rewritten = ⟨.set (.tuple [.number]),
      .items [single (Decimal.written ⟨5000000000, 0⟩), single longDouble.written], .empty⟩ := rfl
  have hsmall : Decimal.written ⟨5000000000, 0⟩ = ⟨5000000000, 0⟩ := by decide +kernel
  have hlong : longDouble.written = longWhole := by decide +kernel
  rw [hwritten, hsmall, hlong]

theorem encodedInside_exampleTurned : exampleTurned.rewritten.EncodedInside := by
  have hlength : (Text.Utf8.ofString (Decimal.plain ⟨5000000000, 0⟩)).length < 0x100000000 ∧
      (Text.Utf8.ofString longWhole.plain).length < 0x100000000 := by decide +kernel
  have hfits {n : Decimal} (h : (Text.Utf8.ofString n.plain).length < 0x100000000) :
      (Msgpack.array [.ofNumber n]).Fits :=
    .array (show 1 < 0x100000000 by decide)
      (List.forall_mem_singleton.mpr (Msgpack.fits_ofNumber h))
  rw [rewritten_exampleTurned]
  refine encodedInside_iff.mpr ⟨⟨.array [_, _], rfl, .array (by decide) ?_⟩, ?_⟩ <;>
    refine List.forall_mem_pair.mpr ?_
  · exact ⟨hfits hlength.1, hfits hlength.2⟩
  · exact ⟨encodedInside_single hlength.1, encodedInside_single hlength.2⟩

/-- A double is encoded with a smaller first byte than a large integer. -/
theorem not_wellFormed_rewritten_exampleTurned : ¬ exampleTurned.rewritten.WellFormed := by
  have hgt : ¬ ((single ⟨5000000000, 0⟩).compare (single longWhole)).isLE := by decide +kernel
  rw [rewritten_exampleTurned]
  intro hwell
  cases hwell with
  | set _ _ _ _ order =>
    exact hgt (List.rel_of_pairwise_cons order.ordered (List.mem_singleton_self _))

/-- A set of tuples comes back from its texts in another order. -/
theorem convert_asText_and_back_exampleTurned :
    exampleTurned.Reachable ∧ ∃ w x,
      exampleTurned.convert .default exampleTurned.ty.asText = .ok w ∧
      w.convert .default exampleTurned.ty = .ok x ∧ x.identical exampleTurned = false := by
  have hwell := reachable_exampleTurned.wellFormed
  obtain ⟨w, x, hw, hx, hback, -⟩ := @convert_asText_and_back .default _ _
    hwell.type_wellFormed plain_exampleTurned hwell (by decide) (by decide) (by decide)
    (fun w hw n hn => within_exampleTurned hw hn) (by decide)
  refine ⟨reachable_exampleTurned, w, x, hw, hx, ?_⟩
  rw [Bool.eq_false_iff, Ne, hback encodedInside_exampleTurned]
  exact not_wellFormed_rewritten_exampleTurned

end TypedData.Value
