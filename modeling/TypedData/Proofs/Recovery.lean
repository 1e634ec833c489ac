import TypedData.Proofs.Containers
import TypedData.Proofs.Satisfaction
import TypedData.Proofs.Ty.AsText
import TypedData.Proofs.Value.Nesting
import TypedData.Proofs.Wire.WrittenOrder

/-!
# What texts of values are read back as

Values without members go by their texts: a number is read back in the form in which its text is
read, and anything else as it was. For containers, places pair members with their texts, and
readings pair what is given for these with what it is read back as. In a set the texts stand in
another order than the elements do; they are read back as elements in the order of these, if the
elements are in order in written form.

## Main definitions

* `Value.Renderable` — values of plain type within the limits
* `Value.Recovers` — what the text of a value is read back as
* `Value.Place`, `Value.TextReading` — members beside their texts, and what is read for these
* `Value.SetReadings` — readings for all the elements of a set

## Main results

* `Value.exists_recovers_null`, `Value.exists_recovers_scalar` — nulls and scalars are read back
* `Value.SetReadings.forall₂_same`, `Value.SetReadings.forall₂_identical` — the elements of a set
  are read back in their order
-/

namespace TypedData.Value

variable {limits : Limits} {depth : Nat} {own t u : Ty} {m : Marks} {v w w' x : Value}
  {vs : List Value} {es : Entries Value}

/-! ### Values within the limits -/

/-- A value of plain type, known at every depth, that is within the limits inside `depth`
containers. -/
structure Renderable (limits : Limits) (depth : Nat) (t : Ty) (v : Value) : Prop where
  wellFormed : v.WellFormed
  type : t.WellFormed
  plain : t.Plain
  sameType : v.ty.same t
  known : v.isWhollyKnown
  shallow : depth + v.depth ≤ limits.maxDepth
  within : ∀ s, v.Contains s → ∀ n, s.asNumber? = some n →
    n.withinExponent limits.maxNumberExponent

theorem depth_lt_of_mem_parts (hw : w ∈ parts v.content) : w.depth < v.depth := by
  obtain ⟨ty, content, m⟩ := v
  cases content with
  | items vs => exact depth_lt_depthInside hw
  | entries es =>
    obtain ⟨e, he, rfl⟩ := List.mem_map.mp hw
    exact depth_lt_depthInsideEntries he
  | null | unknown | bool | number | string | capsule => cases hw

namespace Renderable

theorem of_mem_parts (h : Renderable limits depth t v) (hw : w ∈ parts v.content)
    (hu : u ∈ t.parts) (hin : w.InSlot u) : Renderable limits (depth + 1) u w where
  wellFormed := h.wellFormed.of_mem_parts hw
  type := h.type.of_mem_parts hu
  plain := h.plain.of_mem_parts hu
  sameType := hin.same (h.plain.of_mem_parts hu).isDynamic_eq_false
  known := isWhollyKnown_of_mem_parts h.known hw
  shallow := by
    have hlt := depth_lt_of_mem_parts hw
    have hle := h.shallow
    omega
  within s hs := h.within s (.of_mem_parts hw hs)

/-- The elements of a renderable value are renderable in their places. -/
theorem exists_slots (h : Renderable limits depth t ⟨own, .items vs, m⟩) :
    ∃ ts, slots? t vs.length = some ts ∧
      List.Forall₂ (fun v u => Renderable limits (depth + 1) u v) vs ts := by
  obtain ⟨ts, hts, hin, -⟩ := h.wellFormed.exists_slots_of_same h.type h.sameType
  refine ⟨ts, hts, hin.imp_of_mem fun v hv u hu hvu => ?_⟩
  exact h.of_mem_parts hv (mem_parts_of_slots? hts hu) hvu

/-- So are its entries under their keys. -/
theorem exists_slotOf (h : Renderable limits depth t ⟨own, .entries es, m⟩)
    {e : String × Value} (he : e ∈ es) :
    ∃ u, slotOf? t e.1 = some u ∧ Renderable limits (depth + 1) u e.2 := by
  obtain ⟨u, hu, hin, -⟩ := h.wellFormed.exists_slotOf_of_same h.type h.sameType he
  exact ⟨u, hu, h.of_mem_parts (List.mem_map_of_mem he) (mem_parts_of_slotOf? hu) hin⟩

theorem depth_le (h : Renderable limits depth t v) : depth ≤ limits.maxDepth :=
  Nat.le_of_add_right_le h.shallow

/-! ### Where there is something to convert -/

theorem not_inSlot_asText (h : Renderable limits depth t v) (hne : ¬ v.ty.same t.asText) :
    ¬ v.InSlot t.asText := by
  rintro (hdynamic | hsame)
  · rw [Ty.isDynamic_asText, h.plain.isDynamic_eq_false] at hdynamic
    cases hdynamic
  · exact hne hsame

/-- A value that is not a text itself differs in type from its texts, so these have to be converted
back. -/
theorem not_inSlot_of_same_asText (h : Renderable limits depth t v) (hne : ¬ v.ty.same t.asText)
    (hw : w.WellFormed) (hty : w.ty.same t.asText) : ¬ w.InSlot t := by
  intro hin
  have htw := hw.type_wellFormed.same_symm h.type (hin.same h.plain.isDynamic_eq_false)
  exact hne (h.wellFormed.type_wellFormed.same_trans h.sameType (h.type.same_trans htw hty))

end Renderable

/-- Texts hold no numbers. -/
theorem WellFormed.written_of_asText (hv : v.WellFormed) (ht : t.WellFormed) (hplain : t.Plain)
    (hty : v.ty.same t.asText) : v.Written := by
  induction v using Value.induction_parts generalizing t with
  | step v ih =>
    refine written_of_asNumber? ?_ fun w hw => ?_
    · cases hv with
      | number => cases t <;> cases hty
      | _ => rfl
    · obtain ⟨u, hu, -, hin⟩ := hv.exists_slot_of_mem_parts ht.asText hty hw
      rw [Ty.parts_asText] at hu
      obtain ⟨u', hu', rfl⟩ := List.mem_map.mp hu
      have hplain' := hplain.of_mem_parts hu'
      refine ih w hw (hv.of_mem_parts hw) (ht.of_mem_parts hu') hplain' (hin.same ?_)
      rw [Ty.isDynamic_asText, hplain'.isDynamic_eq_false]

/-! ### What is read back -/

/-- A value whose sets stay in order when its numbers are rewritten, with lengths that can be
written. -/
structure Orderly (v : Value) : Prop where
  wellFormed : v.rewritten.WellFormed
  encoded : v.rewritten.EncodedInside

theorem Orderly.of_mem_parts (h : v.Orderly) (hw : w ∈ parts v.content) : w.Orderly where
  wellFormed := h.wellFormed.of_mem_parts (mem_parts_rewritten hw)
  encoded := h.encoded.of_mem_parts (mem_parts_rewritten hw)

/-- What is read back from something equal to the text of a value: its numbers are as they are read
from text, and it equals the value if that is orderly. -/
structure Recovered (v w w' x : Value) : Prop where
  written : x.Written
  same : v.Orderly → x.same v
  identical : v.Orderly → w'.identical w → x.identical v

/-- Whether a text is read back as a value, with whatever marks it has and whatever order of
attributes its types have. -/
def Recovers (limits : Limits) (depth : Nat) (t : Ty) (v w : Value) : Prop :=
  ∀ w' : Value, w'.WellFormed → w'.same w →
    ∃ x, w'.convertAt limits depth t = .ok x ∧ Recovered v w w' x

theorem Recovers.of_convertAt (h : Recovers limits depth t v w) (hw' : w'.WellFormed)
    (hsame : w'.same w) (hx : w'.convertAt limits depth t = .ok x) : Recovered v w w' x := by
  obtain ⟨y, hy, hrecovered⟩ := h w' hw' hsame
  exact Except.ok.inj (hx.symm.trans hy) ▸ hrecovered

/-! ### Values without members -/

/-- What is a text already stays as it is. -/
theorem recovers_of_same_asText (h : Renderable limits depth t v) (hsame : v.ty.same t.asText) :
    Recovers limits depth t v v := by
  intro w hw hwv
  have hty := hw.type_wellFormed.same_trans (same_iff.mp hwv).1 h.sameType
  have htext := hw.type_wellFormed.same_trans (same_iff.mp hwv).1 hsame
  exact ⟨w, convertAt_of_inSlot (.of_same hty), hw.written_of_asText h.type h.plain htext,
    fun _ => hwv, fun _ => id⟩

/-- So only what is not a text already is left to convert. -/
theorem exists_recovers_of_ne (h : Renderable limits depth t v)
    (hne : ¬ v.ty.same t.asText →
      ∃ w, v.convertAt limits depth t.asText = .ok w ∧ Recovers limits depth t v w) :
    ∃ w, v.convertAt limits depth t.asText = .ok w ∧ Recovers limits depth t v w := by
  by_cases hsame : v.ty.same t.asText
  · exact ⟨v, convertAt_of_inSlot (.of_same hsame), recovers_of_same_asText h hsame⟩
  · exact hne hsame

/-- Where the text is one of another type, it is given and read back in one of the ways of
conversion. -/
theorem exists_recovers_of_step (h : Renderable limits depth t v) (hne : ¬ v.ty.same t.asText)
    (hto : ConversionStep limits depth t.asText v w)
    (hfrom : ∀ w', w'.WellFormed → w'.same w →
      ∃ x, ConversionStep limits depth t w' x ∧ Recovered v w w' x) :
    ∃ w, v.convertAt limits depth t.asText = .ok w ∧ Recovers limits depth t v w := by
  have hconvert := convertAt_of_conversionStep hto (h.not_inSlot_asText hne) h.depth_le
  refine ⟨w, hconvert, fun w' hw' hsame => ?_⟩
  have hw := (h.wellFormed.convertAt h.type.asText hconvert).2
  have hty : w'.ty.same t.asText := by
    refine hw'.type_wellFormed.same_trans (same_iff.mp hsame).1 (hw.same ?_)
    rw [Ty.isDynamic_asText, h.plain.isDynamic_eq_false]
  obtain ⟨x, hx, hrecovered⟩ := hfrom w' hw' hsame
  exact ⟨x, convertAt_of_conversionStep hx (h.not_inSlot_of_same_asText hne hw' hty) h.depth_le,
    hrecovered⟩

/-- Nulls go by their types. -/
theorem exists_recovers_null (h : Renderable limits depth t ⟨own, .null, m⟩)
    (hne : ¬ own.same t.asText) : ∃ w, convertAt limits depth t.asText ⟨own, .null, m⟩ = .ok w ∧
      Recovers limits depth t ⟨own, .null, m⟩ w := by
  obtain ⟨hto, hfrom⟩ := h.type.convertible_asText
  have hown := h.wellFormed.type_wellFormed
  refine exists_recovers_of_step h hne (.retyped rfl
    (hown.convertible_of_same h.type h.type.asText h.sameType hto)) fun w' hw' hsame => ?_
  obtain ⟨hty, hcontent⟩ := same_iff.mp hsame
  obtain ⟨own', content, m'⟩ := w'
  cases content <;> first | cases hcontent; done | skip
  have hback : t.same own := hown.same_symm h.type h.sameType
  refine ⟨⟨t, .null, m'⟩, .retyped rfl
    (hw'.type_wellFormed.convertible_of_same h.type.asText h.type hty hfrom), ?_, ?_, ?_⟩
  · exact written_of_asNumber? rfl nofun
  · exact fun _ => same_iff.mpr ⟨hback, rfl⟩
  · exact fun _ hidentical => identical_iff.mpr ⟨hback, (identical_iff.mp hidentical).2.1, rfl⟩

/-- Scalars go by their text, if it is read as the same data. -/
theorem exists_recovers_scalar {c d : Content Value} {text : String}
    (h : Renderable limits depth t ⟨own, c, m⟩) (hne : ¬ own.same t.asText)
    (hto : convertScalar limits t.asText c = .ok (string text))
    (hfrom : convertScalar limits t (.string text) = .ok (ofContent t d))
    (hwritten : (ofContent t d).Written) (hsame : sameContent d c)
    (hidentical : identicalContent d c) :
    ∃ w, convertAt limits depth t.asText ⟨own, c, m⟩ = .ok w ∧
      Recovers limits depth t ⟨own, c, m⟩ w := by
  refine exists_recovers_of_step h hne (.scalar hto) fun w' _ hw => ?_
  have hcontent := (same_iff.mp hw).2
  obtain ⟨own', content, m'⟩ := w'
  cases content <;> first | cases hcontent | skip
  obtain rfl : _ = text := eq_of_beq hcontent
  have hback : t.same own := h.wellFormed.type_wellFormed.same_symm h.type h.sameType
  refine ⟨⟨t, d, m'⟩, withMarks_ofContent t d m' ▸ .scalar hfrom, ?_, ?_, ?_⟩
  · exact hwritten.of_sameData ⟨rfl, rfl⟩
  · exact fun _ => same_iff.mpr ⟨hback, hsame⟩
  · intro _ hw
    have hmarks := (identical_iff.mp hw).2.1
    rw [string, withMarks_ofContent] at hmarks
    exact identical_iff.mpr ⟨hback, hmarks, hidentical⟩

/-- Booleans are spelled out. -/
theorem exists_recovers_bool {b : Bool} (h : Renderable limits depth t ⟨own, .bool b, m⟩)
    (hne : ¬ own.same t.asText) : ∃ w, convertAt limits depth t.asText ⟨own, .bool b, m⟩ = .ok w ∧
      Recovers limits depth t ⟨own, .bool b, m⟩ w := by
  cases h.wellFormed
  obtain rfl := eq_of_same_of_isPrimitive rfl h.sameType
  refine exists_recovers_scalar (d := .bool b) h hne rfl ?_ (written_of_asNumber? rfl nofun)
    (beq_self_eq_true b) (beq_self_eq_true b)
  cases b <;> rfl

/-- The text of a number is read in written form. -/
theorem exists_recovers_number {n : Decimal} (h : Renderable limits depth t ⟨own, .number n, m⟩)
    (hlimit : limits.maxNumberExponent < Word.signedBound) (hne : ¬ own.same t.asText) :
    ∃ w, convertAt limits depth t.asText ⟨own, .number n, m⟩ = .ok w ∧
      Recovers limits depth t ⟨own, .number n, m⟩ w := by
  cases h.wellFormed
  obtain rfl := eq_of_same_of_isPrimitive rfl h.sameType
  have hread : convertScalar limits .number (.string n.plain) = .ok (.number n.written) := by
    rw [convertScalar, Decimal.ofText_plain (h.within _ .self n rfl) hlimit]
  refine exists_recovers_scalar (d := .number n.written) h hne rfl hread ?_ n.same_written
    n.same_written
  exact written_rewritten ⟨.number, .number n, .empty⟩

/-! ### Members beside their texts -/

/-- A member of a container beside the type of its place and its text. -/
structure Place where
  value : Value
  slot : Ty
  text : Value

/-- Something given for the text of a place, beside what it is read back as. -/
structure TextReading where
  place : Place
  given : Value
  result : Value

/-- A place within the limits whose member has a text that is read back. -/
structure Place.Sound (limits : Limits) (depth : Nat) (p : Place) : Prop where
  renderable : Renderable limits depth p.slot p.value
  converts : p.value.convertAt limits depth p.slot.asText = .ok p.text
  recovers : Recovers limits depth p.slot p.value p.text

/-- A reading of something that equals the text of its place. -/
structure TextReading.Sound (limits : Limits) (depth : Nat) (r : TextReading) : Prop where
  place : r.place.Sound limits depth
  wellFormed : r.given.WellFormed
  same : r.given.same r.place.text
  converts : r.given.convertAt limits depth r.place.slot = .ok r.result

variable {p q : Place} {r : TextReading} {ps : List Place} {rs : List TextReading} {ts : List Ty}
  {ws : List Value}

namespace Place.Sound

theorem text_wellFormed (h : p.Sound limits depth) : p.text.WellFormed :=
  (h.renderable.wellFormed.convertAt h.renderable.type.asText h.converts).1

theorem text_same (h : p.Sound limits depth) : p.text.same p.text :=
  same_refl h.text_wellFormed (isWhollyKnown_convertAt h.renderable.known h.converts)

end Place.Sound

namespace TextReading.Sound

theorem recovered (h : r.Sound limits depth) :
    Recovered r.place.value r.place.text r.given r.result :=
  h.place.recovers.of_convertAt h.wellFormed h.same h.converts

theorem result_wellFormed (h : r.Sound limits depth) :
    r.result.WellFormed ∧ r.result.InSlot r.place.slot :=
  h.wellFormed.convertAt h.place.renderable.type h.converts

theorem result_known (h : r.Sound limits depth) : r.result.isWhollyKnown :=
  isWhollyKnown_convertAt (isWhollyKnown_of_same h.same) h.converts

end TextReading.Sound

theorem exists_places (h : List.Forall₂ (fun v u => Renderable limits depth u v) vs ts)
    (ih : ∀ v ∈ vs, ∀ u, Renderable limits depth u v →
      ∃ w, v.convertAt limits depth u.asText = .ok w ∧ Recovers limits depth u v w) :
    ∃ ps : List Place, ps.map (·.value) = vs ∧ ps.map (·.slot) = ts ∧
      ∀ p ∈ ps, p.Sound limits depth := by
  refine List.Forall₂.exists_map_eq (h.imp_of_mem fun v hv u _ hvu => ?_)
  obtain ⟨w, hw, hrecovers⟩ := ih v hv u hvu
  exact ⟨⟨v, u, w⟩, rfl, rfl, hvu, hw, hrecovers⟩

theorem exists_readings (hps : ∀ p ∈ ps, p.Sound limits depth) (hws : ∀ w ∈ ws, w.WellFormed)
    (h : List.Forall₂ (fun w p => w.same p.text) ws ps) :
    ∃ rs : List TextReading, rs.map (·.given) = ws ∧ rs.map (·.place) = ps ∧
      ∀ r ∈ rs, r.Sound limits depth := by
  refine List.Forall₂.exists_map_eq (h.imp_of_mem fun w hw p hp hsame => ?_)
  obtain ⟨x, hx, -⟩ := (hps p hp).recovers w (hws w hw) hsame
  exact ⟨⟨p, w, x⟩, rfl, rfl, hps p hp, hws w hw, hsame, hx⟩

/-! ### Elements of sets -/

/-- Readings of the texts of orderly elements, arranged as the texts are. -/
structure SetReadings (limits : Limits) (depth : Nat) (u : Ty) (ps : List Place)
    (rs : List TextReading) : Prop where
  type : u.WellFormed
  plain : u.Plain
  places : ∀ p ∈ ps, p.Sound limits depth ∧ p.slot = u ∧ p.value.Orderly
  order : InSetOrder ((ps.map (·.value)).map rewritten)
  readings : ∀ r ∈ rs, r.Sound limits depth ∧ r.place ∈ ps
  arranged : List.Forall₂ (fun k r => SameData k r.place.text) (canonicalSet (ps.map (·.text))) rs

namespace SetReadings

variable (h : SetReadings limits depth u ps rs)
include h

theorem value_wellFormed (hp : p ∈ ps) : p.value.WellFormed :=
  (h.places p hp).1.renderable.wellFormed

theorem result_same (hr : r ∈ rs) : r.result.same r.place.value :=
  (h.readings r hr).1.recovered.same (h.places _ (h.readings r hr).2).2.2

/-- Rewritten elements can be compared by their data. -/
theorem writtenElement_value (hp : p ∈ ps) : p.value.rewritten.WrittenElement u := by
  obtain ⟨hsound, rfl, horderly⟩ := h.places p hp
  have hrender := hsound.renderable
  exact .of_rewritten horderly.wellFormed hrender.known (.of_same hrender.sameType)
    (horderly.encoded _ .self)

/-- So can what was read back. -/
theorem writtenElement_result (hr : r ∈ rs) : r.result.WrittenElement u := by
  obtain ⟨hsound, hmem⟩ := h.readings r hr
  obtain ⟨hwell, hin⟩ := hsound.result_wellFormed
  have hvalue := h.value_wellFormed hmem
  have hsame : r.result.same r.place.value.rewritten := same_trans hwell (h.result_same hr)
    (same_symm (h.writtenElement_value hmem).wellFormed hvalue
      (rewritten_same hvalue hsound.place.renderable.known))
  exact (h.writtenElement_value hmem).of_same h.type h.plain hwell ((h.places _ hmem).2.1 ▸ hin)
    hsound.recovered.written hsame

/-- What was given is read back as every element whose text it equals. -/
theorem recovered (hr : r ∈ rs) (hp : p ∈ ps) (hsame : r.given.same p.text) :
    Recovered p.value p.text r.given r.result := by
  obtain ⟨hread, hplace⟩ := h.readings r hr
  obtain ⟨hsound, hslot, -⟩ := h.places p hp
  refine hsound.recovers.of_convertAt hread.wellFormed hsame ?_
  rw [hslot, ← (h.places _ hplace).2.1]
  exact hread.converts

/-- The text of every element is among what was given. -/
theorem exists_given (hp : p ∈ ps) : ∃ r ∈ rs, r.given.same p.text := by
  have hsound := (h.places p hp).1
  obtain ⟨k, hk, hkp⟩ := exists_mem_canonicalSet_same (List.mem_map_of_mem (f := Place.text) hp)
  obtain ⟨r, hr, hdata⟩ := h.arranged.exists_of_mem_left hk
  have hread := (h.readings r hr).1
  have hpr : p.text.same r.place.text := by
    rcases hkp with hpk | hpk
    · exact ((SameData.refl p.text).beq_eq (hpk.trans hdata)).symm.trans hsound.text_same
    · exact ((SameData.refl p.text).beq_eq hdata).symm.trans hpk
  exact ⟨r, hr, same_trans hread.wellFormed hread.same
    (same_symm hsound.text_wellFormed hread.place.text_wellFormed hpr)⟩

/-- What is read back equals the elements place by place. -/
theorem forall₂_same :
    List.Forall₂ (fun x v => x.same v) (canonicalSet (rs.map (·.result))) (ps.map (·.value)) := by
  refine forall₂_canonicalSet_rewritten h.type h.plain h.order ?_ ?_ ?_ ?_ ?_ ?_ <;>
    rw [List.forall_mem_map]
  · exact fun p hp => h.writtenElement_value hp
  · exact fun p hp => h.value_wellFormed hp
  · exact fun p hp => (h.places p hp).1.renderable.known
  · exact fun r hr => h.writtenElement_result hr
  · exact fun r hr => ⟨_, List.mem_map_of_mem (h.readings r hr).2, h.result_same hr⟩
  · intro p hp
    obtain ⟨r, hr, hgiven⟩ := h.exists_given hp
    exact ⟨r.result, List.mem_map_of_mem hr, (h.recovered hr hp hgiven).same (h.places p hp).2.2⟩

/-- Elements differ from each other, both ways round. -/
theorem pairwise_values :
    ps.Pairwise fun p q => ¬ p.value.same q.value ∧ ¬ q.value.same p.value := by
  have hdiffer := h.order.pairwise_of_written h.type h.plain
    (List.forall_mem_map.mpr (List.forall_mem_map.mpr fun p hp => h.writtenElement_value hp))
  rw [List.pairwise_map, List.pairwise_map] at hdiffer
  refine hdiffer.imp_of_mem fun {p q} hp hq hne => ?_
  rw [same_rewritten] at hne
  exact ⟨hne, fun hsame => hne (same_symm (h.value_wellFormed hq) (h.value_wellFormed hp) hsame)⟩

/-- Equal elements stand in one place. -/
theorem eq_of_value_same (hp : p ∈ ps) (hq : q ∈ ps) (hsame : p.value.same q.value) : p = q := by
  by_contra hne
  have hsymm : Std.Symm fun p q : Place => ¬ p.value.same q.value ∧ ¬ q.value.same p.value :=
    ⟨fun _ _ h => h.symm⟩
  exact (h.pairwise_values.forall hp hq hne).1 hsame

/-- Elements with the same text are equal, since it is read back as either. -/
theorem value_same_of_text_same (hp : p ∈ ps) (hq : q ∈ ps) (hsame : p.text.same q.text) :
    p.value.same q.value := by
  obtain ⟨hsound, hslot, horderly⟩ := h.places p hp
  obtain ⟨hsound', hslot', horderly'⟩ := h.places q hq
  have htext := hsound.text_wellFormed
  obtain ⟨x, hx, hrecovered⟩ := hsound.recovers p.text htext hsound.text_same
  have hxp := hrecovered.same horderly
  have hxwell := (htext.convertAt hsound.renderable.type hx).1
  rw [hslot, ← hslot'] at hx
  have hxq := (hsound'.recovers.of_convertAt htext hsame hx).same horderly'
  exact same_trans (h.value_wellFormed hp) (same_symm hxwell (h.value_wellFormed hp) hxp) hxq

/-- So the texts differ from each other as well. -/
theorem pairwise_texts : ps.Pairwise fun p q => ¬ p.text.same q.text ∧ ¬ q.text.same p.text := by
  refine h.pairwise_values.imp_of_mem ?_
  rintro p q hp hq ⟨hne, hne'⟩
  exact ⟨fun hsame => hne (h.value_same_of_text_same hp hq hsame),
    fun hsame => hne' (h.value_same_of_text_same hq hp hsame)⟩

/-- No texts are merged. -/
theorem perm_texts : (canonicalSet (ps.map (·.text))).Perm (ps.map (·.text)) :=
  perm_canonicalSet (List.pairwise_map.mpr h.pairwise_texts)

/-- Results that are equal are read from one place. -/
theorem place_eq_of_result_same {r' : TextReading} (hr : r ∈ rs) (hr' : r' ∈ rs)
    (hsame : r.result.same r'.result) : r.place = r'.place := by
  obtain ⟨hread, hp⟩ := h.readings r hr
  have hvalue := h.value_wellFormed hp
  have hresult := hread.result_wellFormed.1
  refine h.eq_of_value_same hp (h.readings r' hr').2 ?_
  exact same_trans hvalue (same_symm hresult hvalue (h.result_same hr))
    (same_trans hresult hsame (h.result_same hr'))

/-- Nothing that is read back is merged. -/
theorem perm_results : (canonicalSet (rs.map (·.result))).Perm (rs.map (·.result)) := by
  have hdiffer : (canonicalSet (ps.map (·.text))).Pairwise fun k l => ¬ k.same l ∧ ¬ l.same k :=
    (List.pairwise_map.mpr h.pairwise_texts).perm h.perm_texts.symm fun h => h.symm
  refine perm_canonicalSet (List.pairwise_map.mpr (h.arranged.pairwise_of_mem hdiffer ?_))
  intro k _ l _ r hr r' hr' hk hl hne
  have hself := (h.readings r hr).1.place.text_same
  -- Texts of one place would not differ.
  refine ⟨fun hsame => hne.1 ?_, fun hsame => hne.2 ?_⟩
  · rw [← h.place_eq_of_result_same hr hr' hsame] at hl
    exact (hk.beq_eq hl).trans hself
  · rw [h.place_eq_of_result_same hr' hr hsame] at hl
    exact (hl.beq_eq hk).trans hself

/-- If what was given has the marks of the texts, then what is read back has those of the
elements. -/
theorem forall₂_identical (hgiven : List.Forall₂ (fun w k => w.identical k) (rs.map (·.given))
      (canonicalSet (ps.map (·.text)))) :
    List.Forall₂ (fun x v => x.identical v) (canonicalSet (rs.map (·.result)))
      (ps.map (·.value)) := by
  have hidentical : ∀ r ∈ rs, ∃ p ∈ ps, r.result.identical p.value := by
    intro r hr
    have hread := (h.readings r hr).1
    obtain ⟨k, hk, hrk⟩ := hgiven.exists_of_mem_left (List.mem_map_of_mem hr)
    obtain ⟨p, hp, rfl⟩ := List.mem_map.mp (h.perm_texts.mem_iff.mp hk)
    have hsame := same_of_isWhollyKnown (isWhollyKnown_of_same hread.same) hrk
    exact ⟨p, hp, (h.recovered hr hp hsame).identical (h.places p hp).2.2 hrk⟩
  refine h.forall₂_same.imp_of_mem fun x hx v hv hxv => ?_
  obtain ⟨r, hr, rfl⟩ := List.mem_map.mp (h.perm_results.mem_iff.mp hx)
  obtain ⟨q, hq, rfl⟩ := List.mem_map.mp hv
  obtain ⟨p, hp, hrp⟩ := hidentical r hr
  have hread := (h.readings r hr).1
  have hsame := same_of_isWhollyKnown hread.result_known hrp
  have hpq : p = q := h.eq_of_value_same hp hq (same_trans (h.value_wellFormed hp)
    (same_symm hread.result_wellFormed.1 (h.value_wellFormed hp) hsame) hxv)
  exact hpq ▸ hrp

end SetReadings

end TypedData.Value
