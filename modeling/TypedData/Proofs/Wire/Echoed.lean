import TypedData.Proofs.Wire.JsonWritten
import TypedData.Proofs.Wire.MsgpackWritten

/-!
# Reading what was written

A value need not be one that can be sent: the form of a number may be beyond the limits, although
the form that is read is not. Still, whatever is read from what a value was written as is what
comes back of the value.

## Main definitions

* `Value.Echoed` — what came back of a value, with all types beside values read
* `Value.RefinementsReturn` — whether what comes back of refinements can be written

## Main results

* `Json.echoes` — what is read from JSON is what comes back of the value
* `Msgpack.echoes` — so is what is read from MessagePack
-/

namespace TypedData

namespace Value

variable {c : Wire.Echo} {limit : Nat} {v w : Value} {vs ws : List Value} {es : Entries Value}
  {slot t u : Ty} {ts : List Ty} {own : Ty} {marks : Marks}

/-! ### What comes back -/

/-- A value came back as another one from a slot, and all types beside values were read. -/
structure Echoed (c : Wire.Echo) (slot : Ty) (v w : Value) : Prop where
  eq : w = v.readBack c slot
  types : v.typesRead c slot

/-- Elements came back from their slots. -/
structure EchoedEach (c : Wire.Echo) (slots : List Ty) (vs ws : List Value) : Prop where
  eq : ws = readBackEach c slots vs
  types : typesReadEach c slots vs

/-- Entries came back as members of a map or object. -/
structure EchoedEntries (c : Wire.Echo) (slotOf : String → Ty) (es : Entries Value)
    (members : List Wire.Member) : Prop where
  eq : members = (readBackEntries c slotOf es).map fun e => (e.1, .ok e.2)
  types : typesReadEntries c slotOf es

/-- A known value that came back as from a slot of the type that was read beside it came back from
the `dynamic` slot. -/
theorem Echoed.of_isDynamic (h : Echoed c u v w) (hslot : slot.isDynamic)
    (hu : c.type? v.ty = some u) (hknown : v.isKnown) : Echoed c slot v w where
  eq := h.eq.trans (readBack_of_isDynamic hslot hu hknown).symm
  types := (typesRead_of_isDynamic hslot hu hknown).trans h.types

theorem EchoedEach.cons (h : Echoed c t v w) (hs : EchoedEach c ts vs ws) :
    EchoedEach c (t :: ts) (v :: vs) (w :: ws) where
  eq := by rw [readBackEach, List.headD_cons, List.tail_cons, h.eq, hs.eq]
  types := by simp [typesReadEach, h.types, hs.types]

theorem EchoedEntries.cons {slotOf : String → Ty} {members : List Wire.Member} {k : String}
    (h : Echoed c (slotOf k) v w) (hs : EchoedEntries c slotOf es members) :
    EchoedEntries c slotOf ((k, v) :: es) ((k, .ok w) :: members) where
  eq := by rw [readBackEntries, List.map_cons, h.eq, hs.eq]
  types := by simp [typesReadEntries, h.types, hs.types]

/-- A list, set or tuple came back if its elements did. -/
theorem EchoedEach.sequence (hs : EchoedEach c ts vs ws) (h : WellFormed ⟨own, .items vs, marks⟩)
    (hsame : own.same t) (hts : slots? t vs.length = some ts) :
    Echoed c t ⟨own, .items vs, marks⟩ (sequence t ws) where
  eq := by rw [hs.eq, sequence_readBackEach h hsame hts]
  types := by
    simpa [typesRead, typeRead, Wire.Echo.slotType, isDynamic_of_slots? hts, itemSlots, hts]
      using hs.types

/-- A map or object came back if it is made of entries that did. -/
theorem EchoedEntries.mapping {members : List Wire.Member}
    (hs : EchoedEntries c (entrySlot t) es members) (hconcrete : t.isDynamic = false)
    (hw : w = readBack c t ⟨own, .entries es, marks⟩) :
    Echoed c t ⟨own, .entries es, marks⟩ w where
  eq := hw
  types := by simpa [typesRead, typeRead, Wire.Echo.slotType, hconcrete] using hs.types

/-- The slots from which an entry is written and read. -/
theorem WellFormed.entry_slots {s : Ty} {e : String × Value}
    (h : WellFormed ⟨own, .entries es, marks⟩) (hs : s.WellFormed) (ht : t.WellFormed)
    (hown : own.same s) (hst : s.same t) (he : e ∈ es) (hu : slotOf? s e.1 = some u) :
    u.WellFormed ∧ (entrySlot t e.1).WellFormed ∧ e.2.InSlot u ∧ u.same (entrySlot t e.1) := by
  obtain ⟨u', hu', hin, hwell⟩ := h.exists_slotOf_of_same hs hown he
  obtain rfl := Option.some.inj (hu.symm.trans hu')
  obtain ⟨x, hx, hsame⟩ := Value.exists_slotOf_of_same hst hu
  rw [entrySlot, hx, Option.getD_some]
  exact ⟨hwell, slotOf?_wellFormed ht hx, hin, hsame⟩

/-! ### Refinements that come back -/

/-- Whether the refinements in a value can be written in the form in which they come back. -/
def RefinementsReturn (limit : Nat) (v : Value) : Prop :=
  ∀ w, v.Contains w → ∀ r, w.refinement? = some r → r.written.Writable limit

theorem RefinementsReturn.of_mem_parts (h : v.RefinementsReturn limit) (hw : w ∈ parts v.content) :
    w.RefinementsReturn limit := fun x hx => h x (.of_mem_parts hw hx)

theorem refinementsReturn_of_parts (hrefinement : v.refinement? = none)
    (h : ∀ x ∈ parts v.content, x.RefinementsReturn limit) : v.RefinementsReturn limit :=
  forall_contains_iff.mpr ⟨by simp [hrefinement], h⟩

theorem refinementsReturn_of_isWhollyKnown (h : v.isWhollyKnown) : v.RefinementsReturn limit := by
  intro w hw r hr
  rw [refinement?_of_isWhollyKnown h w hw] at hr
  cases hr

end Value

theorem Refinement.written_written (r : Refinement) : r.written.written = r.written := by
  obtain ⟨_, _, lower, upper, _, _⟩ := r
  cases lower <;> cases upper <;>
    simp [Refinement.written, NumberBound.written, Decimal.written_written]

open Value

/-! ### JSON -/

namespace Json

variable {limits : Limits} {v : Value}

/-- What is read from what a value was written as is what comes back of the value, and what comes
back of its refinements can be written. The value was written for a slot, and is read for an equal
one. -/
def Echoes (limits : Limits) (v : Value) : Prop :=
  ∀ s t j depth w, s.WellFormed → t.WellFormed → v.InSlot s → s.same t → v.toJson s = .ok j →
    j.toValue limits depth t = .ok w →
    Echoed echo t v w ∧ v.RefinementsReturn limits.maxNumberExponent

/-- Known values need only be looked at in slots of their own type. -/
theorem echoes_of_known (h : v.WellFormed) (hknown : v.isKnown)
    (hecho : ∀ s t j depth w, s.WellFormed → t.WellFormed → v.ty.same s → s.same t →
      s.isDynamic = false → v.toJson s = .ok j → j.toValue limits depth t = .ok w →
      Echoed echo t v w ∧ v.RefinementsReturn limits.maxNumberExponent) : Echoes limits v := by
  intro s t j depth w hs ht hin hst hj hw
  have hown := h.type_wellFormed
  have hconcrete := h.isDynamic_eq_false hknown
  cases hdynamic : s.isDynamic with
  | false =>
    exact hecho s t j depth w hs ht (hin.same hdynamic) hst hdynamic hj hw
  | true =>
    obtain ⟨inner, spec, hinner, hspec, rfl⟩ :=
      exists_of_toJson_of_isDynamic hdynamic hknown hconcrete hj
    have ht' : t.isDynamic := isDynamic_of_same hst ▸ hdynamic
    have hdescribes := Ty.describes_of_toJson hown hspec
    have hu := typeBack?_eq hdescribes hconcrete
    have hread := wrappedType_eq hdescribes hconcrete
    rw [toValue_wrapped ht' hread (depth_le_of_toValue hw)] at hw
    -- The type that is read may have its attributes in another order.
    obtain ⟨hecho, hrefinements⟩ := hecho v.ty _ inner _ w hown (echo.type_spec _ _ hu).1
      hown.same_refl hown.same_inKeyOrder hconcrete hinner hw
    exact ⟨hecho.of_isDynamic ht' hu hknown, hrefinements⟩

theorem echoed_items {vs ws : List Value} {ss ts : List Ty} {js : List Json} {i k depth : Nat}
    (hin : List.Forall₂ InSlot vs ss) (hsame : List.Forall₂ (fun s t => s.same t) ss ts)
    (hss : ∀ s ∈ ss, s.WellFormed) (hts : ∀ t ∈ ts, t.WellFormed)
    (h : ∀ v ∈ vs, Echoes limits v) (hjs : itemsToJson i ss vs = .ok js)
    (hws : itemsToValues limits depth k ts js = .ok ws) :
    EchoedEach echo ts vs ws ∧ ∀ v ∈ vs, v.RefinementsReturn limits.maxNumberExponent := by
  induction hin generalizing ts js ws i k with
  | nil =>
    cases hsame
    obtain rfl := Except.ok.inj hjs
    obtain rfl := Except.ok.inj hws
    exact ⟨⟨rfl, rfl⟩, nofun⟩
  | @cons v s vs ss hv _ ih =>
    obtain _ | @⟨_, t, _, ts, hst, hsame⟩ := hsame
    rw [List.forall_mem_cons] at hss hts h
    obtain ⟨j, js', hj, hjs', rfl⟩ := exists_of_itemsToJson_cons hjs
    rw [itemsToValues, List.headD_cons, List.tail_cons] at hws
    split at hws
    · cases hws
    rename_i w hw
    obtain ⟨ws', hws', rfl⟩ := Except.map_eq_ok_iff.mp hws
    obtain ⟨hfirst, hreturns⟩ := h.1 s t j depth w hss.1 hts.1 hv hst hj hw
    obtain ⟨hrest, hreturn⟩ := ih hsame hss.2 hts.2 h.2 hjs' hws'
    exact ⟨hrest.cons hfirst, List.forall_mem_cons.mpr ⟨hreturns, hreturn⟩⟩

theorem echoed_entries {es : Entries Value} {slotOf : String → Option Ty} {typeOf : String → Ty}
    {fs : List (String × Json)} {depth : Nat}
    (hslots : ∀ e ∈ es, ∀ u, slotOf e.1 = some u → u.WellFormed ∧ (typeOf e.1).WellFormed ∧
      e.2.InSlot u ∧ u.same (typeOf e.1)) (h : ∀ e ∈ es, Echoes limits e.2)
    (hfs : entriesToJson slotOf es = .ok fs)
    (hok : ∀ p ∈ fieldsToMembers limits depth typeOf (es.map (·.1)) fs, ∃ w, p.2 = .ok w) :
    EchoedEntries echo typeOf es (fieldsToMembers limits depth typeOf (es.map (·.1)) fs) ∧
      ∀ e ∈ es, e.2.RefinementsReturn limits.maxNumberExponent := by
  induction es generalizing fs with
  | nil =>
    obtain rfl := Except.ok.inj hfs
    exact ⟨⟨rfl, rfl⟩, nofun⟩
  | cons e es ih =>
    obtain ⟨k, v⟩ := e
    rw [List.forall_mem_cons] at hslots h
    obtain ⟨u, j, fs', hu, hj, hfs', rfl⟩ := exists_of_entriesToJson_cons hfs
    obtain ⟨hwell, hwell', hin, hsame⟩ := hslots.1 u hu
    rw [List.map_cons, fieldsToMembers, List.headD_cons, List.tail_cons] at hok ⊢
    rw [List.forall_mem_cons] at hok
    obtain ⟨w, hw⟩ := hok.1
    simp only at hw
    obtain ⟨hfirst, hreturns⟩ := h.1 u _ j depth w hwell hwell' hin hsame hj hw
    obtain ⟨hrest, hreturn⟩ := ih hslots.2 h.2 hfs' hok.2
    rw [hw]
    exact ⟨hrest.cons hfirst, List.forall_mem_cons.mpr ⟨hreturns, hreturn⟩⟩

variable {own t : Ty} {marks : Marks} {depth : Nat}

/-- A list, set or tuple echoes if its elements do. -/
theorem echoes_items {vs : List Value} (h : WellFormed ⟨own, .items vs, marks⟩)
    (hechoes : ∀ v ∈ vs, Echoes limits v) : Echoes limits ⟨own, .items vs, marks⟩ := by
  refine echoes_of_known h rfl fun s t j depth w hs ht hown hst hconcrete hj hw => ?_
  -- The elements have their slots in the type written under and in the one read under.
  obtain ⟨ss, js, hss, hjs, rfl⟩ := exists_of_toJson_items hconcrete hj
  obtain ⟨ss', hss', hin, hswell⟩ := h.exists_slots_of_same hs hown
  obtain rfl := Option.some.inj (hss.symm.trans hss')
  obtain ⟨ts, hts, hsame⟩ := Value.exists_slots_of_same hst hss
  have hlength := length_of_itemsToJson hin.length_eq hjs
  rw [toValue_array (hlength ▸ hts) (depth_le_of_toValue hw)] at hw
  obtain ⟨ws, hws, rfl⟩ := Except.map_eq_ok_iff.mp hw
  obtain ⟨hecho, hreturn⟩ :=
    echoed_items hin hsame hswell (fills_of_slots? ht hts).2.1 hechoes hjs hws
  exact ⟨hecho.sequence h (h.type_wellFormed.same_trans hown hst) hts,
    refinementsReturn_of_parts rfl hreturn⟩

/-- A map or object echoes if its entries do. -/
theorem echoes_entries {es : Entries Value} (h : WellFormed ⟨own, .entries es, marks⟩)
    (hechoes : ∀ e ∈ es, Echoes limits e.2) : Echoes limits ⟨own, .entries es, marks⟩ := by
  refine echoes_of_known h rfl fun s t j depth w hs ht hown hst hconcrete hj hw => ?_
  obtain ⟨hreserved, fs, hfs, rfl⟩ := exists_of_toJson_entries hconcrete hj
  have hsame := h.type_wellFormed.same_trans hown hst
  have hnames := keys_of_entriesToJson hfs
  have hkeys := keysOf_eq hnames h.nodup_keys h.entries_keys.2
  -- The object is not taken for an unknown value.
  have hunknown : isUnknown fs = false := by
    refine isUnknown_eq_false fun k hk => ?_
    rw [hnames] at hk
    obtain ⟨e, he, rfl⟩ := List.mem_map.mp hk
    exact hreserved e he
  have hslots : ∀ e ∈ es, ∀ u, slotOf? s e.1 = some u → u.WellFormed ∧
      (entrySlot t e.1).WellFormed ∧ e.2.InSlot u ∧ u.same (entrySlot t e.1) :=
    fun e he u hu => h.entry_slots hs ht hown hst he hu
  obtain ⟨hmade, hok⟩ := toValue_entries h ht hsame hunknown hkeys (depth_le_of_toValue hw)
  obtain ⟨hecho, hreturn⟩ := echoed_entries hslots hechoes hfs (hok w hw)
  have hback := Except.ok.inj (hw.symm.trans (hmade hecho.eq))
  exact ⟨hecho.mapping (isDynamic_of_same hst ▸ hconcrete) hback,
    refinementsReturn_of_parts rfl (List.forall_mem_map.mpr hreturn)⟩

theorem toValue_scalar {j : Json} (hj : j.shape = .scalar) (hdepth : depth ≤ limits.maxDepth) :
    toValue limits depth t j = toScalar limits t j := by
  unfold toValue
  rw [if_neg (by omega)]
  cases j <;> first | rfl | cases hj

/-- A value without members echoes if it is read as such a value. -/
theorem echoes_scalar {content : Content Value} {j : Json}
    (h : WellFormed ⟨own, content, marks⟩) (hprimitive : own.isPrimitive)
    (hknown : isKnown ⟨own, content, marks⟩) (hparts : parts content = [])
    (hwritten : toJson own ⟨own, content, marks⟩ = .ok j) (hj : j.shape = .scalar)
    (hread : ∀ w, toScalar limits own j = .ok w → Echoed echo own ⟨own, content, marks⟩ w) :
    Echoes limits ⟨own, content, marks⟩ := by
  refine echoes_of_known h hknown fun s t j' depth w _ _ hown hst _ hj' hw => ?_
  obtain rfl := eq_of_same_of_isPrimitive hprimitive hown
  obtain rfl := eq_of_same_of_isPrimitive hprimitive hst
  obtain rfl := Except.ok.inj (hwritten.symm.trans hj')
  rw [toValue_scalar hj (depth_le_of_toValue hw)] at hw
  refine ⟨hread w hw, refinementsReturn_of_parts ?_ (by simp [hparts])⟩
  cases content <;> first | rfl | cases hknown

/-- Whatever is read of what a well-formed value is written as is what comes back of it. -/
theorem echoes (hlimit : limits.maxNumberExponent < Word.signedBound) (h : v.WellFormed) :
    Echoes limits v := by
  induction v using Value.induction with
  | null own marks =>
    intro s t j depth w _ _ _ _ hj hw
    obtain rfl := Except.ok.inj hj
    have hdepth := depth_le_of_toValue hw
    unfold toValue at hw
    rw [if_neg (by omega)] at hw
    obtain rfl := Except.ok.inj hw
    exact ⟨⟨rfl, rfl⟩, refinementsReturn_of_parts rfl (by simp [parts])⟩
  | unknown own r marks =>
    intro s t j depth w _ _ _ _ hj hw
    obtain rfl := Except.ok.inj hj
    have hwritable := writable_of_toValue_ofUnknown hw
    cases h with
    | unknown _ _ start =>
      -- What is read of the unknown is what is read of it in written form.
      have hread := toValue_ofUnknown t hlimit hwritable start (depth_le_of_toValue hw)
      rw [ofUnknown_written, hw, Refinement.written_written] at hread
      refine ⟨⟨Except.ok.inj hread, rfl⟩, forall_contains_iff.mpr ⟨fun q hq => ?_, by simp [parts]⟩⟩
      obtain rfl := Option.some.inj hq
      exact hwritable
  | bool own b marks =>
    cases h with
    | bool =>
      exact echoes_scalar .bool rfl rfl rfl rfl rfl fun w hw => ⟨(Except.ok.inj hw).symm, rfl⟩
  | number own n marks =>
    cases h with
    | number =>
      refine echoes_scalar .number rfl rfl rfl rfl rfl fun w hw => ?_
      rw [toScalar, numberOfText] at hw
      split at hw
      · rename_i k hk
        obtain rfl := Decimal.eq_written_of_ofText_plain hk
        exact ⟨(Except.ok.inj hw).symm, rfl⟩
      · simp only [failAt, reduceCtorEq] at hw
  | string own x marks =>
    cases h with
    | string =>
      exact echoes_scalar .string rfl rfl rfl rfl rfl fun w hw => ⟨(Except.ok.inj hw).symm, rfl⟩
  | items own vs marks ih => exact echoes_items h fun v hv => ih v hv (h.of_mem_items hv)
  | entries own es marks ih => exact echoes_entries h fun e he => ih e he (h.of_mem_entries he)
  | capsule own handle marks =>
    refine echoes_of_known h rfl fun s t j depth w _ _ _ _ _ hj _ => ?_
    cases s <;> cases hj

end Json

/-! ### MessagePack -/

namespace Msgpack

variable {limits : Limits} {v : Value}

/-- What is read from what a value was written as is what comes back of the value, where what comes
back of its refinements can be written. The value was written for a slot, and is read for an equal
one. -/
def Echoes (limits : Limits) (v : Value) : Prop :=
  ∀ s t m depth w, s.WellFormed → t.WellFormed → v.InSlot s → s.same t →
    v.RefinementsReturn limits.maxNumberExponent → m.Fits → v.toMsgpack s = .ok m →
    m.toValue limits depth t = .ok w → Echoed echo t v w

/-- Known values need only be looked at in slots of their own type. -/
theorem echoes_of_known (h : v.WellFormed) (hknown : v.isKnown)
    (hecho : ∀ s t m depth w, s.WellFormed → t.WellFormed → v.ty.same s → s.same t →
      s.isDynamic = false → v.RefinementsReturn limits.maxNumberExponent → m.Fits →
      v.toMsgpack s = .ok m → m.toValue limits depth t = .ok w → Echoed echo t v w) :
    Echoes limits v := by
  intro s t m depth w hs ht hin hst hrefinements hfits hm hw
  have hown := h.type_wellFormed
  have hconcrete := h.isDynamic_eq_false hknown
  cases hdynamic : s.isDynamic with
  | false =>
    exact hecho s t m depth w hs ht (hin.same hdynamic) hst hdynamic hrefinements hfits hm hw
  | true =>
    obtain ⟨inner, j, hinner, hj, rfl⟩ :=
      exists_of_toMsgpack_of_isDynamic hdynamic hknown hconcrete hm
    have ht' : t.isDynamic := isDynamic_of_same hst ▸ hdynamic
    rw [toValue_wrapped ht' (depth_le_of_toValue hw)] at hw
    split at hw
    · rename_i u hu
      have hu := typeBack?_of_wrappedType hj hu
      -- The type that is read may have its attributes in another order.
      obtain rfl := eq_inKeyOrder_of_typeBack? hown hu
      cases hfits with
      | array _ hfits =>
        have hecho := hecho v.ty _ inner _ w hown (echo.type_spec _ _ hu).1 hown.same_refl
          hown.same_inKeyOrder hconcrete hrefinements (hfits inner (by simp)) hinner hw
        exact hecho.of_isDynamic ht' hu hknown
    · simp only [failAt, reduceCtorEq] at hw

theorem echoed_items {vs ws : List Value} {ss ts : List Ty} {ms : List Msgpack} {i k depth : Nat}
    (hin : List.Forall₂ InSlot vs ss) (hsame : List.Forall₂ (fun s t => s.same t) ss ts)
    (hss : ∀ s ∈ ss, s.WellFormed) (hts : ∀ t ∈ ts, t.WellFormed)
    (h : ∀ v ∈ vs, Echoes limits v)
    (hrefinements : ∀ v ∈ vs, v.RefinementsReturn limits.maxNumberExponent)
    (hfits : ∀ m ∈ ms, m.Fits) (hms : itemsToMsgpack i ss vs = .ok ms)
    (hws : itemsToValues limits depth k ts ms = .ok ws) : EchoedEach echo ts vs ws := by
  induction hin generalizing ts ms ws i k with
  | nil =>
    cases hsame
    obtain rfl := Except.ok.inj hms
    obtain rfl := Except.ok.inj hws
    exact ⟨rfl, rfl⟩
  | @cons v s vs ss hv _ ih =>
    obtain _ | @⟨_, t, _, ts, hst, hsame⟩ := hsame
    rw [List.forall_mem_cons] at hss hts h hrefinements
    obtain ⟨m, ms', hm, hms', rfl⟩ := exists_of_itemsToMsgpack_cons hms
    rw [List.forall_mem_cons] at hfits
    rw [itemsToValues, List.headD_cons, List.tail_cons] at hws
    split at hws
    · cases hws
    rename_i w hw
    obtain ⟨ws', hws', rfl⟩ := Except.map_eq_ok_iff.mp hws
    have hfirst := h.1 s t m depth w hss.1 hts.1 hv hst hrefinements.1 hfits.1 hm hw
    exact (ih hsame hss.2 hts.2 h.2 hrefinements.2 hfits.2 hms' hws').cons hfirst

theorem echoed_entries {es : Entries Value} {slotOf : String → Option Ty} {typeOf : String → Ty}
    {ms : List (Msgpack × Msgpack)} {depth : Nat}
    (hslots : ∀ e ∈ es, ∀ u, slotOf e.1 = some u → u.WellFormed ∧ (typeOf e.1).WellFormed ∧
      e.2.InSlot u ∧ u.same (typeOf e.1)) (h : ∀ e ∈ es, Echoes limits e.2)
    (hrefinements : ∀ e ∈ es, e.2.RefinementsReturn limits.maxNumberExponent)
    (hfits : ∀ e ∈ ms, e.2.Fits) (hms : entriesToMsgpack slotOf es = .ok ms)
    (hok : ∀ p ∈ entriesToMembers limits depth typeOf (es.map (·.1)) ms, ∃ w, p.2 = .ok w) :
    EchoedEntries echo typeOf es (entriesToMembers limits depth typeOf (es.map (·.1)) ms) := by
  induction es generalizing ms with
  | nil =>
    obtain rfl := Except.ok.inj hms
    exact ⟨rfl, rfl⟩
  | cons e es ih =>
    obtain ⟨k, v⟩ := e
    rw [List.forall_mem_cons] at hslots h hrefinements
    obtain ⟨u, m, ms', hu, hm, hms', rfl⟩ := exists_of_entriesToMsgpack_cons hms
    obtain ⟨hwell, hwell', hin, hsame⟩ := hslots.1 u hu
    rw [List.map_cons, entriesToMembers, List.headD_cons, List.tail_cons] at hok ⊢
    rw [List.forall_mem_cons] at hok hfits
    obtain ⟨w, hw⟩ := hok.1
    simp only at hw
    have hfirst := h.1 u _ m depth w hwell hwell' hin hsame hrefinements.1 hfits.1 hm hw
    rw [hw]
    exact (ih hslots.2 h.2 hrefinements.2 hfits.2 hms' hok.2).cons hfirst

variable {own t : Ty} {marks : Marks} {depth : Nat}

/-- A list, set or tuple echoes if its elements do. -/
theorem echoes_items {vs : List Value} (h : WellFormed ⟨own, .items vs, marks⟩)
    (hechoes : ∀ v ∈ vs, Echoes limits v) : Echoes limits ⟨own, .items vs, marks⟩ := by
  refine echoes_of_known h rfl
    fun s t m depth w hs ht hown hst hconcrete hrefinements hfits hm hw => ?_
  -- The elements have their slots in the type written under and in the one read under.
  obtain ⟨ss, ms, hss, hms, rfl⟩ := exists_of_toMsgpack_items hconcrete hm
  obtain ⟨ss', hss', hin, hswell⟩ := h.exists_slots_of_same hs hown
  obtain rfl := Option.some.inj (hss.symm.trans hss')
  obtain ⟨ts, hts, hsame⟩ := Value.exists_slots_of_same hst hss
  have hlength := length_of_itemsToMsgpack hin.length_eq hms
  rw [toValue_array (hlength ▸ hts) (depth_le_of_toValue hw)] at hw
  obtain ⟨ws, hws, rfl⟩ := Except.map_eq_ok_iff.mp hw
  cases hfits with
  | array _ hfits =>
    have hecho := echoed_items hin hsame hswell (fills_of_slots? ht hts).2.1 hechoes
      (fun v hv => hrefinements.of_mem_parts hv) hfits hms hws
    exact hecho.sequence h (h.type_wellFormed.same_trans hown hst) hts

/-- A map or object echoes if its entries do. -/
theorem echoes_entries {es : Entries Value} (h : WellFormed ⟨own, .entries es, marks⟩)
    (hechoes : ∀ e ∈ es, Echoes limits e.2) : Echoes limits ⟨own, .entries es, marks⟩ := by
  refine echoes_of_known h rfl
    fun s t m depth w hs ht hown hst hconcrete hrefinements hfits hm hw => ?_
  obtain ⟨ms, hms, rfl⟩ := exists_of_toMsgpack_entries hconcrete hm
  have hsame := h.type_wellFormed.same_trans hown hst
  have hkeys := keysOf_of_entriesToMsgpack h hms
  have hslots : ∀ e ∈ es, ∀ u, slotOf? s e.1 = some u → u.WellFormed ∧
      (entrySlot t e.1).WellFormed ∧ e.2.InSlot u ∧ u.same (entrySlot t e.1) :=
    fun e he u hu => h.entry_slots hs ht hown hst he hu
  have hreturn : ∀ e ∈ es, e.2.RefinementsReturn limits.maxNumberExponent :=
    fun e he => hrefinements.of_mem_parts (List.mem_map_of_mem he)
  obtain ⟨hmade, hok⟩ := toValue_entries h ht hsame hkeys (depth_le_of_toValue hw)
  cases hfits with
  | map _ _ hfits =>
    have hecho := echoed_entries hslots hechoes hreturn hfits hms (hok w hw)
    have hback := Except.ok.inj (hw.symm.trans (hmade hecho.eq))
    exact hecho.mapping (isDynamic_of_same hst ▸ hconcrete) hback

/-- A value without members echoes if it is read as such a value. -/
theorem echoes_scalar {content : Content Value} {m : Msgpack}
    (h : WellFormed ⟨own, content, marks⟩) (hprimitive : own.isPrimitive)
    (hknown : isKnown ⟨own, content, marks⟩)
    (hwritten : toMsgpack own ⟨own, content, marks⟩ = .ok m) (hm : m.shape = .scalar)
    (hread : ∀ w, toScalar limits own m = .ok w → Echoed echo own ⟨own, content, marks⟩ w) :
    Echoes limits ⟨own, content, marks⟩ := by
  refine echoes_of_known h hknown fun s t m' depth w _ _ hown hst _ _ _ hm' hw => ?_
  obtain rfl := eq_of_same_of_isPrimitive hprimitive hown
  obtain rfl := eq_of_same_of_isPrimitive hprimitive hst
  obtain rfl := Except.ok.inj (hwritten.symm.trans hm')
  rw [toValue_scalar hm (depth_le_of_toValue hw)] at hw
  exact hread w hw

/-- Whatever is read of what a well-formed value is written as is what comes back of it. -/
theorem echoes (hlimit : limits.maxNumberExponent < Word.signedBound) (h : v.WellFormed) :
    Echoes limits v := by
  induction v using Value.induction with
  | null own marks =>
    intro s t m depth w _ _ _ _ _ _ hm hw
    obtain rfl := Except.ok.inj hm
    have hdepth := depth_le_of_toValue hw
    unfold toValue at hw
    rw [if_neg (by omega)] at hw
    exact ⟨(Except.ok.inj hw).symm, rfl⟩
  | unknown own r marks =>
    intro s t m depth w _ _ _ _ hrefinements hfits hm hw
    obtain rfl := Except.ok.inj hm
    have hwritable := hrefinements _ .self r rfl
    cases h with
    | unknown _ _ start =>
      -- What is read of the unknown is what is read of it in written form.
      rw [← ofUnknown_written] at hfits hw
      have hread := toValue_ofUnknown t hlimit hwritable start hfits (depth_le_of_toValue hw)
      rw [hw, Refinement.written_written] at hread
      exact ⟨Except.ok.inj hread, rfl⟩
  | bool own b marks =>
    cases h with
    | bool => exact echoes_scalar .bool rfl rfl rfl rfl fun w hw => ⟨(Except.ok.inj hw).symm, rfl⟩
  | number own n marks =>
    cases h with
    | number =>
      refine echoes_scalar .number rfl rfl rfl (shape_ofNumber n) fun w hw => ?_
      rw [toScalar_number_ofNumber] at hw
      cases hread : (ofNumber n).asNumber? limits.maxNumberExponent with
      | none => simp only [hread, Option.elim_none, failAt, reduceCtorEq] at hw
      | some k =>
        obtain rfl := eq_numberBack_of_asNumber? hread
        rw [hread] at hw
        exact ⟨(Except.ok.inj hw).symm, rfl⟩
  | string own x marks =>
    cases h with
    | string =>
      refine echoes_scalar .string rfl rfl rfl rfl fun w hw => ?_
      have hread := asText?_ofText x
      rw [ofText] at hread hw
      simp only [toScalar, hread] at hw
      exact ⟨(Except.ok.inj hw).symm, rfl⟩
  | items own vs marks ih => exact echoes_items h fun v hv => ih v hv (h.of_mem_items hv)
  | entries own es marks ih => exact echoes_entries h fun e he => ih e he (h.of_mem_entries he)
  | capsule own handle marks =>
    refine echoes_of_known h rfl fun s t m depth w _ _ _ _ hconcrete _ _ hm _ => ?_
    cases writtenAs_of_toMsgpack hconcrete hm

end Msgpack

end TypedData
