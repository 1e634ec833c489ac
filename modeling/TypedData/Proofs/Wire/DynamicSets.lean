import TypedData.Proofs.Wire.Elements

/-!
# Sets of `dynamic` elements over the wire

An array that is validated as a set of `dynamic` elements comes back with the same elements. But a
set compares place by place, and elements that are encoded alike are put in order by the names of
their types. Types come back with their attributes in key order, under other names, so the set
comes back equal just where its elements, as they come back, are in the order in which they stood.

## Main definitions

* `Value.Sent` — values that were sent in a format
* `Value.PrintedAs` — elements whose text can be read
* `Value.KeepsOrder` — elements whose order does not change on the way

## Main results

* `Value.Sent.elements`, `Value.Sent.beq_iff` — what comes back, and when it is equal
* `Value.exists_sent_json` — sets that are sent as JSON
* `Value.set_dynamic_comes_back` — how sets of `dynamic` elements come back
-/

namespace TypedData.Value

variable {c : Wire.Echo} {v w : Value} {vs : List Value}

/-! ### Sets that are sent -/

/-- A value was encoded for a slot in a format, with lengths that can be written, and was decoded
as another one. -/
inductive Sent (slot : Ty) (v w : Value) : Wire.Echo → Prop
  | json {text : String} (written : v.encodeJson slot = .ok text)
      (read : decodeJson .default slot (Text.Utf8.ofString text) = .ok w) : Sent slot v w Json.echo
  | msgpack {bytes : List UInt8} (written : v.encodeMsgpack slot = .ok bytes)
      (fits : ∀ m, v.toMsgpack slot = .ok m → m.Fits)
      (read : decodeMsgpack .default slot bytes = .ok w) : Sent slot v w Msgpack.echo

theorem Sent.faithful {slot : Ty} (h : Sent slot v w c) : c.Faithful := by
  cases h with
  | json => exact Json.faithful_echo
  | msgpack => exact Msgpack.faithful_echo

/-- What is decoded is what comes back, if nothing is unknown and a number is spelled out in the
text only where it is refused. -/
theorem Sent.echoed {slot : Ty} (h : Sent slot v w c) (hv : v.WellFormed) (hslot : slot.WellFormed)
    (hin : v.InSlot slot) (hknown : v.isWhollyKnown)
    (hspelled : ∀ j, v.toJson slot = .ok j →
      j.Spelled fun f => Json.Reader.spellsNumber f = true → j.Refused) : Echoed c slot v w := by
  cases h with
  | json written read =>
    obtain ⟨j, hj, rfl⟩ := Except.map_eq_ok_iff.mp written
    obtain ⟨k, hk, hw⟩ := exists_of_decodeJson read
    obtain rfl := Json.eq_of_readBytes_compact (hspelled j hj) hk
    exact (Json.echoes (by decide) hv slot slot _ 0 w hslot hslot hin hslot.same_refl hj hw).1
  | msgpack written fits read =>
    obtain ⟨m, hm, rfl⟩ := Except.map_eq_ok_iff.mp written
    obtain ⟨k, hk, hw⟩ := exists_of_decodeMsgpack read
    have houtcome := Msgpack.readValue_write (fits m hm) (Msgpack.budget .default) []
    rw [List.append_nil, hk] at houtcome
    obtain rfl : k = m := by
      rw [Msgpack.outcome] at houtcome
      split at houtcome <;> cases houtcome
      rfl
    exact Msgpack.echoes (by decide) hv slot slot _ 0 w hslot hslot hin hslot.same_refl
      (refinementsReturn_of_isWhollyKnown hknown) (fits _ hm) hm hw

/-- An array becomes a set of values of documents. -/
theorem exists_of_validate_set {js : List Json} {limits : Limits}
    (h : (Native.ofJson (.array js)).validate limits (.set .dynamic) = .ok v) :
    ∃ vs, v = ofContent (.set .dynamic) (.items vs) ∧ InSetOrder vs ∧
      ∀ e ∈ vs, e.WellFormed ∧ e.Documented .dynamic := by
  have hwell := (Native.wellFormed_validateAt (.set .dynamic) (by simp [Native.values_ofJson]) h).1
  cases Native.validationStep_of_validateAt h with
  | @items _ _ decided _ vs hraw hdecided htypes hvs =>
    obtain rfl := Option.some.inj hraw
    obtain rfl : Ty.set .dynamic = decided := Except.ok.inj hdecided
    obtain rfl := Except.ok.inj htypes
    have hitems : ∀ v ∈ vs, v.Documented .dynamic := by
      intro v hv
      have heach := Native.forall₂_validateItems (List.length_replicate ..).symm hvs
      obtain ⟨t, ht, raw, hraw, hv⟩ := heach.exists_of_mem_left hv
      obtain rfl := List.eq_of_mem_replicate ht
      obtain ⟨j, -, rfl⟩ := Native.exists_of_mem_ofJsonItems hraw
      exact Native.documented_validateAt .dynamic .dynamic hv
    have hknown : vs.any isUnknown = false := by
      rw [List.any_eq_false]
      exact fun v hv => Bool.eq_false_iff.mp (hitems v hv).isUnknown_eq_false
    rw [sequence_set_of_known hknown] at hwell ⊢
    refine ⟨_, rfl, inSetOrder_canonicalSet vs, fun e he => ⟨hwell.of_mem_items he, ?_⟩⟩
    obtain ⟨v, hv, hdata⟩ := exists_of_mem_canonicalSet he
    exact (hitems v hv).of_sameData hdata
  | scalar hdecided hw =>
    obtain rfl : Ty.set .dynamic = _ := Except.ok.inj hdecided
    cases hw

/-- An array whose items are validated one by one is the set of what they become. -/
theorem validate_set_eq {js : List Json} {limits : Limits} {vs : List Value}
    (h : List.Forall₂
      (fun j v => Native.validateAt limits 1 .dynamic (Native.ofJson j) = .ok v) js vs)
    (hknown : vs.any isUnknown = false) :
    (Native.ofJson (.array js)).validate limits (.set .dynamic) =
      .ok (ofContent (.set .dynamic) (.items (canonicalSet vs))) := by
  have hitems (i : Nat) : Native.validateItems limits 1 i
      (List.replicate (Native.ofJsonItems js).length .dynamic) (Native.ofJsonItems js) =
        .ok vs := by
    clear hknown
    induction h generalizing i with
    | nil => rfl
    | cons hv _ ih =>
      simp only [Native.ofJsonItems, List.length_cons, List.replicate_succ, Native.validateItems,
        List.headD_cons, List.tail_cons, hv, ih (i + 1), Except.map]
  rw [← sequence_set_of_known hknown, Native.validate, Native.ofJson]
  unfold Native.validateAt
  rw [if_neg (Nat.not_lt_zero _)]
  simp only [Native.decidedType, Ty.isDynamic, Bool.false_eq_true, if_false, Native.itemTypes,
    hitems, Except.map]

/-- The text of a set of values of documents spells out a number only if it is refused. -/
theorem spelled_of_documented {j : Json} (hvs : ∀ e ∈ vs, e.WellFormed ∧ e.Documented .dynamic)
    (hj : (ofContent (.set .dynamic) (.items vs)).toJson (.set .dynamic) = .ok j) :
    j.Spelled fun f => Json.Reader.spellsNumber f = true → j.Refused := by
  obtain ⟨_, js, hslots, hjs, rfl⟩ := Json.exists_of_toJson_items rfl hj
  obtain rfl := Option.some.inj hslots
  refine .array fun j hmem => ?_
  obtain ⟨e, he, hwritten⟩ := exists_of_mem_itemsToJson hjs hmem
  exact (hvs e he).2.spelled (hvs e he).1 .dynamic .dynamic .dynamic rfl (.of_isDynamic rfl)
    hwritten (fun hrefused => .item hmem hrefused) nofun

/-- A set of values of documents comes back as the set of its elements as they come back. -/
theorem Sent.elements (hvs : ∀ e ∈ vs, e.WellFormed ∧ e.Documented .dynamic)
    (horder : InSetOrder vs)
    (h : Sent (.set .dynamic) (ofContent (.set .dynamic) (.items vs)) w c) :
    w = ofContent (.set .dynamic) (.items (canonicalSet (vs.map (readBack c .dynamic)))) ∧
      ∀ e ∈ vs, e.Element c := by
  have hset : (Ty.set .dynamic).WellFormed := .set .dynamic
  have hknown (e : Value) (he : e ∈ vs) := (hvs e he).2.isWhollyKnown (hvs e he).1
  have hwell : (ofContent (.set .dynamic) (.items vs)).WellFormed :=
    .set .dynamic (fun e he => (hvs e he).1) (fun _ _ => .of_isDynamic rfl)
      (fun e he => isUnknown_of_isWhollyKnown (hknown e he)) horder
  obtain ⟨hback, htypes⟩ := h.echoed hwell hset (.of_same hset.same_refl)
    (isWhollyKnown_items.mpr hknown) fun _ => spelled_of_documented hvs
  rw [ofContent, typesRead, Bool.and_eq_true] at htypes
  have hread := typesReadEach_replicate_iff.mp htypes.2
  refine ⟨?_, fun e he => ⟨(hvs e he).1, (hvs e he).2, hread e he⟩⟩
  rw [hback, ← readBackEach_replicate]
  rfl

/-- An element whose text can be read: exponents are within the limit of the decoder, the key
reserved for unknowns is not used, nor is the name reserved for numbers as a first key. -/
structure PrintedAs (v : Value) (j : Json) : Prop where
  numbers : ∀ w, v.Contains w → ∀ n, w.asNumber? = some n →
    n.withinExponent Limits.default.maxNumberExponent
  reserved : v.Avoids unknownKey
  written : v.toJson .dynamic = .ok j
  readable : j.Readable

theorem itemsToJson_of_printed {js : List Json} (h : List.Forall₂ PrintedAs vs js) (i : Nat) :
    itemsToJson i (List.replicate vs.length .dynamic) vs = .ok js := by
  induction h generalizing i with
  | nil => rfl
  | cons hv _ ih =>
    simp only [List.length_cons, List.replicate_succ, itemsToJson, List.headD_cons, List.tail_cons,
      hv.written, ih, Except.map]

/-- A set of such values of documents is sent as JSON, unless its text nests too deep. -/
theorem exists_sent_json {js : List Json} (hvs : ∀ e ∈ vs, e.WellFormed ∧ e.Documented .dynamic)
    (horder : InSetOrder vs) (hprinted : List.Forall₂ PrintedAs vs js)
    (hnesting : (Json.array js).nesting ≤ Json.maxOpen) :
    ∃ w, Sent (.set .dynamic) (ofContent (.set .dynamic) (.items vs)) w Json.echo := by
  have hset : (Ty.set .dynamic).WellFormed := .set .dynamic
  have hknown (e : Value) (he : e ∈ vs) := (hvs e he).2.isWhollyKnown (hvs e he).1
  have hwell : (ofContent (.set .dynamic) (.items vs)).WellFormed :=
    .set .dynamic (fun e he => (hvs e he).1) (fun _ _ => .of_isDynamic rfl)
      (fun e he => isUnknown_of_isWhollyKnown (hknown e he)) horder
  have heach (e : Value) (he : e ∈ vs) := hprinted.exists_of_mem_left he
  have hportable : (ofContent (.set .dynamic) (.items vs)).Portable
      Limits.default.maxNumberExponent := by
    refine ⟨hwell, ?_, ?_, fun w hw r hr => ?_⟩
    · exact forall_contains_iff.mpr ⟨rfl, fun e he =>
        (hvs e he).2.hasCapsule_eq_false (hvs e he).1 .dynamic⟩
    · refine forall_contains_iff.mpr ⟨(fun _ h => by cases h), fun e he => ?_⟩
      obtain ⟨_, _, hj⟩ := heach e he
      exact hj.numbers
    · rw [refinement?_of_isWhollyKnown (isWhollyKnown_items.mpr hknown) w hw] at hr
      cases hr
  have hreserved : (ofContent (.set .dynamic) (.items vs)).Avoids unknownKey := by
    refine forall_contains_iff.mpr ⟨(fun _ h => by cases h), fun e he => ?_⟩
    obtain ⟨_, _, hj⟩ := heach e he
    exact hj.reserved
  have hwritten : (ofContent (.set .dynamic) (.items vs)).toJson (.set .dynamic) =
      .ok (.array js) := by
    rw [ofContent, Json.toJson_items rfl, itemsToJson_of_printed hprinted]
    rfl
  have hreadable : (Json.array js).Readable := by
    refine .array fun j hj => ?_
    obtain ⟨_, _, he⟩ := hprinted.exists_of_mem_right hj
    exact he.readable
  obtain ⟨j, hj⟩ := Json.exists_carries (by decide) hportable hreserved hset hset
    (.of_same hset.same_refl) hset.same_refl
  obtain rfl := Except.ok.inj (hj.written.symm.trans hwritten)
  have hdepth : Limits.default.maxDepth = 500 := rfl
  have hopen : Json.maxOpen = 127 := rfl
  have hdecoded : decodeJson .default (.set .dynamic)
      (Text.Utf8.ofString (Json.array js).compact) =
        .ok ((ofContent (.set .dynamic) (.items vs)).readBack Json.echo (.set .dynamic)) := by
    simp only [decodeJson, Json.readBytes_compact hreadable hnesting, hj.read 0 (by omega),
      Except.mapError]
  exact ⟨_, .json (congrArg (Except.map Json.compact) hwritten) hdecoded⟩

/-- The elements of a set whose order does not change on the way: the numbers inside them are
encoded as in the form that is read from text, and where elements are encoded alike, the names of
their types with attributes in key order are in the order of their names as declared. -/
structure KeepsOrder (vs : List Value) : Prop where
  numbers : ∀ v ∈ vs, ∀ x ∈ parts v.content, x.Steady Json.echo
  names : ∀ v ∈ vs, ∀ w ∈ vs, ownBytes? v = ownBytes? w → (Ord.compare v.ty.name w.ty.name).isLE →
    (Ord.compare v.ty.inKeyOrder.name w.ty.inKeyOrder.name).isLE

theorem KeepsOrder.pairwise (hkeeps : KeepsOrder vs) (hc : c.Faithful)
    (helements : ∀ e ∈ vs, e.Element c) (horder : InSetOrder vs) :
    (vs.map (readBack c .dynamic)).Pairwise fun v w => (v.compare w).isLE := by
  rw [List.pairwise_map]
  exact horder.ordered.imp_of_mem fun {v w} hv hw hvw =>
    (helements v hv).isLE_compare_readBack hc (helements w hw) (hkeeps.numbers v hv)
      (hkeeps.numbers w hw) (hkeeps.names v hv w hw) hvw

/-- It comes back as an equal set exactly if the elements are in order as they come back. -/
theorem Sent.beq_iff (hvs : ∀ e ∈ vs, e.WellFormed ∧ e.Documented .dynamic)
    (horder : InSetOrder vs)
    (h : Sent (.set .dynamic) (ofContent (.set .dynamic) (.items vs)) w c) :
    (w == ofContent (.set .dynamic) (.items vs)) ↔
      (vs.map (readBack c .dynamic)).Pairwise fun v w => (v.compare w).isLE := by
  obtain ⟨rfl, helements⟩ := h.elements hvs horder
  have hc := h.faithful
  exact (items_beq_iff (.set .dynamic)).trans <| canonicalSet_map_iff horder
    (fun e he => (hvs e he).1) (fun e he => ((helements e he).restored hc).wellFormed)
    (fun e he => ((helements e he).restored hc).same)
    fun v hv w hw => (helements v hv).compare_readBack_eq_eq hc (helements w hw)

/-! ### Records that are encoded alike -/

/-- A record of two attributes that are declared the other way round. -/
def record (a b : Value) : Value :=
  ofContent (.object [⟨"b", b.ty, false⟩, ⟨"a", a.ty, false⟩]) (.entries [("a", a), ("b", b)])

/-- The text of a record beside the text of its type. -/
def recordText (a b : Json) (t u : String) : Json :=
  .object [("value", .object [("a", a), ("b", b)]),
    ("type", .array [.string "object", .object [("a", .string t), ("b", .string u)]])]

/-- A value that holds no others, with its text and that of its type. -/
structure LeafAs (v : Value) (j : Json) (t : String) : Prop where
  alone : parts v.content = []
  noEntries : v.entries? = none
  numbers : ∀ n, v.asNumber? = some n → n.withinExponent Limits.default.maxNumberExponent
  written : v.toJson v.ty = .ok j
  type : v.ty.toJson = .ok (.string t)
  readable : j.Readable

variable {a b : Value} {j k : Json} {t u : String}

/-- In key order the attributes change places. -/
theorem inKeyOrder_turned (t u : Ty) : Attr.inKeyOrder [⟨"b", u, false⟩, ⟨"a", t, false⟩] =
    [⟨"a", t, false⟩, ⟨"b", u, false⟩] := by
  simp [Attr.inKeyOrder, List.mergeSort, List.MergeSort.Internal.splitInTwo]

/-- The members of a record, validated one by one. -/
theorem objectOf_record (a b : Value) : Native.objectOf (record a b).ty
    [⟨"b", b.ty, false⟩, ⟨"a", a.ty, false⟩] [(.string "b", .ok b), (.string "a", .ok a)] =
      .ok (record a b) := by
  have hnames : Native.gatherNames [] [(.string "b", .ok b), (.string "a", .ok a)] =
      .ok [("b", .ok b), ("a", .ok a)] := by rfl
  have hsorted : sortEntries [("b", b), ("a", a)] = [("a", a), ("b", b)] := by
    simp [sortEntries, List.mergeSort, List.MergeSort.Internal.splitInTwo]
  have hdeclared : Wire.undeclared? [⟨"b", b.ty, false⟩, ⟨"a", a.ty, false⟩] ["b", "a"] = none :=
    Wire.undeclared?_eq_none_iff.mpr (by simp)
  have hmembers : Ty.firstError (Native.declaredMembers
      [⟨"b", b.ty, false⟩, ⟨"a", a.ty, false⟩] [("b", .ok b), ("a", .ok a)]) =
        .ok [("b", b), ("a", a)] := rfl
  simp only [Native.objectOf, hnames, List.map, hdeclared, hmembers, Except.map, hsorted]
  rfl

theorem LeafAs.toJson_record (ha : a.LeafAs j t) (hb : b.LeafAs k u) :
    (record a b).toJson .dynamic = .ok (recordText j k t u) := by
  have hrequired : Attr.optionalNames
      [(⟨"b", b.ty, false⟩ : Attr Ty), ⟨"a", a.ty, false⟩] = [] := by
    simp [Attr.optionalNames, Attr.sortedNames]
  have htype : (Ty.object [⟨"b", b.ty, false⟩, ⟨"a", a.ty, false⟩]).toJson =
      .ok (.array [.string "object", .object [("a", .string t), ("b", .string u)]]) := by
    rw [Ty.toJson_object, inKeyOrder_turned, hrequired]
    simp only [List.map, Ty.firstError, ha.type, hb.type]
    rfl
  have hfields : entriesToJson (fun k => (Attr.find? [⟨"b", b.ty, false⟩, ⟨"a", a.ty, false⟩] k).map
      (·.ty)) [("a", a), ("b", b)] = .ok [("a", j), ("b", k)] := by
    simp [entriesToJson, Attr.find?, ha.written, hb.written, Except.map]
  simp only [record, ofContent, toJson, wrapJson, htype]
  simp [Ty.isDynamic, Ty.slotType, hfields, unlessReserved, unknownKey, recordText, Except.map]

theorem readable_pair {x y : String} (hxy : x ≠ y) (hx : x ≠ Json.numberName) (hj : j.Readable)
    (hk : k.Readable) : (Json.object [(x, j), (y, k)]).Readable := by
  refine .object (by simpa using hxy) (fun f hf => ?_) (by simp [hj, hk])
  obtain rfl := Option.some.inj hf
  exact hx

theorem readable_recordText (hj : j.Readable) (hk : k.Readable) (t u : String) :
    (recordText j k t u).Readable := by
  have hnames : (Json.object [("a", .string t), ("b", .string u)]).Readable :=
    readable_pair (by decide) (by decide) (.string t) (.string u)
  refine readable_pair (by decide) (by decide)
    (readable_pair (by decide) (by decide) hj hk) (.array ?_)
  simpa using ⟨.string "object", hnames⟩

/-- What stands in a record of two values that hold no others. -/
theorem forall_contains_record {P : Value → Prop} (ha : a.LeafAs j t) (hb : b.LeafAs k u) :
    (∀ w, (record a b).Contains w → P w) ↔ P (record a b) ∧ P a ∧ P b := by
  have hleaf {v : Value} (hv : parts v.content = []) : (∀ w, v.Contains w → P w) ↔ P v := by
    simp [forall_contains_iff (v := v), hv]
  rw [forall_contains_iff]
  simp [record, ofContent, parts, hleaf ha.alone, hleaf hb.alone]

/-- The text of a record can be read. -/
theorem LeafAs.printedAs (ha : a.LeafAs j t) (hb : b.LeafAs k u) :
    (record a b).PrintedAs (recordText j k t u) where
  numbers := (forall_contains_record ha hb).mpr ⟨nofun, ha.numbers, hb.numbers⟩
  reserved := by
    refine (forall_contains_record ha hb).mpr
      ⟨fun es hes => ?_, by simp [ha.noEntries], by simp [hb.noEntries]⟩
    obtain rfl := Option.some.inj hes
    simp [unknownKey]
  written := ha.toJson_record hb
  readable := readable_recordText ha.readable hb.readable t u

theorem leafAs_string (s : String) : (string s).LeafAs (.string s) "string" :=
  ⟨rfl, rfl, nofun, rfl, rfl, .string s⟩

/-- A number that is encoded like a text. -/
def tenth : Value := .number ⟨1, 1⟩

/-- The text that is encoded like a number. -/
def tenthText : Value := .string "0.1"

theorem leafAs_number {n : Decimal} (hn : n.withinExponent Limits.default.maxNumberExponent) :
    (number n).LeafAs (.number n.plain) "number" :=
  ⟨rfl, rfl, fun _ hk => Option.some.inj hk ▸ hn, rfl, rfl, .number (Json.Token.isNumber_plain n)⟩

theorem printedAs_number {n : Decimal} (hn : n.withinExponent Limits.default.maxNumberExponent) :
    (number n).PrintedAs (.object [("value", .number n.plain), ("type", .string "number")]) where
  numbers := forall_contains_iff.mpr ⟨(leafAs_number hn).numbers, nofun⟩
  reserved := forall_contains_iff.mpr ⟨nofun, nofun⟩
  written := rfl
  readable := readable_pair (by decide) (by decide) (leafAs_number hn).readable (.string _)

theorem steady_tenth : tenth.Steady Json.echo := by
  refine forall_contains_iff.mpr ⟨fun n hn => ?_, nofun⟩
  obtain rfl := Option.some.inj hn
  exact congrArg Msgpack.ofNumber (by decide +kernel : Decimal.written ⟨1, 1⟩ = ⟨1, 1⟩)

theorem steady_tenthText : tenthText.Steady Json.echo := steady_of_asNumber? rfl nofun

/-! ### Sets over the wire -/

/-- A JSON array that is validated as a set of `dynamic` elements, encoded and decoded in either
format has the same elements. It is an equal set exactly if the elements, each as it comes back, are
in the order in which they stood, as they are if the encodings of numbers and the order of the names
of types are kept. -/
theorem set_dynamic_comes_back {js : List Json}
    (h : (Native.ofJson (.array js)).validate .default (.set .dynamic) = .ok v)
    (hsent : Sent (.set .dynamic) v w c) :
    ((∀ x ∈ parts v.content, ∃ y ∈ parts w.content, y == x) ∧
        ∀ y ∈ parts w.content, ∃ x ∈ parts v.content, y == x) ∧
      (w == v ↔ ((parts v.content).map (readBack c .dynamic)).Pairwise
        fun x y => (x.compare y).isLE) ∧
      (KeepsOrder (parts v.content) → w == v) := by
  obtain ⟨vs, rfl, horder, hvs⟩ := exists_of_validate_set h
  have hequal := hsent.beq_iff hvs horder
  obtain ⟨rfl, helements⟩ := hsent.elements hvs horder
  have hc := hsent.faithful
  exact ⟨mem_canonicalSet_map (fun e he => ((helements e he).restored hc).wellFormed)
    fun e he => ((helements e he).restored hc).same, hequal,
    fun hkeeps => hequal.mpr (hkeeps.pairwise hc helements horder)⟩

/-- A record comes back beside a number. -/
theorem set_dynamic_comes_back_record :
    ∃ v w, (Native.ofJson (.array [.object [("b", .string "0.1"), ("a", .number "0.1")],
        .number "1"])).validate .default (.set .dynamic) = .ok v ∧
      Sent (.set .dynamic) v w Json.echo ∧ w == v := by
  have hvalid : (Native.ofJson (.array [.object [("b", .string "0.1"), ("a", .number "0.1")],
      .number "1"])).validate .default (.set .dynamic) =
        .ok (ofContent (.set .dynamic) (.items [.number ⟨1, 0⟩, record tenth tenthText])) := by
    have hrecord : Native.validateAt .default 1 .dynamic
        (Native.ofJson (.object [("b", .string "0.1"), ("a", .number "0.1")])) =
          .ok (record tenth tenthText) := objectOf_record tenth tenthText
    have hone : Native.validateAt .default 1 .dynamic (Native.ofJson (.number "1")) =
      .ok (.number ⟨1, 0⟩) := by rfl
    rw [validate_set_eq (.cons hrecord (.cons hone .nil)) (by rfl),
      canonicalSet_pair (by rfl) (by rfl)]
  obtain ⟨_, heq, horder, hvs⟩ := exists_of_validate_set hvalid
  cases heq
  have hprinted : (record tenth tenthText).PrintedAs _ :=
    (leafAs_number (by decide)).printedAs (leafAs_string _)
  obtain ⟨w, hsent⟩ := exists_sent_json hvs horder
    (.cons (printedAs_number (by decide)) (.cons hprinted .nil)) (by decide)
  refine ⟨_, w, hvalid, hsent, (set_dynamic_comes_back hvalid hsent).2.2 ⟨?_, ?_⟩⟩
  · simp only [ofContent, parts, List.forall_mem_cons]
    refine ⟨List.forall_mem_nil _, ?_, List.forall_mem_nil _⟩
    simp [record, ofContent, steady_tenth, steady_tenthText]
  · simp only [ofContent, parts, List.forall_mem_cons]
    -- The number and the record are encoded differently, so either may come first.
    have hbytes : ownBytes? (.number ⟨1, 0⟩) ≠ ownBytes? (record tenth tenthText) := by
      decide +kernel
    exact ⟨⟨fun _ _ => Std.ReflCmp.isLE_rfl, fun h => absurd h hbytes, List.forall_mem_nil _⟩,
      ⟨fun h => absurd h.symm hbytes, fun _ _ => Std.ReflCmp.isLE_rfl, List.forall_mem_nil _⟩,
      List.forall_mem_nil _⟩

/-- Two records that are declared against key order change places. -/
theorem set_dynamic_comes_back_turned :
    ∃ v, (Native.ofJson (.array [.object [("b", .string "0.1"), ("a", .number "0.1")],
        .object [("b", .number "0.1"), ("a", .string "0.1")]])).validate .default
          (.set .dynamic) = .ok v ∧
      (∃ w, Sent (.set .dynamic) v w Json.echo) ∧
      ∀ c w, Sent (.set .dynamic) v w c → (w == v) = false := by
  let x := record tenthText tenth
  let y := record tenth tenthText
  have hx : Native.validateAt .default 1 .dynamic
      (Native.ofJson (.object [("b", .number "0.1"), ("a", .string "0.1")])) = .ok x :=
    objectOf_record tenthText tenth
  have hy : Native.validateAt .default 1 .dynamic
      (Native.ofJson (.object [("b", .string "0.1"), ("a", .number "0.1")])) = .ok y :=
    objectOf_record tenth tenthText
  have hvalid := validate_set_eq (.cons hy (.cons hx .nil)) (by rfl)
  rw [canonicalSet_pair (by decide +kernel) (by decide +kernel)] at hvalid
  obtain ⟨_, heq, horder, hvs⟩ := exists_of_validate_set hvalid
  cases heq
  have htenth : tenth.LeafAs _ _ := leafAs_number (by decide)
  have htext : tenthText.LeafAs _ _ := leafAs_string _
  refine ⟨_, hvalid, exists_sent_json hvs horder
    (.cons (htext.printedAs htenth) (.cons (htenth.printedAs htext) .nil)) (by decide),
    fun c w hsent => ?_⟩
  have hc := hsent.faithful
  have helements := (hsent.elements hvs horder).2
  -- They are encoded alike, and the names of their types are the other way round in key order.
  obtain ⟨bytes, bytes', hbytes, hbytes', hcompare⟩ :=
    (helements x (by simp)).compare_readBack hc (helements y (by simp)) rfl rfl
      (by simp [x, record, ofContent, parts, steady_tenth, steady_tenthText])
      (by simp [y, record, ofContent, parts, steady_tenth, steady_tenthText])
  have halike : ownBytes? x = ownBytes? y := by decide +kernel
  obtain rfl : bytes = bytes' := Option.some.inj (hbytes.symm.trans (halike.trans hbytes'))
  have hnames : Ord.compare x.ty.inKeyOrder.name y.ty.inKeyOrder.name = .gt := by
    simp only [x, y, record, ofContent, Ty.inKeyOrder, Ty.inKeyOrderAttrs, inKeyOrder_turned]
    decide +kernel
  rw [Std.ReflOrd.compare_self, Ordering.eq_then, hnames] at hcompare
  rw [Bool.eq_false_iff]
  intro hequal
  have hpair := (hsent.beq_iff hvs horder).mp hequal
  simp only [List.map_cons, List.pairwise_cons, List.mem_cons, forall_eq_or_imp, hcompare] at hpair
  exact absurd hpair.1.1 (by decide)

end TypedData.Value
