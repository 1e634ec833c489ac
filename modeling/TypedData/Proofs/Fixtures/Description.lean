import Mathlib.Data.Fintype.EquivFin
import TypedData.Fixtures.Description
import TypedData.Proofs.Decimal.Rational
import TypedData.Proofs.Value.Slots
import TypedData.Proofs.Value.WhollyKnown

/-!
# What a description says

A description says of a value what it holds: the entries of a description of a set correspond one
to one to the elements, in any order. Checking a value looks for some element for each entry, and
for as many elements as there are entries. It accepts all that is described. What it accepts is
described if no two entries fit the same element, and only then if no entry fits two elements.

## Main definitions

* `Value.Describes` — what a description says of a value
* `Value.Faces`, `Value.HeldAgainst` — what is compared when a value is checked
* `Value.EachOnce`, `Value.Definite` — no two entries fit one element, no entry fits two

## Main results

* `Value.Describes.describedBy` — what is described is accepted
* `Value.describes_of_describedBy` — what is accepted is described where each element fits one entry
* `Value.describes_iff_describedBy` — both, and what the condition is good for
-/

namespace TypedData

/-! ### Partners -/

section Exclusive

variable {α β : Type} {R : α → β → Prop} {as : List α} {bs : List β}

/-- No two of several items are related to the same one of others. -/
def Exclusive (R : α → β → Prop) (as : List α) (bs : List β) : Prop :=
  ∀ b ∈ bs, ∀ i k : Fin as.length, R as[i] b → R as[k] b → i = k

instance [DecidableRel R] : Decidable (Exclusive R as bs) :=
  inferInstanceAs (Decidable (∀ b ∈ bs, ∀ i k : Fin as.length, R as[i] b → R as[k] b → i = k))

/-- Items of which each is related to some, and no two to the same, of equally many others are
partners of these. -/
theorem Exclusive.exists_equiv (h : Exclusive R as bs) (hlength : as.length = bs.length)
    (hsome : ∀ a ∈ as, ∃ b ∈ bs, R a b) :
    ∃ partner : Fin as.length ≃ Fin bs.length, ∀ i, R as[i] bs[partner i] := by
  have hindex (i : Fin as.length) : ∃ k : Fin bs.length, R as[i] bs[k] := by
    obtain ⟨b, hb, hab⟩ := hsome as[i] (List.getElem_mem _)
    obtain ⟨k, hk, rfl⟩ := List.getElem_of_mem hb
    exact ⟨⟨k, hk⟩, hab⟩
  choose f hf using hindex
  have hinjective : Function.Injective f := by
    intro i k heq
    exact h bs[f i] (List.getElem_mem _) i k (hf i) (heq ▸ hf k)
  have hbijective : Function.Bijective f :=
    (Fintype.bijective_iff_injective_and_card f).mpr ⟨hinjective, by simpa using hlength⟩
  exact ⟨Equiv.ofBijective f hbijective, hf⟩

/-- Partners are related to nothing else if nothing else is related to them. -/
theorem exclusive_of_equiv (partner : Fin as.length ≃ Fin bs.length)
    (hpartner : ∀ i, R as[i] bs[partner i]) (h : Exclusive (flip R) bs as) :
    Exclusive R as bs := by
  intro b hb i k hi hk
  obtain ⟨l, hl, rfl⟩ := List.getElem_of_mem hb
  have hil := h as[i] (List.getElem_mem _) (partner i) ⟨l, hl⟩ (hpartner i) hi
  have hkl := h as[k] (List.getElem_mem _) (partner k) ⟨l, hl⟩ (hpartner k) hk
  exact partner.injective (hil.trans hkl.symm)

end Exclusive

namespace Value

variable {j x y : Json} {v w u : Value} {ty : Ty} {m : Marks} {js : List Json} {vs : List Value}
  {fields : List (String × Json)} {es : Entries Value}

/-! ### The meaning of a description -/

/-- What a description says of a value. An object that stands for an unknown value describes
nothing else, and an entry without a description is null. -/
inductive Describes : Json → Value → Prop
  | null {ty : Ty} {m : Marks} : Describes .null ⟨ty, .null, m⟩
  | bool {b : Bool} {m : Marks} : Describes (.bool b) ⟨.bool, .bool b, m⟩
  | number {j : Json} {text : String} {n d : Decimal} {m : Marks}
      (numeral : j = .string text ∨ j = .number text)
      (reads : Decimal.ofText text Decimal.defaultMaxExponent = .ok n)
      (value : n.toRat = d.toRat) : Describes j ⟨.number, .number d, m⟩
  | string {s : String} {m : Marks} : Describes (.string s) ⟨.string, .string s, m⟩
  | sequence {ty : Ty} {js : List Json} {vs : List Value} {m : Marks} (type : ty.isSet = false)
      (length : js.length = vs.length)
      (members : ∀ (i : Nat) j v, js[i]? = some j → vs[i]? = some v → Describes j v) :
      Describes (.array js) ⟨ty, .items vs, m⟩
  | set {t : Ty} {js : List Json} {vs : List Value} {m : Marks}
      (partner : Fin js.length ≃ Fin vs.length)
      (members : ∀ i, Describes js[i] vs[partner i]) : Describes (.array js) ⟨.set t, .items vs, m⟩
  | entries {ty : Ty} {fields : List (String × Json)} {es : Entries Value} {m : Marks}
      (known : describesUnknown (.object fields) = false)
      (keys : ∀ f ∈ fields, Entries.hasKey es f.1)
      (members : ∀ e ∈ es, Describes ((Json.field? fields e.1).getD .null) e.2) :
      Describes (.object fields) ⟨ty, .entries es, m⟩

/-! ### Checking step by step -/

theorem describesSome_iff : describesSome j vs ↔ ∃ v ∈ vs, v.describedBy j := by
  induction vs with
  | nil => simp [describesSome]
  | cons v vs ih => simp [describesSome, ih]

theorem describesEach_iff : describesEach js vs ↔
    ∀ (i : Nat) (j : Json) (v : Value), js[i]? = some j → vs[i]? = some v → v.describedBy j := by
  induction js generalizing vs with
  | nil => simp [describesEach]
  | cons x js ih =>
    cases vs with
    | nil => simp [describesEach]
    | cons w vs =>
      rw [describesEach, Bool.and_eq_true, ih]
      constructor
      · rintro ⟨hx, h⟩ (_ | i) j v hj hv
        · cases hj
          cases hv
          exact hx
        · exact h i j v hj hv
      · intro h
        exact ⟨h 0 x w rfl rfl, fun i j v hj hv => h (i + 1) j v hj hv⟩

theorem describesEntries_iff : describesEntries fields es ↔
    ∀ e ∈ es, e.2.describedBy ((Json.field? fields e.1).getD .null) := by
  induction es with
  | nil => simp [describesEntries]
  | cons e es ih => simp [describesEntries, ih]

theorem describedBy_null_iff : describedBy j ⟨ty, .null, m⟩ ↔ j = .null := by
  cases j <;> simp [describedBy, describesUnknown, describesNull]

theorem describedBy_bool_iff {b : Bool} : describedBy j ⟨.bool, .bool b, m⟩ ↔ j = .bool b := by
  cases j <;> simp [describedBy, describesUnknown, describesNull, scalarDescribedBy, Json.asBool?,
    asBool?]

theorem describedBy_string_iff {s : String} :
    describedBy j ⟨.string, .string s, m⟩ ↔ j = .string s := by
  cases j <;> simp [describedBy, describesUnknown, describesNull, scalarDescribedBy, Json.asString?,
    asString?]

theorem describedBy_number_iff {d : Decimal} : describedBy j ⟨.number, .number d, m⟩ ↔
    ∃ text n, (j = .string text ∨ j = .number text) ∧
      Decimal.ofText text Decimal.defaultMaxExponent = .ok n ∧ n.toRat = d.toRat := by
  have hread (text : String) : sameNumber
      (Decimal.ofText text Decimal.defaultMaxExponent).toOption (some d) ↔
        ∃ n, Decimal.ofText text Decimal.defaultMaxExponent = .ok n ∧ n.toRat = d.toRat := by
    cases Decimal.ofText text Decimal.defaultMaxExponent <;>
      simp [Except.toOption, sameNumber, Decimal.same_iff]
  cases j <;> simp [describedBy, describesUnknown, describesNull, scalarDescribedBy,
    describedNumber?, asNumber?, hread]

theorem describedBy_set_iff {t : Ty} : describedBy j ⟨.set t, .items vs, m⟩ ↔
    ∃ js, j = .array js ∧ js.length = vs.length ∧ ∀ x ∈ js, ∃ w ∈ vs, w.describedBy x := by
  cases j <;> simp [describedBy, describesSome_iff]

theorem describedBy_sequence_iff (hv : WellFormed ⟨ty, .items vs, m⟩) (hty : ty.isSet = false) :
    describedBy j ⟨ty, .items vs, m⟩ ↔ ∃ js, j = .array js ∧ js.length = vs.length ∧
      ∀ (i : Nat) (x : Json) (w : Value), js[i]? = some x → vs[i]? = some w → w.describedBy x := by
  cases hv with
  | set => cases hty
  | list | tuple => cases j <;> simp [describedBy, describesEach_iff]

theorem describedBy_entries_iff (hv : WellFormed ⟨ty, .entries es, m⟩) :
    describedBy j ⟨ty, .entries es, m⟩ ↔ ∃ fields, j = .object fields ∧
      describesUnknown j = false ∧ (∀ f ∈ fields, Entries.hasKey es f.1) ∧
        ∀ e ∈ es, e.2.describedBy ((Json.field? fields e.1).getD .null) := by
  cases hv <;> cases j <;> simp [describedBy, describesEntries_iff]

/-! ### What is compared -/

/-- What is held against each other inside when a description is held against a value: entries and
elements of a set that fit, and what stands in the same place otherwise. -/
inductive Faces : Json → Value → Json → Value → Prop
  | element {t : Ty} {js : List Json} {vs : List Value} {m : Marks} {x : Json} {w : Value}
      (entry : x ∈ js) (elem : w ∈ vs) (fits : w.describedBy x) :
      Faces (.array js) ⟨.set t, .items vs, m⟩ x w
  | item {ty : Ty} {js : List Json} {vs : List Value} {m : Marks} {i : Nat} {x : Json} {w : Value}
      (type : ty.isSet = false) (entry : js[i]? = some x) (elem : vs[i]? = some w) :
      Faces (.array js) ⟨ty, .items vs, m⟩ x w
  | entry {ty : Ty} {fields : List (String × Json)} {es : Entries Value} {m : Marks}
      {e : String × Value} (elem : e ∈ es) :
      Faces (.object fields) ⟨ty, .entries es, m⟩ ((Json.field? fields e.1).getD .null) e.2

/-- What is compared, at any depth, when a description is held against a value. -/
inductive HeldAgainst : Json → Value → Json → Value → Prop
  | whole {j : Json} {v : Value} : HeldAgainst j v j v
  | inside {j x y : Json} {v w u : Value} (step : Faces j v x w) (rest : HeldAgainst x w y u) :
      HeldAgainst j v y u

/-- What holds of the entries and the elements of every set that is compared. -/
def EverySet (P : List Json → List Value → Prop) (j : Json) (v : Value) : Prop :=
  ∀ js t vs m, HeldAgainst j v (.array js) ⟨.set t, .items vs, m⟩ → P js vs

/-- No two entries of a description of a set fit the same element. -/
def EachOnce : Json → Value → Prop :=
  EverySet fun js vs => Exclusive (fun x w => w.describedBy x) js vs

/-- No entry of a description of a set fits two elements. -/
def Definite : Json → Value → Prop :=
  EverySet fun js vs => Exclusive (fun w x => w.describedBy x) vs js

section EverySet

variable {P : List Json → List Value → Prop}

theorem EverySet.inside (h : EverySet P j v) (hface : Faces j v x w) : EverySet P x w :=
  fun js t vs m hheld => h js t vs m (.inside hface hheld)

/-- Something holds of every set if it holds of the whole, in case that is a set, and of all sets
inside. -/
theorem everySet_of_faces
    (hset : ∀ js t vs m, j = .array js → v = ⟨.set t, .items vs, m⟩ → P js vs)
    (hinside : ∀ x w, Faces j v x w → EverySet P x w) : EverySet P j v := by
  intro js t vs m hheld
  cases hheld with
  | whole => exact hset js t vs m rfl rfl
  | inside hface hrest => exact hinside _ _ hface js t vs m hrest

theorem Faces.mem_parts (h : Faces j v x w) : w ∈ parts v.content := by
  cases h with
  | element _ hw => exact hw
  | item _ _ hw => exact List.mem_of_getElem? hw
  | entry he => exact List.mem_map_of_mem he

theorem everySet_of_parts_eq_nil (hempty : ∀ js, P js []) (h : parts v.content = []) :
    EverySet P j v := by
  refine everySet_of_faces (fun js t vs m _ hset => ?_) fun x w hface => ?_
  · subst hset
    obtain rfl : vs = [] := h
    exact hempty js
  · exact absurd (h ▸ hface.mem_parts) List.not_mem_nil

end EverySet

theorem eachOnce_of_parts_eq_nil (h : parts v.content = []) : EachOnce j v :=
  everySet_of_parts_eq_nil (fun _ _ hw => absurd hw List.not_mem_nil) h

/-! ### Acceptance and meaning -/

/-- What is described is accepted. -/
theorem Describes.describedBy (h : Describes j v) (hv : v.WellFormed) : v.describedBy j := by
  induction h with
  | null => exact describedBy_null_iff.mpr rfl
  | bool => exact describedBy_bool_iff.mpr rfl
  | string => exact describedBy_string_iff.mpr rfl
  | number numeral reads value =>
    exact describedBy_number_iff.mpr ⟨_, _, numeral, reads, value⟩
  | sequence type length _ ih =>
    refine (describedBy_sequence_iff hv type).mpr ⟨_, rfl, length, fun i x w hx hw => ?_⟩
    exact ih i x w hx hw (hv.of_mem_parts (List.mem_of_getElem? hw))
  | @set t js vs m partner _ ih =>
    refine describedBy_set_iff.mpr ⟨js, rfl, Fin.equiv_iff_eq.mp ⟨partner⟩, fun x hx => ?_⟩
    obtain ⟨i, hi, rfl⟩ := List.getElem_of_mem hx
    have hmem := List.getElem_mem (partner ⟨i, hi⟩).isLt
    exact ⟨_, hmem, ih ⟨i, hi⟩ (hv.of_mem_parts hmem)⟩
  | entries known keys _ ih =>
    refine (describedBy_entries_iff hv).mpr ⟨_, rfl, known, keys, fun e he => ?_⟩
    exact ih e he (hv.of_mem_parts (List.mem_map_of_mem he))

/-- What is accepted is described if no two entries fit the same element of a set. -/
theorem describes_of_describedBy (hv : v.WellFormed) (hknown : v.isWhollyKnown)
    (h : v.describedBy j) (honce : EachOnce j v) : Describes j v := by
  induction v using Value.induction generalizing j with
  | null ty m =>
    obtain rfl := describedBy_null_iff.mp h
    exact .null
  | unknown => cases hknown
  | bool ty b m =>
    cases hv
    obtain rfl := describedBy_bool_iff.mp h
    exact .bool
  | number ty n m =>
    cases hv
    obtain ⟨text, n, numeral, reads, value⟩ := describedBy_number_iff.mp h
    exact .number numeral reads value
  | string ty s m =>
    cases hv
    obtain rfl := describedBy_string_iff.mp h
    exact .string
  | items ty vs m ih =>
    -- What is held against a member and fits it describes it.
    have hmember {x : Json} {w : Value} (hw : w ∈ vs) (hx : w.describedBy x)
        (hface : Faces j ⟨ty, .items vs, m⟩ x w) : Describes x w :=
      ih w hw (hv.of_mem_parts hw) (isWhollyKnown_items.mp hknown w hw) hx (honce.inside hface)
    cases hty : ty.isSet with
    | false =>
      obtain ⟨js, rfl, hlength, hitems⟩ := (describedBy_sequence_iff hv hty).mp h
      refine .sequence hty hlength fun i x w hx hw => ?_
      exact hmember (List.mem_of_getElem? hw) (hitems i x w hx hw) (.item hty hx hw)
    | true =>
      cases ty <;> cases hty
      obtain ⟨js, rfl, hlength, hsome⟩ := describedBy_set_iff.mp h
      -- As many elements as entries, and no element twice: every element has its entry.
      obtain ⟨partner, hpartner⟩ := (honce js _ vs m .whole).exists_equiv hlength hsome
      refine .set partner fun i => hmember (List.getElem_mem _) (hpartner i) ?_
      exact .element (List.getElem_mem _) (List.getElem_mem _) (hpartner i)
  | entries ty es m ih =>
    obtain ⟨fields, rfl, hplain, hkeys, hentries⟩ := (describedBy_entries_iff hv).mp h
    refine .entries hplain hkeys fun e he => ?_
    exact ih e he (hv.of_mem_parts (List.mem_map_of_mem he))
      (isWhollyKnown_entries.mp hknown e he) (hentries e he) (honce.inside (.entry he))
  | capsule ty c m =>
    cases hv
    simp [describedBy, scalarDescribedBy] at h

/-- In what is described no two entries fit the same element of a set if no entry fits two. -/
theorem Describes.eachOnce (h : Describes j v) (hv : v.WellFormed) (hdefinite : Definite j v) :
    EachOnce j v := by
  induction h with
  | null | bool | number | string => exact eachOnce_of_parts_eq_nil rfl
  | sequence type _ _ ih =>
    refine everySet_of_faces (fun js t vs m _ hset => ?_) fun x w hface => ?_
    · cases hset
      cases type
    · have hinner := hdefinite.inside hface
      cases hface with
      | element => cases type
      | item _ hx hw => exact ih _ x w hx hw (hv.of_mem_parts (List.mem_of_getElem? hw)) hinner
  | @set t js vs m partner hmembers ih =>
    have hwell {w : Value} (hw : w ∈ vs) : w.WellFormed := hv.of_mem_parts hw
    have hfits (i : Fin js.length) : (vs[partner i]).describedBy js[i] :=
      (hmembers i).describedBy (hwell (List.getElem_mem _))
    have hentries := hdefinite js t vs m .whole
    refine everySet_of_faces (fun _ _ _ _ hjs hvs => ?_) fun x w hface => ?_
    · cases hjs
      cases hvs
      exact exclusive_of_equiv partner hfits hentries
    · have hinner := hdefinite.inside hface
      cases hface with
      | item type => cases type
      | element hx hw hxw =>
        -- The entry fits its partner, hence only that.
        obtain ⟨i, hi, rfl⟩ := List.getElem_of_mem hx
        obtain ⟨k, hk, rfl⟩ := List.getElem_of_mem hw
        have hpartner := hentries _ hx ⟨k, hk⟩ (partner ⟨i, hi⟩) hxw (hfits ⟨i, hi⟩)
        obtain rfl : k = partner ⟨i, hi⟩ := congrArg Fin.val hpartner
        exact ih ⟨i, hi⟩ (hwell hw) hinner
  | entries _ _ _ ih =>
    refine everySet_of_faces nofun fun x w hface => ?_
    have hinner := hdefinite.inside hface
    cases hface with
    | entry he => exact ih _ he (hv.of_mem_parts (List.mem_map_of_mem he)) hinner

/-- Whatever is described is accepted. Where no two entries fit the same element of a set, whatever
is accepted is described. That condition cannot be dropped where no entry fits two elements. -/
theorem describes_iff_describedBy (hv : v.WellFormed) (hknown : v.isWhollyKnown) :
    (Describes j v → v.describedBy j) ∧
      (EachOnce j v → (v.describedBy j ↔ Describes j v)) ∧
      (Definite j v → (Describes j v ↔ v.describedBy j ∧ EachOnce j v)) := by
  refine ⟨(·.describedBy hv), fun honce => ⟨fun h => ?_, (·.describedBy hv)⟩,
    fun hdefinite => ⟨fun h => ⟨h.describedBy hv, h.eachOnce hv hdefinite⟩, ?_⟩⟩
  · exact describes_of_describedBy hv hknown h honce
  · rintro ⟨h, honce⟩
    exact describes_of_describedBy hv hknown h honce

/-- The set of two numbers. -/
def oneAndTwo : Value := ⟨.set .number, .items [.number ⟨1, 0⟩, .number ⟨2, 0⟩], .empty⟩

theorem wellFormed_oneAndTwo : oneAndTwo.WellFormed := by
  refine .set .number ?_ ?_ ?_ ⟨by decide +kernel, by decide +kernel⟩ <;>
    refine List.forall_mem_pair.mpr ⟨?_, ?_⟩
  · exact .number
  · exact .number
  · exact .of_same rfl
  · exact .of_same rfl
  · rfl
  · rfl

/-- A description of that set, in another order and notation. -/
def twoAndOne : Json := .array [.number "2.0", .string "1"]

/-- What holds of the set and its description holds of every set in an object with that set and an
attribute without one. -/
theorem everySet_twoAndOne {P : List Json → List Value → Prop} {attrs : List (Attr Ty)}
    (hempty : ∀ js, P js [])
    (hset : P [.number "2.0", .string "1"] [.number ⟨1, 0⟩, .number ⟨2, 0⟩]) :
    EverySet P (.object [("s", twoAndOne)])
      ⟨.object attrs, .entries [("n", .null .string), ("s", oneAndTwo)], .empty⟩ := by
  refine everySet_of_faces nofun fun x w hface => ?_
  cases hface with
  | entry he =>
    rcases List.mem_pair.mp he with rfl | rfl
    · exact everySet_of_parts_eq_nil hempty rfl
    · refine everySet_of_faces (fun js t vs m hjs hvs => ?_) fun x w hface => ?_
      · cases hjs
        cases hvs
        exact hset
      · rcases List.mem_pair.mp hface.mem_parts with rfl | rfl <;>
          exact everySet_of_parts_eq_nil hempty rfl

/-- An object with that set and with an attribute that the description leaves out, since it is
null. -/
theorem describes_iff_describedBy_object :
    let v : Value := ⟨.object [⟨"n", .string, false⟩, ⟨"s", .set .number, false⟩],
      .entries [("n", .null .string), ("s", oneAndTwo)], .empty⟩
    let j := Json.object [("s", twoAndOne)]
    v.WellFormed ∧ v.isWhollyKnown ∧ EachOnce j v ∧ Definite j v ∧ v.describedBy j ∧
      Describes j v := by
  intro v j
  have hv : v.WellFormed := by
    have hkeys :
        Attr.sortedNames [⟨"n", Ty.string, false⟩, ⟨"s", .set .number, false⟩] = ["n", "s"] :=
      List.mergeSort_of_pairwise (by decide)
    refine .object (.object (by decide) ?_ ?_) ?_ hkeys.symm ?_
    · exact List.forall_mem_pair.mpr ⟨by decide +kernel, by decide +kernel⟩
    · exact List.forall_mem_pair.mpr ⟨.string, .set .number⟩
    · exact List.forall_mem_pair.mpr ⟨.null .string, wellFormed_oneAndTwo⟩
    · refine List.forall_mem_pair.mpr ⟨fun a ha => ?_, fun a ha => ?_⟩
      · obtain rfl := Option.some.inj ha
        exact .of_same rfl
      · obtain rfl := Option.some.inj ha
        exact .of_same rfl
  have honce : EachOnce j v :=
    everySet_twoAndOne (fun _ _ hw => absurd hw List.not_mem_nil) (by decide +kernel)
  have hdefinite : Definite j v :=
    everySet_twoAndOne (fun _ _ _ i => i.elim0) (by decide +kernel)
  have haccepted : v.describedBy j := by decide +kernel
  have hknown : v.isWhollyKnown := by decide
  exact ⟨hv, hknown, honce, hdefinite, haccepted,
    ((describes_iff_describedBy hv hknown).2.2 hdefinite).mpr ⟨haccepted, honce⟩⟩

/-- A description that gives one element of a set twice and leaves out the other is accepted. -/
theorem describedBy_of_repeated :
    let j := Json.array [.string "1", .string "1"]
    oneAndTwo.WellFormed ∧ oneAndTwo.CapsuleFree ∧ oneAndTwo.isWhollyKnown ∧
      oneAndTwo.describedBy j ∧ ¬ Describes j oneAndTwo := by
  intro j
  have hleaf {n : Decimal} : (Value.number n).CapsuleFree := capsuleFree_iff.mpr ⟨nofun, nofun⟩
  refine ⟨wellFormed_oneAndTwo, capsuleFree_iff.mpr ⟨nofun, ?_⟩, by decide, by decide +kernel, ?_⟩
  · exact List.forall_mem_pair.mpr ⟨hleaf, hleaf⟩
  · intro h
    simp only [j, oneAndTwo] at h
    cases h with
    | sequence type => cases type
    | set partner members =>
      -- Whatever entry is the partner of the second element does not fit it.
      have hnone : ∀ i : Fin 2, ¬ (Value.number ⟨2, 0⟩).describedBy
          [Json.string "1", .string "1"][i] := by decide +kernel
      obtain ⟨i, hi⟩ := partner.surjective (1 : Fin 2)
      have hmember := members i
      simp only [hi] at hmember
      exact hnone i (hmember.describedBy .number)

end Value

end TypedData
