import TypedData.Proofs.Json.Induction
import TypedData.Proofs.Validation
import TypedData.Proofs.Value.Slots
import TypedData.Proofs.Value.WhollyKnown

/-!
# Values of JSON documents

A JSON document has arrays and objects only, and so do the types that are inferred for it. What it
becomes as a value under such a type holds neither sets nor maps nor tuples, neither capsules nor
unknowns, and a null in it has the type of its place.

## Main definitions

* `Ty.JsonLike` — types of JSON documents
* `Value.Documented` — values of JSON documents, in slots of such types

## Main results

* `Native.jsonLike_inferAt` — the type of a document is of this kind
* `Native.documented_validateAt` — a document becomes such a value
* `Value.Documented.isWhollyKnown` — which is known at every depth
-/

namespace TypedData

/-! ### Types of documents -/

/-- A type of JSON documents: made of lists and objects. -/
inductive Ty.JsonLike : Ty → Prop
  | bool : JsonLike bool
  | number : JsonLike number
  | string : JsonLike string
  | dynamic : JsonLike dynamic
  | list {t : Ty} (elem : JsonLike t) : JsonLike (list t)
  | object {attrs : List (Attr Ty)} (types : ∀ a ∈ attrs, JsonLike a.ty) : JsonLike (object attrs)

namespace Ty

/-- Types of documents share one. -/
theorem jsonLike_unify {types : List Ty} (h : ∀ t ∈ types, t.JsonLike) :
    (unify types).JsonLike := by
  induction types using unify_induction with
  | nothing _ hunify | disparate _ _ _ hunify => exact hunify ▸ .dynamic
  | single hd hunify => exact hunify ▸ h _ (mem_of_first hd)
  | @collections _ _ _ c _ hd _ hes hunify ih =>
    obtain ⟨e, -, hfirst⟩ := exists_part_of_mem hes (hd ▸ List.mem_cons_self)
    have hlike := h _ (mem_of_first hd)
    rw [elementOf?_eq_some_iff.mp hfirst] at hlike
    -- None of them is a set or a map.
    cases c <;> cases hlike
    refine hunify ▸ .list (ih (forall_parts h hes fun t u ht htu => ?_))
    obtain rfl := elementOf?_eq_some_iff.mp htu
    cases ht
    assumption
  | tuples hd _ hrows =>
    obtain ⟨_, -, hrow⟩ := exists_part_of_mem hrows (hd ▸ List.mem_cons_self)
    cases h _ (mem_of_first hd) <;> cases hrow
  | @objects types _ _ objects _ _ hobjects hunify ih =>
    have hparts : ∀ as ∈ objects, ∀ a ∈ as, a.ty.JsonLike := by
      refine forall_parts h hobjects fun t as ht has => ?_
      cases ht <;> simp only [attributes?, reduceCtorEq, Option.some.injEq] at has
      exact has ▸ ‹_›
    rw [hunify, sharedObject]
    split
    · exact .dynamic
    · refine .object fun b hb => ?_
      obtain ⟨a, -, col, hcol, rfl⟩ := mem_sharedAttrs hb
      refine ih a.name col hcol fun t ht => ?_
      obtain ⟨as, has, a', ha', rfl⟩ := exists_of_mem_column? hcol t ht
      exact hparts as has a' ha'

end Ty

namespace Native

variable {limits : Limits} {limit depth : Nat}

theorem exists_of_mem_ofJsonItems {js : List Json} {raw : Native} (h : raw ∈ ofJsonItems js) :
    ∃ j ∈ js, raw = ofJson j := by
  induction js with
  | nil => cases h
  | cons j js ih =>
    rcases List.mem_cons.mp h with rfl | h
    · exact ⟨j, by simp, rfl⟩
    · obtain ⟨j', hj, hraw⟩ := ih h
      exact ⟨j', by simp [hj], hraw⟩

theorem exists_of_mem_ofJsonFields {fs : List (String × Json)} {e : Native × Native}
    (h : e ∈ ofJsonFields fs) : ∃ f ∈ fs, e = (string f.1, ofJson f.2) := by
  induction fs with
  | nil => cases h
  | cons f fs ih =>
    rcases List.mem_cons.mp h with rfl | h
    · exact ⟨f, by simp, rfl⟩
    · obtain ⟨f', hf, he⟩ := ih h
      exact ⟨f', by simp [hf], he⟩

/-- What is directly inside a document is what its parts become. -/
theorem exists_of_mem_children_ofJson {j : Json} {c : Native} (h : c ∈ (ofJson j).children) :
    ∃ k ∈ j.children, c = ofJson k := by
  cases j with
  | array js => exact exists_of_mem_ofJsonItems h
  | object fs =>
    obtain ⟨e, he, rfl⟩ := List.mem_map.mp h
    obtain ⟨f, hf, rfl⟩ := exists_of_mem_ofJsonFields he
    exact ⟨f.2, List.mem_map_of_mem hf, rfl⟩
  | number s =>
    rw [ofJson, ofJsonNumber] at h
    split at h <;> cases h
  | null | bool | string => cases h

/-- Fields have keys of which attributes can be made. -/
theorem exists_attributesOfKeys?_ofJsonFields (fs : List (String × Json)) :
    ∃ attrs, attributesOfKeys? (inferEntries limit depth (ofJsonFields fs)) = some attrs := by
  induction fs with
  | nil => exact ⟨[], rfl⟩
  | cons f fs ih =>
    obtain ⟨attrs, hattrs⟩ := ih
    refine ⟨(f.1, inferAt limit depth (ofJson f.2)) :: attrs, ?_⟩
    simp only [ofJsonFields, inferEntries, attributesOfKeys?, asKey?, hattrs, Option.bind_eq_bind,
      Option.bind_some]

/-- The type of a document, as deep as it is looked into, is made of lists and objects. -/
theorem jsonLike_inferAt (j : Json) : (inferAt limit depth (ofJson j)).JsonLike := by
  -- Below the depth to which data is looked into everything is `dynamic`.
  induction j using Json.induction generalizing depth with
  | null | bool | string =>
    rw [ofJson, inferAt]
    split <;> constructor
  | number t =>
    rw [ofJson, ofJsonNumber]
    split <;> rw [inferAt] <;> split <;> constructor
  | array js ih =>
    rw [ofJson, inferAt]
    split
    · exact .dynamic
    · refine .list (Ty.jsonLike_unify fun t ht => ?_)
      obtain ⟨raw, hraw, rfl⟩ := mem_inferEach ht
      obtain ⟨j, hj, rfl⟩ := exists_of_mem_ofJsonItems hraw
      exact ih j hj
  | object fs ih =>
    rw [ofJson, inferAt]
    split
    · exact .dynamic
    have hentries : ∀ p ∈ inferEntries limit (depth + 1) (ofJsonFields fs), p.2.JsonLike := by
      intro p hp
      obtain ⟨e, he, hty⟩ := mem_inferEntries hp
      obtain ⟨f, hf, rfl⟩ := exists_of_mem_ofJsonFields he
      exact hty ▸ ih f hf
    obtain ⟨attrs, hattrs⟩ := @exists_attributesOfKeys?_ofJsonFields limit (depth + 1) fs
    rw [inferMap, hattrs]
    obtain ⟨as, has, htypes⟩ := Ty.exists_object_of_ofAttributes fun a ha => by
      obtain ⟨e, he, hty⟩ := exists_of_mem_attributesOfKeys? hattrs a ha
      exact hty ▸ hentries e he
    simp only [has]
    exact .object htypes

end Native

/-! ### Values of documents -/

namespace Value

variable {t : Ty} {v w : Value}

/-- A value of a JSON document in a slot: made of lists and objects whose types are those of
documents, with nulls of the types of their slots. -/
inductive Documented : Ty → Value → Prop
  | null {t : Ty} {m : Marks} : Documented t ⟨t, .null, m⟩
  | bool {t : Ty} {b : Bool} {m : Marks} : Documented t ⟨.bool, .bool b, m⟩
  | number {t : Ty} {n : Decimal} {m : Marks} : Documented t ⟨.number, .number n, m⟩
  | string {t : Ty} {s : String} {m : Marks} : Documented t ⟨.string, .string s, m⟩
  | list {t u : Ty} {vs : List Value} {m : Marks} (elem : u.JsonLike)
      (items : ∀ v ∈ vs, Documented u v) : Documented t ⟨.list u, .items vs, m⟩
  | object {t : Ty} {attrs : List (Attr Ty)} {es : Entries Value} {m : Marks}
      (types : ∀ a ∈ attrs, a.ty.JsonLike)
      (values : ∀ e ∈ es, ∀ a, Attr.find? attrs e.1 = some a → Documented a.ty e.2) :
      Documented t ⟨.object attrs, .entries es, m⟩

/-- Marks do not matter. -/
theorem Documented.of_sameData (h : v.Documented t) (hdata : SameData w v) : w.Documented t := by
  obtain ⟨own, content, m⟩ := w
  obtain ⟨rfl, rfl⟩ := hdata
  cases h with
  | null => exact .null
  | bool => exact .bool
  | number => exact .number
  | string => exact .string
  | list elem items => exact .list elem items
  | object types values => exact .object types values

theorem Documented.isUnknown_eq_false (h : v.Documented t) : v.isUnknown = false := by
  cases h <;> rfl

/-- Nothing in it is unknown. -/
theorem Documented.isWhollyKnown (h : v.Documented t) (hv : v.WellFormed) : v.isWhollyKnown := by
  induction h with
  | null | bool | number | string => rfl
  | list _ _ ih =>
    rw [isWhollyKnown_items]
    exact fun v hmem => ih v hmem (hv.of_mem_items hmem)
  | object _ _ ih =>
    rw [isWhollyKnown_entries]
    intro e he
    obtain ⟨u, hu, -⟩ := hv.exists_slotOf he
    obtain ⟨a, ha, -⟩ := Option.map_eq_some_iff.mp hu
    exact ih e he a ha (hv.of_mem_entries he)

end Value

namespace Native

variable {limits : Limits} {depth : Nat} {t : Ty} {v : Value}

theorem documented_of_validateScalar {decided : Ty} {raw : Native} (hdecided : decided.JsonLike)
    (h : validateScalar limits decided raw = .ok v) : v.Documented t := by
  cases scalar_of_validateScalar h with
  | bool => exact .bool
  | number => exact .number
  | string => exact .string
  | capsule => cases hdecided

/-- Nothing in a document has a type already. -/
theorem values_ofJson (j : Json) : (ofJson j).values = [] := by
  induction j using Json.induction with
  | null | bool | string => rfl
  | number s =>
    rw [ofJson, ofJsonNumber]
    split <;> rfl
  | array js ih =>
    rw [ofJson, values, valuesOfItems_eq_flatMap, List.flatMap_eq_nil_iff]
    intro raw hraw
    obtain ⟨j, hj, rfl⟩ := exists_of_mem_ofJsonItems hraw
    exact ih j hj
  | object fs ih =>
    rw [ofJson, values, valuesOfEntries_eq_flatMap, List.flatMap_eq_nil_iff]
    intro e he
    obtain ⟨f, hf, rfl⟩ := exists_of_mem_ofJsonFields he
    simp only [values, List.nil_append]
    exact ih f hf

/-- The type that a document is validated under in such a slot is of the same kind. -/
theorem decidedType_ofJson_spec {j : Json} {decided : Ty} (ht : t.WellFormed) (hlike : t.JsonLike)
    (h : decidedType limits depth t (ofJson j) = .ok decided) :
    decided.WellFormed ∧ decided.JsonLike := by
  refine ⟨(decidedType_spec ht (by simp [values_ofJson]) h).1, ?_⟩
  rw [decidedType] at h
  split at h
  · simp only at h
    split at h
    · simp only [refuse, reduceCtorEq] at h
    · obtain rfl := Except.ok.inj h
      exact jsonLike_inferAt j
  · obtain rfl := Except.ok.inj h
    exact hlike

theorem exists_ofJson_number (s : String) :
    (∃ n, ofJson (.number s) = .number n) ∨ ∃ f, ofJson (.number s) = .float f := by
  rw [ofJson, ofJsonNumber]
  split
  · exact .inl ⟨_, rfl⟩
  · exact .inr ⟨_, rfl⟩

/-- Items become a list, under a type of documents. -/
theorem documented_of_items {raw : Native} {items : List Native} {decided : Ty} {types : List Ty}
    {vs : List Value} (hdecided : decided.JsonLike) (hwell : decided.WellFormed)
    (htypes : itemTypes decided raw items.length = .ok types)
    (hvs : validateItems limits (depth + 1) 0 types items = .ok vs)
    (h : ∀ c ∈ items, ∀ u v, u.WellFormed → u.JsonLike →
      validateAt limits (depth + 1) u c = .ok v → v.Documented u) :
    (Value.sequence decided vs).Documented t := by
  have hslots := slots?_of_itemTypes htypes
  cases hdecided with
  | @list u elem =>
    obtain rfl := Option.some.inj hslots
    have hu : u.WellFormed := by
      cases hwell
      assumption
    have hitems : ∀ v ∈ vs, v.Documented u := by
      intro v hv
      obtain ⟨t, ht, c, hc, hv⟩ :=
        (forall₂_validateItems List.length_replicate.symm hvs).exists_of_mem_left hv
      obtain rfl := List.eq_of_mem_replicate ht
      exact h c hc _ v hu elem hv
    have hknown : vs.any Value.isUnknown = false := by
      rw [List.any_eq_false]
      exact fun v hv => Bool.eq_false_iff.mp (hitems v hv).isUnknown_eq_false
    rw [Value.sequence, hknown, if_neg Bool.false_ne_true]
    exact .list elem hitems
  | _ => cases hslots

/-- A step of validation makes a value of this kind of a document, if it does so of what is directly
inside. -/
theorem ValidationStep.documented {j : Json} (hstep : ValidationStep limits depth t (ofJson j) v)
    (ht : t.WellFormed) (hlike : t.JsonLike)
    (inside : ∀ k ∈ j.children, ∀ u w, u.WellFormed → u.JsonLike →
      validateAt limits (depth + 1) u (ofJson k) = .ok w → w.Documented u) : v.Documented t := by
  have hspec {decided : Ty} := @decidedType_ofJson_spec limits depth t j decided ht hlike
  have hchild (c : Native) (hc : c ∈ (ofJson j).children) (u : Ty) (w : Value)
      (hu : u.WellFormed) (hlike : u.JsonLike) (hw : validateAt limits (depth + 1) u c = .ok w) :
      w.Documented u := by
    obtain ⟨k, hk, rfl⟩ := exists_of_mem_children_ofJson hc
    exact inside k hk u w hu hlike hw
  have hvalues := values_ofJson j
  -- What is used of the data is that its parts come from parts of the document.
  generalize ofJson j = raw at hstep hspec hchild hvalues
  cases hstep with
  | absent => exact .null
  | value => cases hvalues
  | scalar hdecided hw => exact documented_of_validateScalar (hspec hdecided).2 hw
  | items hitems hdecided htypes hvs =>
    obtain ⟨hwell, hlike⟩ := hspec hdecided
    exact documented_of_items hlike hwell htypes hvs fun c hc =>
      hchild c (children_of_items? hitems ▸ hc)
  | map hdecided => cases (hspec hdecided).2
  | @object entries attrs _ hdecided hw =>
    obtain ⟨hwell, hlike⟩ := hspec hdecided
    have hattrs := Attr.WellFormed.of_object hwell
    cases hlike with
    | object types =>
      obtain ⟨es, rfl, hes⟩ := exists_of_objectOf (P := fun t v => v.Documented t)
        hattrs.names hw (fun _ _ => .null) fun m hm a ha htype v hv => by
          obtain ⟨c, hc, hv⟩ := exists_child_of_member hm hv
          exact hchild c hc a.ty v (hattrs.types a ha) (types a ha) (htype ▸ hv)
      refine .object types fun e he a ha => ?_
      obtain ⟨a', ha', hname, hdocumented⟩ := hes e (Value.mem_sortEntries.mp he)
      rw [← hname, Attr.find?_eq_some_of_mem hattrs.names ha'] at ha
      exact Option.some.inj ha ▸ hdocumented

/-- A document becomes a value of this kind. -/
theorem documented_validateAt {j : Json} (ht : t.WellFormed) (hlike : t.JsonLike)
    (h : validateAt limits depth t (ofJson j) = .ok v) : v.Documented t := by
  induction j using Json.induction_children generalizing t depth v with
  | _ j ih =>
    exact (validationStep_of_validateAt h).documented ht hlike fun k hk u w hu hlike hw =>
      ih k hk hu hlike hw

end Native

end TypedData
