import TypedData.Proofs.Json.Injective
import TypedData.Proofs.Ty.RoundTrip
import TypedData.Proofs.Value.Slots

/-!
# Equal types have equal texts

Types that differ in the order of declarations only have the same attributes in key order, and so
the same description. A description gives its type back in key order, and descriptions with one
text are one description, so that other types have other texts.

## Main results

* `Attr.forall₂_inKeyOrder` — equal objects have equal attributes in key order, place by place
* `Ty.toJson_of_same` — equal types have one description
* `Ty.inKeyOrder_eq_of_same` — and become one type in key order
* `Ty.toText_canonical` — types have a text, which is read as an equal type, and equal texts exactly
  if they are equal
-/

namespace TypedData

namespace Attr

variable {as bs : List (Attr Ty)}

theorem map_name_inKeyOrder (attrs : List (Attr Ty)) :
    (inKeyOrder attrs).map (·.name) = sortedNames attrs :=
  List.map_mergeSort fun _ _ _ _ => rfl

/-- Attributes of equal objects are equal place by place in key order. -/
theorem forall₂_inKeyOrder (has : WellFormed as) (hbs : WellFormed bs)
    (hsame : (Ty.object as).same (.object bs)) :
    List.Forall₂ (fun a b => a.name = b.name ∧ a.ty.same b.ty ∧ a.isOptional = b.isOptional)
      (inKeyOrder as) (inKeyOrder bs) := by
  rw [Ty.same, Bool.and_eq_true, beq_iff_eq] at hsame
  have hnames : List.Forall₂ (fun a b : Attr Ty => a.name = b.name)
      (inKeyOrder as) (inKeyOrder bs) := by
    rw [← List.forall₂_map_right_iff (f := Attr.name),
      ← List.forall₂_map_left_iff (f := Attr.name), List.forall₂_eq_eq_eq,
      map_name_inKeyOrder, map_name_inKeyOrder]
    exact Value.sortedNames_eq_of_same has.names hbs.names hsame.1 hsame.2
  refine hnames.imp_of_mem fun a ha b hb hname => ⟨hname, ?_⟩
  -- The attribute found under the name of `a` is `b`.
  obtain ⟨b', hb', heq⟩ := Ty.sameAttrs_iff.mp hsame.2 a (mem_inKeyOrder.mp ha)
  rw [hname, find?_eq_some_of_mem hbs.names (mem_inKeyOrder.mp hb)] at hb'
  exact Option.some.inj hb' ▸ heq

/-- Equal objects have the same optional names. -/
theorem optionalNames_eq_of_same (has : WellFormed as) (hbs : WellFormed bs)
    (hsame : (Ty.object as).same (.object bs)) : optionalNames as = optionalNames bs := by
  rw [Ty.same, Bool.and_eq_true, beq_iff_eq] at hsame
  have hnodup {attrs : List (Attr Ty)} (h : WellFormed attrs) :
      ((attrs.filter (·.isOptional)).map (·.name)).Nodup :=
    h.names.sublist (List.filter_sublist.map _)
  have hsorted := Value.pairwise_lt_mergeSort (hnodup has)
  refine hsorted.eq_of_mem_iff (Value.pairwise_lt_mergeSort (hnodup hbs)) fun name => ?_
  rw [List.mem_mergeSort, optionalNames, sortedNames, List.mem_mergeSort]
  simp only [List.mem_map, List.mem_filter]
  constructor
  · rintro ⟨a, ⟨ha, hoptional⟩, rfl⟩
    obtain ⟨b, hb, -, heq⟩ := Ty.sameAttrs_iff.mp hsame.2 a ha
    exact ⟨b, ⟨mem_of_find? hb, heq ▸ hoptional⟩, name_of_find? hb⟩
  · rintro ⟨b, ⟨hb, hoptional⟩, rfl⟩
    obtain ⟨a, ha, hfind, -, heq⟩ := Ty.exists_of_sameAttrs has.names hbs.names hsame.1 hsame.2 hb
    exact ⟨a, ⟨ha, heq ▸ hoptional⟩, name_of_find? hfind⟩

end Attr

namespace Ty

variable {t u : Ty}

theorem elemsToJson_of_sameEach {ts us : List Ty} {js : List Json} (hsame : sameEach ts us)
    (hjs : elemsToJson ts = .ok js)
    (ih : ∀ t ∈ ts, ∀ u ∈ us, ∀ j, t.same u → t.toJson = .ok j → u.toJson = .ok j) :
    elemsToJson us = .ok js := by
  rw [sameEach_iff] at hsame
  induction hsame generalizing js with
  | nil => exact hjs
  | @cons t u ts us hsame _ ihs =>
    rw [elemsToJson] at hjs
    split at hjs
    · cases hjs
    rename_i j hj
    obtain ⟨js', hjs', rfl⟩ := Except.map_eq_ok_iff.mp hjs
    have hrest := ihs hjs' fun t ht u hu => ih t (by simp [ht]) u (by simp [hu])
    simp only [elemsToJson, ih t (by simp) u (by simp) j hsame hj, hrest, Except.map]

/-- Equal types have one description. -/
theorem toJson_of_same {j : Json} (ht : t.WellFormed) (hu : u.WellFormed) (hsame : t.same u)
    (hj : t.toJson = .ok j) : u.toJson = .ok j := by
  induction ht generalizing u j with
  | bool | number | string | dynamic => cases u <;> first | exact hj | cases hsame
  | capsule => cases hj
  | list _ ih | set _ ih | map _ ih =>
    cases hu <;> simp only [same, Bool.false_eq_true] at hsame
    obtain ⟨j', hj', rfl⟩ := Except.map_eq_ok_iff.mp hj
    rw [toJson, ih ‹_› hsame hj']
    rfl
  | tuple _ ih =>
    cases hu <;> simp only [same, Bool.false_eq_true] at hsame
    rename_i us hus
    obtain ⟨js, hjs, rfl⟩ := Except.map_eq_ok_iff.mp hj
    rw [toJson, elemsToJson_of_sameEach hsame hjs fun t ht u hu _ => ih t ht (hus u hu)]
    rfl
  | @object as names composed types ih =>
    cases hu <;> try cases hsame
    rename_i bs names' composed' types'
    have has : Attr.WellFormed as := ⟨names, composed, types⟩
    have hbs : Attr.WellFormed bs := ⟨names', composed', types'⟩
    rw [toJson_object] at hj ⊢
    obtain ⟨fields, hfields, rfl⟩ := Except.map_eq_ok_iff.mp hj
    rw [firstError_map_eq_ok_iff] at hfields
    -- In key order the attributes on both sides correspond place by place.
    have hfields' : firstError ((Attr.inKeyOrder bs).map fun b => (b.name, b.ty.toJson)) =
        .ok fields := by
      rw [firstError_map_eq_ok_iff, List.forall₂_iff_get]
      rw [List.forall₂_iff_get] at hfields
      obtain ⟨hlength, hattrs⟩ :=
        List.forall₂_iff_get.mp (Attr.forall₂_inKeyOrder has hbs hsame)
      refine ⟨hlength ▸ hfields.1, fun i hi hi' => ?_⟩
      have hia : i < (Attr.inKeyOrder as).length := hlength ▸ hi
      obtain ⟨hname, htype, -⟩ := hattrs i hia hi
      obtain ⟨hname', hj⟩ := hfields.2 i hia hi'
      refine ⟨hname ▸ hname', ih _ ?_ (types' _ ?_) htype hj⟩
      · exact Attr.mem_inKeyOrder.mp (List.get_mem _ _)
      · exact Attr.mem_inKeyOrder.mp (List.get_mem _ _)
    rw [hfields', Attr.optionalNames_eq_of_same has hbs hsame]
    rfl

/-- Equal types without capsules are one type in key order. -/
theorem inKeyOrder_eq_of_same (ht : t.WellFormed) (hu : u.WellFormed) (hsame : t.same u)
    (hcapsule : t.hasCapsule = false) : t.inKeyOrder = u.inKeyOrder := by
  obtain ⟨j, hj⟩ := exists_describes ht hcapsule
  have hj' := describes_of_toJson hu (toJson_of_same ht hu hsame hj.written)
  exact Except.ok.inj (hj.read.symm.trans hj'.read)

/-- Types with one description are equal. -/
theorem Describes.same {j : Json} (hj : Describes j t) (hj' : Describes j u) (ht : t.WellFormed)
    (hu : u.WellFormed) : t.same u := by
  have horder : t.inKeyOrder = u.inKeyOrder := Except.ok.inj (hj.read.symm.trans hj'.read)
  have hback := hu.same_symm (describable_ofJson hj'.read).wellFormed hu.same_inKeyOrder
  exact ht.same_trans ht.same_inKeyOrder (horder ▸ hback)

theorem toText_of_describes {j : Json} (hj : Describes j t) : t.toText = .ok j.compact := by
  rw [toText, hj.written]

/-- Types without capsules have equal texts exactly if they are equal. -/
theorem toText_eq_iff (ht : t.WellFormed) (hu : u.WellFormed) (htext : t.hasCapsule = false)
    (hutext : u.hasCapsule = false) : t.toText = u.toText ↔ t.same u := by
  obtain ⟨j, hj⟩ := exists_describes ht htext
  obtain ⟨k, hk⟩ := exists_describes hu hutext
  constructor
  · intro htexts
    rw [toText_of_describes hj, toText_of_describes hk, Except.ok.injEq] at htexts
    obtain rfl := hj.spelled.eq_of_compact_eq hk.spelled htexts
    exact hj.same hk ht hu
  · intro hsame
    rw [toText, toText, toJson_of_same ht hu hsame hj.written, hj.written]

/-- The text of a type is read as JSON unless it nests too deep or misuses the reserved name, and
then as the type in key order. -/
theorem Describes.ofText_eq_ok_iff {j : Json} (hj : Describes j t) :
    ofText j.compact = .ok t.inKeyOrder ↔ j.nesting ≤ Json.maxOpen ∧ ¬ j.Refused := by
  rw [← Json.exists_read_chars_iff hj.spelled, ofText, Json.compact, String.toList_ofList]
  constructor
  · intro hread
    cases hchars : Json.read j.chars with
    | ok k => exact ⟨k, rfl⟩
    | error e =>
      rw [hchars] at hread
      cases hread
  · rintro ⟨k, hk⟩
    rw [hk, Json.eq_of_read_chars hj.spelled hk]
    exact hj.read

/-- Types without capsules have a text, and equal ones exactly if they are equal. The description
they are printed from describes an equal type. It is read from the text unless it nests too deep or
the name that is reserved for numbers is misused in it, and nothing else is read. -/
theorem toText_canonical (ht : t.WellFormed) (hu : u.WellFormed) (htext : t.hasCapsule = false)
    (hutext : u.hasCapsule = false) :
    (∃ j s, t.toJson = .ok j ∧ t.toText = .ok j.compact ∧ ofJson j = .ok s ∧ s == t ∧
        (ofText j.compact = .ok s ↔ j.nesting ≤ Json.maxOpen ∧ ¬ j.Refused) ∧
        ∀ r, ofText j.compact = .ok r → r = s) ∧
      (t.toText = u.toText ↔ t == u) := by
  refine ⟨?_, toText_eq_iff ht hu htext hutext⟩
  obtain ⟨j, hj⟩ := exists_describes ht htext
  have hback := ht.same_symm (describable_ofJson hj.read).wellFormed ht.same_inKeyOrder
  exact ⟨j, t.inKeyOrder, hj.written, toText_of_describes hj, hj.read, hback, hj.ofText_eq_ok_iff,
    fun r hr => eq_inKeyOrder_of_ofText ht hj.written hr⟩

/-- The order of declarations is lost in the text. Which attributes may be omitted is kept. -/
theorem toText_canonical_reordered :
    let t := object [⟨"b", list number, false⟩, ⟨"a", string, true⟩]
    let u := object [⟨"a", string, true⟩, ⟨"b", list number, false⟩]
    let text := "[\"object\",\x7b\"a\":\"string\",\"b\":[\"list\",\"number\"]\x7d,[\"a\"]]"
    t.toText = .ok text ∧ u.toText = .ok text ∧ ∃ s, ofText text = .ok s ∧ s == t := by
  intro t u text
  let j := Json.array [.string "object", .object [("a", .string "string"),
    ("b", .array [.string "list", .string "number"])], .array [.string "a"]]
  have hnumber : (list number).WellFormed := .list .number
  have ht : t.WellFormed :=
    .object (by decide) (by decide) (by simp [WellFormed.string, hnumber])
  have hu : u.WellFormed :=
    .object (by decide) (by decide) (by simp [WellFormed.string, hnumber])
  -- What is written names the attributes in order, whatever the order of declarations.
  have hj : t.toJson = .ok j := by
    simp [t, j, toJson, attrsToJson, List.mergeSort, List.MergeSort.Internal.splitInTwo,
      firstError, Except.map, Attr.optionalNames, Attr.sortedNames, optionalPart]
  have hreadable : j.Readable := by
    have hfields : ∀ f ∈ [("a", Json.string "string"),
        ("b", .array [.string "list", .string "number"])], f.2.Readable := by
      simp [Json.Spelled.string, Json.Spelled.array]
    refine .array ?_
    simp only [List.forall_mem_cons]
    refine ⟨.string _, .object (by decide) (by simp [Json.numberName]) hfields, ?_,
      List.forall_mem_nil _⟩
    exact .array (by simp [Json.Spelled.string])
  have hcompact : j.compact = text := by decide +kernel
  obtain ⟨⟨k, s, hk, htext, -, hsame, hread, -⟩, htexts⟩ := toText_canonical ht hu rfl rfl
  obtain rfl : j = k := Except.ok.inj (hj.symm.trans hk)
  rw [hcompact] at htext hread
  have heq : t.toText = u.toText := htexts.mpr (by decide +kernel)
  have hplain := (Json.exists_read_chars_iff (describes_of_toJson ht hj).spelled).mp
    ⟨j, Json.read_chars hreadable (by decide)⟩
  exact ⟨htext, heq ▸ htext, s, hread.mpr hplain, hsame⟩

end Ty

end TypedData
