import TypedData.Proofs.Wire.Extensional
import TypedData.Proofs.Wire.Rewritten

/-!
# Sets of numbers as they are read from text

Where numbers are in the form in which they are read from text, equal ones are written alike, so
that the order of set elements goes by their data alone. A set whose elements stand in another order
in that form cannot be had from texts.

## Main definitions

* `Value.Written` — values with every number in the form in which it is read from text
* `Value.WrittenElement` — elements of a slot in that form

## Main results

* `Value.convexClasses_written` — nothing comes between equal elements in that form
* `Value.forall₂_canonicalSet_rewritten` — elements in that form are put in the order of a set that
  is in order when it is rewritten
* `Value.WellFormed.rewritten_of_same` — only such a set can be equal to one in that form
-/

namespace TypedData.Value

variable {v w x : Value} {t : Ty} {vs xs : List Value}

/-! ### Values in written form -/

/-- Whether every number inside is in the form in which it is read from text. -/
def Written (v : Value) : Prop := ∀ s, v.Contains s → ∀ n, s.asNumber? = some n → n.written = n

theorem Written.of_mem_parts (h : v.Written) (hw : w ∈ parts v.content) : w.Written :=
  fun s hs => h s (.of_mem_parts hw hs)

/-- What is not a number is in written form if what stands directly inside is. -/
theorem written_of_asNumber? (hnumber : v.asNumber? = none)
    (h : ∀ w ∈ parts v.content, w.Written) : v.Written :=
  forall_numbers_of_parts hnumber h

theorem Written.of_sameData (h : v.Written) (hdata : SameData w v) : w.Written :=
  forall_numbers_of_sameData h hdata

theorem parts_rewritten (v : Value) :
    parts v.rewritten.content = (parts v.content).map rewritten := by
  obtain ⟨ty, content, m⟩ := v
  cases content with
  | items vs => exact rewrittenEach_eq_map vs
  | entries es => simp [rewritten, parts, rewrittenEntries_eq_map]
  | null | unknown | bool | number | string | capsule => rfl

/-- A rewritten value is in written form. -/
theorem written_rewritten (v : Value) : v.rewritten.Written := by
  induction v using Value.induction with
  | null | unknown | bool | string | capsule => exact written_of_asNumber? rfl nofun
  | number ty n m =>
    refine forall_contains_iff.mpr ⟨fun k hk => ?_, nofun⟩
    obtain rfl := Option.some.inj hk
    exact n.written_written
  | items ty vs m ih =>
    refine written_of_asNumber? rfl ?_
    rw [parts_rewritten]
    exact List.forall_mem_map.mpr ih
  | entries ty es m ih =>
    refine written_of_asNumber? rfl ?_
    rw [parts_rewritten, parts]
    exact List.forall_mem_map.mpr (List.forall_mem_map.mpr ih)

/-- Equal numbers are written alike where both are in written form. -/
theorem Written.numbersAlike (hv : v.Written) (hw : w.Written) : Msgpack.NumbersAlike v w := by
  intro x hx y hy n k hn hk hsame
  rw [← hv x hx n hn, ← hw y hy k hk, Decimal.written_eq_of_same hsame]

theorem isWhollyKnown_rewritten (h : v.isWhollyKnown) : v.rewritten.isWhollyKnown := by
  induction v using Value.induction with
  | null | unknown | bool | number | string | capsule => exact h
  | items ty vs m ih =>
    rw [rewritten, rewrittenEach_eq_map, isWhollyKnown_items, List.forall_mem_map]
    exact fun v hv => ih v hv (isWhollyKnown_items.mp h v hv)
  | entries ty es m ih =>
    rw [rewritten, rewrittenEntries_eq_map, isWhollyKnown_entries, List.forall_mem_map]
    exact fun e he => ih e he (isWhollyKnown_entries.mp h e he)

/-- A value that is known at every depth equals its rewritten form. -/
theorem rewritten_same (hv : v.WellFormed) (hknown : v.isWhollyKnown) : v.rewritten.same v :=
  same_of_isWhollyKnown (isWhollyKnown_rewritten hknown) (identical_rewritten hv)

theorem InSlot.rewritten (h : v.InSlot t) : v.rewritten.InSlot t := by
  rwa [InSlot, rewritten_ty]

/-! ### Elements in written form -/

/-- A concrete element for a slot in written form. -/
structure WrittenElement (t : Ty) (v : Value) : Prop extends Concrete t v where
  written : v.Written

theorem WrittenElement.of_sameData (h : v.WrittenElement t) (hdata : SameData w v) :
    w.WrittenElement t :=
  ⟨h.toConcrete.of_sameData hdata, h.written.of_sameData hdata⟩

/-- A rewritten element, if it is well-formed and can be written. -/
theorem WrittenElement.of_rewritten (hv : v.rewritten.WellFormed) (hknown : v.isWhollyKnown)
    (hin : v.InSlot t) (hencoded : v.rewritten.Encoded) : v.rewritten.WrittenElement t where
  wellFormed := hv
  inSlot := hin.rewritten
  known := isWhollyKnown_rewritten hknown
  fits m hm := by
    obtain ⟨m', hm', hfits⟩ := hencoded
    exact Except.ok.inj (hm.symm.trans hm') ▸ hfits
  written := written_rewritten v

/-- What equals an element and is in written form can be written as well. -/
theorem WrittenElement.of_same (ht : t.WellFormed) (hplain : t.Plain) (hw : w.WrittenElement t)
    (hv : v.WellFormed) (hin : v.InSlot t) (hwritten : v.Written) (hsame : v.same w) :
    v.WrittenElement t where
  wellFormed := hv
  inSlot := hin
  known := isWhollyKnown_of_same hsame
  fits m hm := by
    have hmatched : Msgpack.Matched v w v.ty w.ty :=
      .of_inSlot ht hv hw.wellFormed hin hw.inSlot hplain.noDynamic
    exact hw.fits m (Msgpack.toMsgpack_of_same hmatched (hwritten.numbersAlike hw.written) hsame hm)
  written := hwritten

/-- Nothing comes between equal elements in written form. -/
theorem convexClasses_written (ht : t.WellFormed) (hplain : t.Plain) :
    ConvexClasses compare (fun v w => v.same w) (WrittenElement t) := by
  refine convexClasses_same ht hplain (fun v hv => hv.toConcrete) fun v w hv hw hsame _ => ?_
  by_contra hbytes
  exact not_numbersAlike_of_ownBytes?_ne (hv.toConcrete.matched ht hplain hw.toConcrete)
    (hv.toConcrete.encoded ht hplain) hsame hbytes (hv.written.numbersAlike hw.written)

/-- Elements in written form that stand in set order differ from each other. -/
theorem InSetOrder.pairwise_of_written (order : InSetOrder vs) (ht : t.WellFormed)
    (hplain : t.Plain) (hvs : ∀ v ∈ vs, v.WrittenElement t) :
    vs.Pairwise fun v w => ¬ v.same w := by
  refine (convexClasses_written ht hplain).pairwise_of_isChain hvs order.ordered ?_
  refine order.apart.imp_of_mem_imp fun v w hv hw hne hsame => ?_
  exact absurd (same_symm (hvs v hv).wellFormed (hvs w hw).wellFormed hsame)
    (Bool.eq_false_iff.mp hne)

/-- Elements in written form stand in set order if equal ones do. -/
theorem InSetOrder.of_forall₂_same (order : InSetOrder xs) (ht : t.WellFormed) (hplain : t.Plain)
    (hxs : ∀ x ∈ xs, x.WrittenElement t) (hvs : ∀ v ∈ vs, v.WrittenElement t)
    (hsame : List.Forall₂ (fun x v => x.same v) xs vs) : InSetOrder vs := by
  have hclasses := convexClasses_written ht hplain
  have hdiffer := order.pairwise_of_written ht hplain hxs
  refine ⟨hclasses.pairwise_of_forall₂ hxs hvs hsame order.ordered hdiffer, ?_⟩
  refine List.Pairwise.isChain ?_
  refine (hclasses.pairwise_not_of_forall₂ hxs hvs hsame hdiffer).imp_of_mem ?_
  exact fun hv hw hne => Bool.eq_false_iff.mpr fun hsame =>
    hne (same_symm (hvs _ hw).wellFormed (hvs _ hv).wellFormed hsame)

/-- Elements in written form are put in the order of those that they equal, if these stand in
order when they are rewritten. -/
theorem forall₂_canonicalSet_rewritten (ht : t.WellFormed) (hplain : t.Plain)
    (order : InSetOrder (vs.map rewritten)) (hvs : ∀ v ∈ vs, v.rewritten.WrittenElement t)
    (hwell : ∀ v ∈ vs, v.WellFormed) (hknown : ∀ v ∈ vs, v.isWhollyKnown)
    (hxs : ∀ x ∈ xs, x.WrittenElement t) (hxv : ∀ x ∈ xs, ∃ v ∈ vs, x.same v)
    (hvx : ∀ v ∈ vs, ∃ x ∈ xs, x.same v) :
    List.Forall₂ (fun x v => x.same v) (canonicalSet xs) vs := by
  have hrewritten : ∀ v ∈ vs, v.rewritten.same v :=
    fun v hv => rewritten_same (hwell v hv) (hknown v hv)
  have hback : ∀ v ∈ vs, v.same v.rewritten :=
    fun v hv => same_symm (hvs v hv).wellFormed (hwell v hv) (hrewritten v hv)
  have hplaces : List.Forall₂ (fun v w => v.same w) (canonicalSet xs)
      (canonicalSet (vs.map rewritten)) := by
    refine forall₂_canonicalSet (convexClasses_written ht hplain) hxs
      (List.forall_mem_map.mpr hvs) (fun v w hdata hw => hw.of_sameData hdata) ?_ ?_
    · intro x hx
      obtain ⟨v, hv, hsame⟩ := hxv x hx
      exact ⟨v.rewritten, List.mem_map_of_mem hv,
        same_trans (hxs x hx).wellFormed hsame (hback v hv)⟩
    · refine List.forall_mem_map.mpr fun v hv => ?_
      obtain ⟨x, hx, hsame⟩ := hvx v hv
      exact ⟨x, hx, same_trans (hvs v hv).wellFormed (hrewritten v hv)
        (same_symm (hxs x hx).wellFormed (hwell v hv) hsame)⟩
  rw [canonicalSet_eq_self order, List.forall₂_map_right_iff] at hplaces
  refine hplaces.imp_of_mem fun x hx v hv hsame => ?_
  obtain ⟨y, hy, hdata⟩ := exists_of_mem_canonicalSet hx
  exact same_trans ((hxs y hy).of_sameData hdata).wellFormed hsame (hrewritten v hv)

/-! ### Values that are well-formed when they are rewritten -/

theorem InSlot.of_same_data (h : w.InSlot t) (ht : t.isDynamic = false) (hv : v.WellFormed)
    (hsame : v.same w) : v.InSlot t :=
  .of_same (hv.type_wellFormed.same_trans (same_iff.mp hsame).1 (h.same ht))

/-- Whether everything inside is encoded with lengths that can be written. -/
def EncodedInside (v : Value) : Prop := ∀ s, v.Contains s → s.Encoded

theorem encodedInside_iff : v.EncodedInside ↔ v.Encoded ∧ ∀ w ∈ parts v.content, w.EncodedInside :=
  forall_contains_iff

theorem EncodedInside.of_mem_parts (h : v.EncodedInside) (hw : w ∈ parts v.content) :
    w.EncodedInside :=
  fun s hs => h s (.of_mem_parts hw hs)

theorem mem_parts_rewritten (hw : w ∈ parts v.content) :
    w.rewritten ∈ parts v.rewritten.content := by
  rw [parts_rewritten]
  exact List.mem_map_of_mem hw

/-- What stands directly inside equal values is equal place by place. -/
theorem forall₂_parts_of_same (h : v.same w) :
    List.Forall₂ (fun x y => x.same y) (parts v.content) (parts w.content) := by
  obtain ⟨s, c, m⟩ := v
  obtain ⟨t, d, n⟩ := w
  have hcontent := (same_iff.mp h).2
  cases c <;> cases d <;> first | cases hcontent; done | skip
  case items.items => exact sameEach_iff.mp hcontent
  case entries.entries =>
    rw [parts, parts, List.forall₂_map_left_iff, List.forall₂_map_right_iff]
    exact (sameEntries_iff.mp hcontent).imp fun _ _ h => h.2
  all_goals exact .nil

@[simp] theorem isUnknown_rewritten (v : Value) : v.rewritten.isUnknown = v.isUnknown := by
  obtain ⟨ty, content, m⟩ := v
  cases content <;> rfl

theorem keys_rewritten (es : Entries Value) :
    (es.map fun e => (e.1, e.2.rewritten)).map (·.1) = es.map (·.1) :=
  List.map_map

/-- A value is well-formed when it is rewritten if everything directly inside is, and the elements
of a set are still in order. -/
theorem WellFormed.rewritten_of_parts (hv : v.WellFormed)
    (hparts : ∀ w ∈ parts v.content, w.rewritten.WellFormed)
    (horder : v.ty.isSet → InSetOrder ((parts v.content).map rewritten)) :
    v.rewritten.WellFormed := by
  cases hv with
  | null type => exact .null type
  | unknown type retained start => exact .unknown type retained start
  | bool => exact .bool
  | number => exact .number
  | string => exact .string
  | capsule => exact .capsule
  | list type _ slots known =>
    rw [rewritten, rewrittenEach_eq_map]
    refine .list type ?_ ?_ ?_ <;> rw [List.forall_mem_map]
    · exact hparts
    · exact fun v hv => (slots v hv).rewritten
    · simpa using known
  | set type _ slots known =>
    rw [rewritten, rewrittenEach_eq_map]
    refine .set type ?_ ?_ ?_ (horder rfl) <;> rw [List.forall_mem_map]
    · exact hparts
    · exact fun v hv => (slots v hv).rewritten
    · simpa using known
  | tuple types _ slots =>
    rw [rewritten, rewrittenEach_eq_map]
    refine .tuple types (List.forall_mem_map.mpr hparts) ?_
    rw [List.forall₂_map_left_iff]
    exact slots.imp fun _ _ h => h.rewritten
  | map type _ slots known keys composed =>
    rw [rewritten, rewrittenEntries_eq_map]
    refine .map type ?_ ?_ ?_ ((keys_rewritten _).symm ▸ keys) ?_ <;> rw [List.forall_mem_map]
    · exact fun e he => hparts _ (List.mem_map_of_mem he)
    · exact fun e he => (slots e he).rewritten
    · simpa using known
    · exact composed
  | object type _ keys slots =>
    rw [rewritten, rewrittenEntries_eq_map]
    refine .object type ?_ ((keys_rewritten _).trans keys) ?_ <;> rw [List.forall_mem_map]
    · exact fun e he => hparts _ (List.mem_map_of_mem he)
    · exact fun e he a ha => (slots e he a ha).rewritten

/-- The elements of a set are in order when they are rewritten, if those of an equal set in written
form are. -/
theorem inSetOrder_rewritten_of_same {m : Marks} (hv : WellFormed ⟨.set t, .items vs, m⟩)
    (hplain : t.Plain) (hknown : ∀ v ∈ vs, v.isWhollyKnown)
    (hparts : ∀ v ∈ vs, v.rewritten.WellFormed) (hencoded : ∀ v ∈ vs, v.rewritten.Encoded)
    (order : InSetOrder xs) (hxs : ∀ x ∈ xs, x.WellFormed) (hwritten : ∀ x ∈ xs, x.Written)
    (hsame : List.Forall₂ (fun x v => x.same v) xs vs) : InSetOrder (vs.map rewritten) := by
  cases hv with
  | set ht hwell slots _ _ =>
    have hvs : ∀ v ∈ vs, v.rewritten.WrittenElement t := fun v hv =>
      .of_rewritten (hparts v hv) (hknown v hv) (slots v hv) (hencoded v hv)
    have hrewritten : List.Forall₂ (fun x v => x.same (v.rewritten)) xs vs := by
      refine hsame.imp_of_mem fun x hx v hv hsame => same_trans (hxs x hx) hsame ?_
      exact same_symm (hparts v hv) (hwell v hv) (rewritten_same (hwell v hv) (hknown v hv))
    refine order.of_forall₂_same ht hplain (fun x hx => ?_) (List.forall_mem_map.mpr hvs)
      (List.forall₂_map_right_iff.mpr hrewritten)
    obtain ⟨v, hv, hxv⟩ := hrewritten.exists_of_mem_left hx
    exact (hvs v hv).of_same ht hplain (hxs x hx)
      ((slots v hv).rewritten.of_same_data hplain.isDynamic_eq_false (hxs x hx) hxv)
      (hwritten x hx) hxv

/-- A value that equals one in written form is well-formed when it is rewritten. -/
theorem WellFormed.rewritten_of_same (hv : v.WellFormed) (hplain : v.ty.Plain)
    (hencoded : v.rewritten.EncodedInside) (hx : x.WellFormed) (hwritten : x.Written)
    (hsame : x.same v) : v.rewritten.WellFormed := by
  induction v using Value.induction_parts generalizing x with
  | step v ih =>
    have hparts : ∀ w ∈ parts v.content, w.rewritten.WellFormed := by
      intro w hw
      obtain ⟨y, hy, hsame⟩ := (forall₂_parts_of_same hsame).exists_of_mem_right hw
      exact ih w hw (hv.of_mem_parts hw) (hv.plain_of_contains hplain (.inside .self hw))
        (hencoded.of_mem_parts (mem_parts_rewritten hw)) (hx.of_mem_parts hy)
        (hwritten.of_mem_parts hy) hsame
    refine hv.rewritten_of_parts hparts fun hset => ?_
    have hknown := isWhollyKnown_of_same (same_symm hx hv hsame)
    have hwell := hv
    cases hv with
    | null | unknown => exact ⟨.nil, .nil⟩
    | set =>
      -- What equals a set is a set, so its elements are in order.
      obtain ⟨own, content, m'⟩ := x
      obtain ⟨hty, hcontent⟩ := same_iff.mp hsame
      cases content <;> first | cases hcontent | skip
      cases hx with
      | list | tuple => cases hty
      | set _ hxs _ _ order =>
        exact inSetOrder_rewritten_of_same hwell (hplain.of_mem_parts (by simp [Ty.parts]))
          (isWhollyKnown_items.mp hknown) hparts
          (fun v hv => hencoded.of_mem_parts (mem_parts_rewritten hv) v.rewritten .self) order hxs
          (fun x hx => hwritten.of_mem_parts hx) (sameEach_iff.mp hcontent)
    | _ => cases hset

/-- The sets in a settled value are in order when it is rewritten. -/
theorem WellFormed.rewritten_of_settled (hv : v.WellFormed) (h : v.Settled Json.echo) :
    v.rewritten.WellFormed := by
  induction v using Value.induction_parts with
  | step v ih =>
    refine hv.rewritten_of_parts (fun w hw => ih w hw (hv.of_mem_parts hw) (h.of_mem_parts hw))
      fun hset => ?_
    have hcompare : ∀ a ∈ parts v.content, ∀ b ∈ parts v.content,
        a.rewritten.compare b.rewritten = a.compare b := by
      intro a ha b hb
      by_cases hrank : rank a.content = 4
      · by_cases hrank' : rank b.content = 4
        · exact compare_rewritten (steady_of_parts hrank (h v .self hset a ha))
            (steady_of_parts hrank' (h v .self hset b hb))
        · rw [compare_swap, compare_rewritten_of_rank_ne hrank', ← compare_swap]
      · exact compare_rewritten_of_rank_ne hrank b
    cases hv with
    | null | unknown => exact ⟨.nil, .nil⟩
    | set _ _ _ _ order =>
      refine order.map (fun a ha b hb hle => ?_) fun a _ b _ hne => (same_rewritten b a).trans hne
      rwa [hcompare a ha b hb]
    | _ => cases hset

end TypedData.Value
