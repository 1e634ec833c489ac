import TypedData.Proofs.Value.SetImages
import TypedData.Proofs.Wire.Reread
import TypedData.Proofs.Wire.WrittenOrder

/-!
# Sets that were read

Values that were read in a slot without `dynamic` and are at one place in the order of a set are
identical, so in the form in which they come back from text they are the same. A set of such
elements is in the order of the set of the values that they stand for, as that comes back, whether
equal elements were merged before or not.

## Main definitions

* `Value.ReadIn` — values that were read in a slot

## Main results

* `Value.EncodedInside.of_same` — equal values are both encoded inside, or neither
* `Value.ReadIn.identical_of_compare` — elements at one place are identical
* `Value.map_rewritten_canonicalSet` — the set of elements that were read
-/

namespace TypedData

open Wire

namespace Value

variable {limit : Nat} {t : Ty} {v w x y : Value} {vs ws : List Value}

/-! ### Values that were read -/

/-- A value that was read in a slot: without capsules and own marks, with refinements within a limit
and with numbers that are encoded as in the form that is read from text. -/
structure ReadIn (limit : Nat) (t : Ty) (v : Value) : Prop where
  wellFormed : v.WellFormed
  ty_eq : v.ty = t
  unmarked : v.marks = .empty
  capsuleFree : v.CapsuleFree
  refinements : ∀ x, v.Contains x → ∀ r, x.refinement? = some r → r.Writable limit
  steady : v.Steady Json.echo

/-- A container was read if what is inside was. -/
theorem readIn_of_parts (hv : v.WellFormed) (hty : v.ty = t) (hmarks : v.marks = .empty)
    (hrank : rank v.content = 4) (h : ∀ x ∈ parts v.content, ∃ u, x.ReadIn limit u) :
    v.ReadIn limit t where
  wellFormed := hv
  ty_eq := hty
  unmarked := hmarks
  capsuleFree := by
    refine capsuleFree_iff.mpr ⟨fun handle hcontent => ?_, fun x hx => ?_⟩
    · rw [hcontent] at hrank
      cases hrank
    · obtain ⟨u, hu⟩ := h x hx
      exact hu.capsuleFree
  refinements := by
    refine forall_contains_iff.mpr ⟨fun r hr => ?_, fun x hx => ?_⟩
    · obtain ⟨own, content, m⟩ := v
      cases content <;> cases hr
      cases hrank
    · obtain ⟨u, hu⟩ := h x hx
      exact hu.refinements
  steady := steady_of_parts hrank fun x hx => by
    obtain ⟨u, hu⟩ := h x hx
    exact hu.steady

/-- A value with nothing inside was read if its refinement and its number were. -/
theorem readIn_of_leaf (hv : v.WellFormed) (hty : v.ty = t) (hmarks : v.marks = .empty)
    (hparts : parts v.content = []) (hcapsule : ∀ h, v.content ≠ .capsule h)
    (hrefinement : ∀ r, v.refinement? = some r → r.Writable limit)
    (hnumber : ∀ n, v.asNumber? = some n →
      Msgpack.ofNumber (Json.echo.number n) = Msgpack.ofNumber n) : v.ReadIn limit t where
  wellFormed := hv
  ty_eq := hty
  unmarked := hmarks
  capsuleFree := capsuleFree_iff.mpr ⟨hcapsule, by simp [hparts]⟩
  refinements := forall_contains_iff.mpr ⟨hrefinement, by simp [hparts]⟩
  steady := forall_contains_iff.mpr ⟨hnumber, by simp [hparts]⟩

theorem readIn_null (ht : t.WellFormed) : (null t).ReadIn limit t :=
  readIn_of_leaf (.null ht) rfl rfl rfl (fun _ h => by cases h) (fun _ h => by cases h)
    fun _ h => by cases h

/-- Booleans, numbers and texts were read if their numbers were. -/
theorem readIn_of_scalar (hv : v.WellFormed) (hty : v.ty = t) (hmarks : v.marks = .empty)
    (hrank : rank v.content ∈ [1, 2, 3]) (hsteady : v.Steady Json.echo) : v.ReadIn limit t := by
  obtain ⟨hparts, hcapsule, hrefinement⟩ : parts v.content = [] ∧
      (∀ h, v.content ≠ .capsule h) ∧ v.refinement? = none := by
    obtain ⟨own, content, marks⟩ := v
    cases content <;> simp [rank, parts, refinement?] at hrank ⊢
  exact readIn_of_leaf hv hty hmarks hparts hcapsule (by simp [hrefinement]) (hsteady v .self)

theorem Steady.numbersAlike (hv : v.Steady Json.echo) (hw : w.Steady Json.echo) :
    Msgpack.NumbersAlike v w := by
  intro x hx y hy n k hn hk hsame
  rw [← hv x hx n hn, ← hw y hy k hk]
  exact congrArg Msgpack.ofNumber (Decimal.written_eq_of_same hsame)

/-- What stands inside a value has its equal inside an equal one. -/
theorem exists_contains_of_same (h : v.same w) (hx : v.Contains x) :
    ∃ y, w.Contains y ∧ x.same y := by
  induction hx with
  | self => exact ⟨w, .self, h⟩
  | inside _ hx ih =>
    obtain ⟨y, hy, hsame⟩ := ih
    obtain ⟨z, hz, hxz⟩ := (forall₂_parts_of_same hsame).exists_of_mem_left hx
    exact ⟨z, hy.inside hz, hxz⟩

/-- What stands inside an equal value is encoded if equal numbers are written alike. -/
theorem EncodedInside.of_same (h : w.EncodedInside) (hv : v.WellFormed) (hw : w.WellFormed)
    (hdynamic : w.ty.hasDynamic = false) (halike : Msgpack.NumbersAlike w v) (hsame : v.same w) :
    v.EncodedInside := by
  intro x hx
  obtain ⟨y, hy, hxy⟩ := exists_contains_of_same hsame hx
  obtain ⟨m, hm, hfits⟩ := h y hy
  have hxwell := hv.of_contains hx
  have hywell := hw.of_contains hy
  have hyx := same_symm hxwell hywell hxy
  have hmatched : Msgpack.Matched y x y.ty x.ty :=
    ⟨hywell, hxwell, hywell.type_wellFormed, hxwell.type_wellFormed, (same_iff.mp hyx).1,
      hywell.type_wellFormed.same_refl, hxwell.type_wellFormed.same_refl,
      hw.hasDynamic_of_contains hdynamic hy⟩
  refine ⟨m, Msgpack.toMsgpack_of_same hmatched (fun y' hy' x' hx' => ?_) hyx hm, hfits⟩
  exact halike y' (hy.trans hy') x' (hx.trans hx')

namespace ReadIn

/-- Refinements that were read say the same if they are written alike. -/
theorem refinementsTold (hlimit : limit < Word.signedBound) (hv : v.ReadIn limit t)
    (hw : w.ReadIn limit t) (hencoded : v.EncodedInside) : Msgpack.RefinementsTold v w := by
  intro x hx y hy hty r q hr hq heq
  have hwritable := hv.refinements x hx r hr
  have hwritable' := hw.refinements y hy q hq
  have hxwell := hv.wellFormed.of_contains hx
  have hywell := hw.wellFormed.of_contains hy
  obtain ⟨m, hm, hfits⟩ := hencoded x hx
  obtain ⟨own, content, marks⟩ := x
  obtain ⟨own', content', marks'⟩ := y
  cases content <;> cases hr
  cases content' <;> cases hq
  obtain rfl := Except.ok.inj hm
  cases hxwell with
  | unknown _ retained start =>
    cases hywell with
    | unknown _ retained' start' =>
      -- Both are read as what was written, so one written form is left of the two.
      have hread : Msgpack.toValue ⟨0, limit⟩ 0 own (.ofUnknown r) = _ :=
        Msgpack.toValue_ofUnknown own hlimit hwritable start hfits (Nat.le_refl 0)
      have hread' : Msgpack.toValue ⟨0, limit⟩ 0 own (.ofUnknown q) = _ :=
        Msgpack.toValue_ofUnknown own hlimit hwritable' start' (heq ▸ hfits) (Nat.le_refl 0)
      rw [heq, hread'] at hread
      have hkept : q.retainFor own = q := (Refinement.retainFor_eq_of_same hty q).trans retained'
      rw [unknownRefined, unknownRefined, Refinement.retainFor_written retained,
        Refinement.retainFor_written hkept] at hread
      obtain hwritten : q.written = r.written :=
        Content.unknown.inj (Value.mk.inj (Except.ok.inj hread)).2.1
      exact Refinement.same_trans (Refinement.same_symm r.same_written)
        (hwritten ▸ q.same_written)

/-- Values that were read in one slot without `dynamic` are identical if they are at one place and
not unknown. -/
theorem identical_of_compare (hlimit : limit < Word.signedBound) (ht : t.WellFormed)
    (hdynamic : t.hasDynamic = false) (hv : v.ReadIn limit t) (hw : w.ReadIn limit t)
    (hknown : v.isUnknown = false) (hencoded : v.EncodedInside) (hencoded' : w.EncodedInside)
    (h : v.compare w = .eq) : v.withoutMarks.identical w.withoutMarks := by
  have hrank : rank v.content = rank w.content := by
    by_contra hne
    rw [compare_of_rank_ne hne, Nat.compare_eq_eq] at h
    exact hne h
  obtain hnull | hleaf | hcontainer : rank v.content = 0 ∨ rank v.content ∈ [1, 2, 3] ∨
      rank v.content = 4 := by
    have hcapsule := hv.capsuleFree v .self
    obtain ⟨own, content, m⟩ := v
    cases content with
    | unknown => cases hknown
    | capsule handle => exact absurd rfl (hcapsule handle)
    | null | bool | number | string | items | entries => simp [rank]
  · have hty := hv.ty_eq.trans hw.ty_eq.symm
    have hwell := hv.wellFormed.type_wellFormed
    obtain ⟨own, content, m⟩ := v
    obtain ⟨own', content', m'⟩ := w
    cases content <;> cases hnull
    cases content' <;> cases hrank
    obtain rfl : own = own' := hty
    exact identical_iff.mpr ⟨hwell.same_refl, rfl, rfl⟩
  · have hsame := same_of_compare_eq_eq hv.wellFormed hw.wellFormed h hrank.symm hleaf
    exact identical_withoutMarks_of_same (same_symm hw.wellFormed hv.wellFormed hsame)
  · -- Containers are at one place if they are encoded alike.
    obtain ⟨m, hm, hfits⟩ := hencoded v .self
    obtain ⟨m', hm', hfits'⟩ := hencoded' w .self
    rw [compare_of_containers hcontainer (hrank ▸ hcontainer), ownBytes?_of_toMsgpack hm,
      ownBytes?_of_toMsgpack hm'] at h
    have hbytes : m.write = m'.write := Std.LawfulEqOrd.eq_of_compare (Ordering.then_eq_eq.mp h).1
    obtain rfl := Msgpack.write_injective hfits hfits' hbytes
    have hmatched : Msgpack.Matched v w v.ty w.ty :=
      .of_inSlot ht hv.wellFormed hw.wellFormed (.of_ty_eq ht hv.ty_eq) (.of_ty_eq ht hw.ty_eq)
        hdynamic
    exact Msgpack.identical_of_toMsgpack hmatched (hv.refinementsTold hlimit hw hencoded) hm hm'

/-- An element that was merged with another one is encoded inside as that is. -/
theorem encodedInside_of_canonicalSet (hdynamic : t.hasDynamic = false)
    (hvs : ∀ v ∈ vs, v.ReadIn limit t) (h : ∀ v ∈ canonicalSet vs, v.EncodedInside) :
    ∀ v ∈ vs, v.EncodedInside := by
  intro v hv
  have hunmarked : ∀ w ∈ vs, w.marks = .empty := fun w hw => (hvs w hw).unmarked
  obtain ⟨w, hw, hdata | hsame⟩ := exists_mem_canonicalSet_same hv
  · -- Without marks, the same data is the same value.
    have hmem := mem_of_mem_canonicalSet hunmarked hw
    obtain rfl : v = w := by
      have hmarks := hunmarked v hv
      have hmarks' := hunmarked w hmem
      obtain ⟨own, content, m⟩ := v
      obtain ⟨own', content', m'⟩ := w
      obtain ⟨rfl, rfl⟩ : own = own' ∧ content = content' := hdata
      obtain rfl : m = .empty := hmarks
      obtain rfl : m' = .empty := hmarks'
      rfl
    exact h v hw
  · have hmem := mem_of_mem_canonicalSet hunmarked hw
    refine (h w hw).of_same (hvs v hv).wellFormed (hvs w hmem).wellFormed ?_
      ((hvs w hmem).steady.numbersAlike (hvs v hv).steady) hsame
    rw [(hvs w hmem).ty_eq]
    exact hdynamic

end ReadIn

/-! ### Sets that were read -/

/-- Equal values come back as the same, which equals itself. -/
theorem readBack_eq_of_same (h : Placed Json.echo t v) (hdynamic : t.hasDynamic = false)
    (hvw : v.same w) : v.readBack Json.echo t = w.readBack Json.echo t ∧
      (v.readBack Json.echo t).same (v.readBack Json.echo t) :=
  ⟨readBack_eq_of_identical h hdynamic (identical_withoutMarks_of_same hvw),
    same_refl (h.wellFormed_readBack Json.keepsTypes_echo).1
      (isWhollyKnown_readBack (isWhollyKnown_of_same hvw) t)⟩

/-- Elements that were read are told apart in the form in which they are read from text, if that is
the form in which values come back from there. -/
theorem toldApart_readBack (hlimit : limit < Word.signedBound) (ht : t.WellFormed)
    (hdynamic : t.hasDynamic = false) (hvs : ∀ v ∈ vs, v.ReadIn limit t)
    (hknown : ∀ v ∈ vs, v.isUnknown = false) (hencoded : ∀ v ∈ vs, v.EncodedInside)
    (hws : ∀ w ∈ ws, Placed Json.echo t w)
    (himages : vs.map rewritten = ws.map (readBack Json.echo t)) :
    ToldApart (ws.map (readBack Json.echo t)) := by
  intro x hx y hy hxy
  -- Each element comes back as itself, and identical ones come back as the same.
  have hself {x : Value} (hx : x ∈ ws.map (readBack Json.echo t)) :
      ∃ v ∈ vs, v.rewritten = x ∧ v.readBack Json.echo t = x := by
    obtain ⟨w, hw, hback⟩ := List.mem_map.mp hx
    rw [← himages] at hx
    obtain ⟨v, hv, rfl⟩ := List.mem_map.mp hx
    refine ⟨v, hv, rfl, ?_⟩
    rw [← readBack_rewritten, ← hback, readBack_readBack (hws w hw) hdynamic]
  obtain ⟨v, hv, hvx, hvback⟩ := hself hx
  obtain ⟨w, hw, hwy, hwback⟩ := hself hy
  rw [← hvx, ← hwy, compare_rewritten (hvs v hv).steady (hvs w hw).steady] at hxy
  have hplaced : Placed Json.echo t v := placed_of_hasDynamic (hvs v hv).wellFormed
    (hvs v hv).capsuleFree ht hdynamic ((hvs v hv).ty_eq ▸ ht.same_refl)
  rw [← hvback, ← hwback]
  have hsame := (hvs v hv).identical_of_compare hlimit ht hdynamic (hvs w hw) (hknown v hv)
    (hencoded v hv) (hencoded w hw) hxy
  exact readBack_eq_of_identical hplaced hdynamic hsame

/-- The set of elements that were read is in the order of the set of those that they stand for, as
that comes back from text. -/
theorem map_rewritten_canonicalSet (hlimit : limit < Word.signedBound) (ht : t.WellFormed)
    (hdynamic : t.hasDynamic = false) (hvs : ∀ v ∈ vs, v.ReadIn limit t)
    (hknown : ∀ v ∈ vs, v.isUnknown = false) (hencoded : ∀ v ∈ vs, v.EncodedInside)
    (hws : ∀ w ∈ ws, Placed Json.echo t w)
    (himages : vs.map rewritten = ws.map (readBack Json.echo t)) :
    (canonicalSet vs).map rewritten =
      canonicalSet ((canonicalSet ws).map (readBack Json.echo t)) := by
  have htold := toldApart_readBack hlimit ht hdynamic hvs hknown hencoded hws himages
  rw [← canonicalSet_rewritten fun v hv => (hvs v hv).steady, himages]
  refine (canonicalSet_map_canonicalSet (fun v m => ?_) (marks_readBack Json.echo t)
    (fun v hv w _ hsame => readBack_eq_of_same (hws v hv) hdynamic hsame) htold).symm
  exact readBack_of_sameData (.withMarks _ _) t

end Value

end TypedData
