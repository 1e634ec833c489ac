import TypedData.Proofs.Binary64.Approximate
import TypedData.Proofs.Value.Equivalence
import TypedData.Proofs.Wire.JsonLeaves
import TypedData.Proofs.Wire.Settled

/-!
# Numbers as they are read from text

A number that comes back from MessagePack need not have the form in which it is read from text,
but it is encoded alike in both. So the order of set elements does not tell the two forms apart, and
a set of rewritten elements is the set of the elements with its numbers rewritten.

## Main definitions

* `Value.rewritten` — a value with its numbers in the form in which they are read from text

## Main results

* `Msgpack.ofNumber_numberBack` — numbers that come back are encoded alike in both forms
* `Value.identical_rewritten` — a value and its rewritten form are identical
* `Value.compare_rewritten`, `Value.canonicalSet_rewritten` — the order of set elements is kept
-/

namespace TypedData

namespace Decimal

theorem toInt64?_eq_of_same {a b : Decimal} (h : a.same b) : a.toInt64? = b.toInt64? := by
  rw [toInt64?, toInt64?, toSmallInt?, toSmallInt?, of_decide_eq_true h]

/-- Zero is a machine word. -/
theorem toInt64?_of_toRat_eq_zero {n : Decimal} (h : n.toRat = 0) : n.toInt64? = some 0 := by
  have hnormal := normalize_of_digits_eq_zero (toRat_eq_zero_iff.mp h)
  rw [toInt64?, toSmallInt?, hnormal]
  rfl

/-- A number without places behind the point is read as it stands. -/
theorem written_of_scale_eq_zero {n : Decimal} (h : n.scale = 0) : n.written = n := by
  obtain ⟨digits, scale⟩ := n
  obtain rfl : scale = 0 := h
  by_cases hzero : digits = 0
  · rw [written, normalize_of_digits_eq_zero hzero, hzero]
    rfl
  · obtain ⟨k, hdigits, hscale⟩ := exists_normalize ⟨digits, 0⟩ hzero
    simp only at hdigits hscale
    have hk : (-(normalize ⟨digits, 0⟩).scale).toNat = k := by omega
    rw [written, if_pos (by omega), hk]
    exact congrArg (Decimal.mk · 0) hdigits.symm

end Decimal

namespace Msgpack

/-- A number is encoded alike in the forms in which it comes back from either format. -/
theorem ofNumber_numberBack (n : Decimal) : ofNumber (numberBack n) = ofNumber n.written := by
  cases hint : n.toInt64? with
  | some i => simp only [numberBack, hint, Decimal.ofInt_of_toInt64? hint]
  | none =>
    cases hfloat : Binary64.ofDecimal? n with
    | none => simp only [numberBack, hint, hfloat]
    | some f =>
      obtain ⟨v, hv, hsame⟩ := Binary64.value?_of_ofDecimal? hfloat
      have hback : numberBack n = v := by simp only [numberBack, hint, hfloat, hv, Option.getD_some]
      rw [hback, ← Decimal.written_eq_of_same hsame]
      have hscale := Binary64.scale_of_value? hv
      have hleast := f.le_power
      by_cases hpower : f.power < 0
      · -- Both forms are approximated by the same pattern.
        have hm : f.mantissa ≠ 0 := by
          intro hm
          have hzero := (Binary64.isZero_iff_of_value? hv).mp (Binary64.isZero_iff.mpr hm)
          have hn := Decimal.toInt64?_of_toRat_eq_zero
            ((Decimal.same_iff.mp hsame).symm.trans hzero)
          rw [hn] at hint
          cases hint
        have hfloat {x : Decimal} (hx : x.same v) (hnonneg : 0 ≤ x.scale)
            (hplaces : x.scale ≤ 1074) : ofNumber x = .float64 f := by
          have hword : x.toInt64? = none :=
            (Decimal.toInt64?_eq_of_same hx).trans ((Decimal.toInt64?_eq_of_same hsame).trans hint)
          simp only [ofNumber, hword, Binary64.ofDecimal?_eq hv hm hpower hx hnonneg hplaces]
        obtain ⟨-, hnonneg, hplaces⟩ :=
          Decimal.within_written (Binary64.within_value? hv (Nat.le_refl 1074))
        rw [hfloat (Decimal.same_written v) hnonneg (by omega),
          hfloat (Decimal.same_iff.mpr rfl) (by omega) (by omega)]
      · rw [Decimal.written_of_scale_eq_zero (by omega)]

end Msgpack

namespace Value

variable {v w : Value} {vs ws : List Value} {es fs : Entries Value} {t : Ty}

/-! ### Rewritten values -/

mutual

/-- A value with its numbers in the form in which they are read from text. -/
def rewritten : Value → Value
  | ⟨ty, .number n, m⟩ => ⟨ty, .number n.written, m⟩
  | ⟨ty, .items vs, m⟩ => ⟨ty, .items (rewrittenEach vs), m⟩
  | ⟨ty, .entries es, m⟩ => ⟨ty, .entries (rewrittenEntries es), m⟩
  | v => v

/-- Several values with their numbers rewritten. -/
def rewrittenEach : List Value → List Value
  | [] => []
  | v :: vs => v.rewritten :: rewrittenEach vs

/-- Several entries with their numbers rewritten. -/
def rewrittenEntries : Entries Value → Entries Value
  | [] => []
  | (k, v) :: es => (k, v.rewritten) :: rewrittenEntries es

end

theorem rewrittenEach_eq_map (vs : List Value) : rewrittenEach vs = vs.map rewritten := by
  induction vs with
  | nil => rfl
  | cons v vs ih => rw [rewrittenEach, ih, List.map_cons]

theorem rewrittenEntries_eq_map (es : Entries Value) :
    rewrittenEntries es = es.map fun e => (e.1, e.2.rewritten) := by
  induction es with
  | nil => rfl
  | cons e es ih => rw [rewrittenEntries, ih, List.map_cons]

@[simp] theorem rewritten_ty (v : Value) : v.rewritten.ty = v.ty := by
  obtain ⟨ty, content, m⟩ := v
  cases content <;> rfl

@[simp] theorem rewritten_marks (v : Value) : v.rewritten.marks = v.marks := by
  obtain ⟨ty, content, m⟩ := v
  cases content <;> rfl

@[simp] theorem rank_rewritten (v : Value) : rank v.rewritten.content = rank v.content := by
  obtain ⟨ty, content, m⟩ := v
  cases content <;> rfl

theorem rewritten_withMarks (v : Value) (m : Marks) :
    (v.withMarks m).rewritten = v.rewritten.withMarks m := by
  obtain ⟨ty, content, m'⟩ := v
  cases content <;> rfl

/-- A value and its rewritten form are identical. -/
theorem identical_rewritten (hv : v.WellFormed) : v.rewritten.identical v := by
  induction v using Value.induction with
  | number ty n m =>
    exact identical_iff.mpr ⟨hv.type_wellFormed.same_refl, rfl, Decimal.same_written n⟩
  | unknown ty r m =>
    exact identical_iff.mpr ⟨hv.type_wellFormed.same_refl, rfl, r.same_refl⟩
  | null | bool | string | capsule =>
    refine identical_iff.mpr ⟨hv.type_wellFormed.same_refl, rfl, ?_⟩
    simp [rewritten, identicalContent, CapsuleHandle.same, CapsuleType.same]
  | items ty vs m ih =>
    refine identical_iff.mpr ⟨hv.type_wellFormed.same_refl, rfl, ?_⟩
    refine identicalEach_iff.mpr ?_
    rw [rewrittenEach_eq_map, List.forall₂_map_left_iff, List.forall₂_same]
    exact fun v hv' => ih v hv' (hv.of_mem_items hv')
  | entries ty es m ih =>
    refine identical_iff.mpr ⟨hv.type_wellFormed.same_refl, rfl, ?_⟩
    refine identicalEntries_iff.mpr ?_
    rw [rewrittenEntries_eq_map, List.forall₂_map_left_iff, List.forall₂_same]
    exact fun e he => ⟨rfl, ih e he (hv.of_mem_entries he)⟩

theorem sameEach_rewritten (h : ∀ v ∈ vs, ∀ w : Value, v.rewritten.same w.rewritten = v.same w)
    (ws : List Value) : sameEach (rewrittenEach vs) (rewrittenEach ws) = sameEach vs ws := by
  induction vs generalizing ws with
  | nil => cases ws <;> rfl
  | cons v vs ih =>
    obtain ⟨hv, hvs⟩ := List.forall_mem_cons.mp h
    cases ws with
    | nil => rfl
    | cons w ws => simp only [rewrittenEach, sameEach, hv w, ih hvs ws]

theorem sameEntries_rewritten
    (h : ∀ e ∈ es, ∀ w : Value, e.2.rewritten.same w.rewritten = e.2.same w) (fs : Entries Value) :
    sameEntries (rewrittenEntries es) (rewrittenEntries fs) = sameEntries es fs := by
  induction es generalizing fs with
  | nil => cases fs <;> rfl
  | cons e es ih =>
    obtain ⟨he, hes⟩ := List.forall_mem_cons.mp h
    cases fs with
    | nil => rfl
    | cons f fs => simp only [rewrittenEntries, sameEntries, he f.2, ih hes fs]

/-- Equality as data does not depend on the form of numbers. -/
theorem same_rewritten (v w : Value) : v.rewritten.same w.rewritten = v.same w := by
  induction v using Value.induction generalizing w with
  | items ty vs m ih =>
    obtain ⟨ty', content, m'⟩ := w
    cases content <;> simp only [rewritten, same, sameEach_rewritten ih]
  | entries ty es m ih =>
    obtain ⟨ty', content, m'⟩ := w
    cases content <;> simp only [rewritten, same, sameEntries_rewritten ih]
  | number ty n m =>
    obtain ⟨ty', content, m'⟩ := w
    have hnumber (k : Decimal) : n.written.same k.written = n.same k := by
      rw [Bool.eq_iff_iff, Decimal.same_iff, Decimal.same_iff, Decimal.toRat_written,
        Decimal.toRat_written]
    cases content <;> simp only [rewritten, same, hnumber]
  | null | unknown | bool | string | capsule =>
    obtain ⟨ty', content, m'⟩ := w
    cases content <;> rfl

/-! ### Steady values are encoded alike -/

theorem Steady.number {ty : Ty} {n : Decimal} {m : Marks}
    (h : Steady Json.echo ⟨ty, .number n, m⟩) : Msgpack.ofNumber n.written = Msgpack.ofNumber n :=
  h _ .self n rfl

theorem itemsToMsgpack_rewritten
    (h : ∀ v ∈ vs, ∀ slot, v.rewritten.toMsgpack slot = v.toMsgpack slot) (i : Nat)
    (slots : List Ty) : itemsToMsgpack i slots (rewrittenEach vs) = itemsToMsgpack i slots vs := by
  induction vs generalizing i slots with
  | nil => rfl
  | cons v vs ih =>
    obtain ⟨hv, hvs⟩ := List.forall_mem_cons.mp h
    simp only [rewrittenEach, itemsToMsgpack, hv, ih hvs]

theorem entriesToMsgpack_rewritten
    (h : ∀ e ∈ es, ∀ slot, e.2.rewritten.toMsgpack slot = e.2.toMsgpack slot)
    (slotOf : String → Option Ty) :
    entriesToMsgpack slotOf (rewrittenEntries es) = entriesToMsgpack slotOf es := by
  induction es with
  | nil => rfl
  | cons e es ih =>
    obtain ⟨he, hes⟩ := List.forall_mem_cons.mp h
    simp only [rewrittenEntries, entriesToMsgpack, he, ih hes]

/-- A steady value is encoded alike in rewritten form. -/
theorem toMsgpack_rewritten (h : v.Steady Json.echo) (slot : Ty) :
    v.rewritten.toMsgpack slot = v.toMsgpack slot := by
  induction v using Value.induction generalizing slot with
  | null | unknown | bool | string | capsule => rfl
  | number ty n m =>
    rw [rewritten, toMsgpack, toMsgpack, h.number]
  | items ty vs m ih =>
    have hitems := itemsToMsgpack_rewritten fun v hv slot => ih v hv (h.of_mem_parts hv) slot
    have hlength : (rewrittenEach vs).length = vs.length := by
      rw [rewrittenEach_eq_map, List.length_map]
    simp only [rewritten, toMsgpack, hitems, hlength]
  | entries ty es m ih =>
    have hentries := entriesToMsgpack_rewritten fun e he slot =>
      ih e he (h.of_mem_parts (List.mem_map_of_mem he)) slot
    simp only [rewritten, toMsgpack, hentries]

theorem ownBytes?_rewritten (h : v.Steady Json.echo) : ownBytes? v.rewritten = ownBytes? v := by
  rw [ownBytes?, ownBytes?, encodeMsgpack, encodeMsgpack, rewritten_ty, toMsgpack_rewritten h]

/-- Rewriting keeps the order of steady containers if it keeps that of their parts. -/
theorem compare_rewritten_container (hrank : rank v.content = 4) (hv : v.Steady Json.echo)
    (hw : w.Steady Json.echo)
    (hparts : compareParts v.rewritten.content w.rewritten.content =
      compareParts v.content w.content) : v.rewritten.compare w.rewritten = v.compare w := by
  by_cases hrank' : rank w.content = 4
  · -- Containers are told apart by their bytes first, which stay as they are.
    rw [compare_of_containers hrank hrank', compare_of_containers (by rwa [rank_rewritten])
      (by rwa [rank_rewritten]), ownBytes?_rewritten hv, ownBytes?_rewritten hw, hparts,
      rewritten_ty, rewritten_ty]
  · have hne : rank v.content ≠ rank w.content := by omega
    have hne' : rank v.rewritten.content ≠ rank w.rewritten.content := by
      rwa [rank_rewritten, rank_rewritten]
    rw [compare_of_rank_ne hne, compare_of_rank_ne hne', rank_rewritten, rank_rewritten]

theorem compareEach_rewritten
    (h : ∀ v ∈ vs, ∀ w : Value, w.Steady Json.echo →
      v.rewritten.compare w.rewritten = v.compare w) (hws : ∀ w ∈ ws, w.Steady Json.echo) :
    compareEach (rewrittenEach vs) (rewrittenEach ws) = compareEach vs ws := by
  induction vs generalizing ws with
  | nil => cases ws <;> rfl
  | cons v vs ih =>
    obtain ⟨hv, hvs⟩ := List.forall_mem_cons.mp h
    cases ws with
    | nil => rfl
    | cons w ws =>
      obtain ⟨hw, hws⟩ := List.forall_mem_cons.mp hws
      simp only [rewrittenEach, compareEach, hv w hw, ih hvs hws]

theorem compareEntries_rewritten
    (h : ∀ e ∈ es, ∀ w : Value, w.Steady Json.echo →
      e.2.rewritten.compare w.rewritten = e.2.compare w)
    (hfs : ∀ f ∈ fs, f.2.Steady Json.echo) :
    compareEntries (rewrittenEntries es) (rewrittenEntries fs) = compareEntries es fs := by
  induction es generalizing fs with
  | nil => cases fs <;> rfl
  | cons e es ih =>
    obtain ⟨he, hes⟩ := List.forall_mem_cons.mp h
    cases fs with
    | nil => rfl
    | cons f fs =>
      obtain ⟨hf, hfs⟩ := List.forall_mem_cons.mp hfs
      simp only [rewrittenEntries, compareEntries, he f.2 hf, ih hes hfs]

/-- Rewriting keeps the place of what is no container, whatever its numbers. -/
theorem compare_rewritten_of_rank_ne (hrank : rank v.content ≠ 4) (w : Value) :
    v.rewritten.compare w.rewritten = v.compare w := by
  obtain ⟨ty, content, m⟩ := v
  obtain ⟨ty', content', m'⟩ := w
  cases content with
  | items | entries => exact absurd rfl hrank
  | number n =>
    have hnumber (k : Decimal) : n.written.compare k.written = n.compare k := by
      rw [Decimal.compare_eq, Decimal.compare_eq, Decimal.toRat_written, Decimal.toRat_written]
    cases content' <;> simp only [rewritten, compare, hnumber] <;> rfl
  | null | unknown | bool | string | capsule => cases content' <;> rfl

/-- Rewriting keeps the order of steady values. -/
theorem compare_rewritten (hv : v.Steady Json.echo) (hw : w.Steady Json.echo) :
    v.rewritten.compare w.rewritten = v.compare w := by
  induction v using Value.induction generalizing w with
  | items ty vs m ih =>
    have heach : ∀ v ∈ vs, ∀ w : Value, w.Steady Json.echo →
        v.rewritten.compare w.rewritten = v.compare w :=
      fun v hv' w hw => ih v hv' (hv.of_mem_parts hv') hw
    refine compare_rewritten_container rfl hv hw ?_
    obtain ⟨ty', content, m'⟩ := w
    cases content with
    | items ws => exact compareEach_rewritten heach fun w hw' => hw.of_mem_parts hw'
    | entries | null | unknown | bool | number | string | capsule => rfl
  | entries ty es m ih =>
    have heach : ∀ e ∈ es, ∀ w : Value, w.Steady Json.echo →
        e.2.rewritten.compare w.rewritten = e.2.compare w :=
      fun e he w hw => ih e he (hv.of_mem_parts (List.mem_map_of_mem he)) hw
    refine compare_rewritten_container rfl hv hw ?_
    obtain ⟨ty', content, m'⟩ := w
    cases content with
    | entries fs =>
      exact compareEntries_rewritten heach fun f hf => hw.of_mem_parts (List.mem_map_of_mem hf)
    | items | null | unknown | bool | number | string | capsule => rfl
  | null | unknown | bool | number | string | capsule =>
    exact compare_rewritten_of_rank_ne (by simp [rank]) w

/-! ### Sets of rewritten elements -/

/-- Steady elements are put in the same order in rewritten form. -/
theorem canonicalSet_rewritten (h : ∀ v ∈ vs, v.Steady Json.echo) :
    canonicalSet (vs.map rewritten) = (canonicalSet vs).map rewritten :=
  canonicalSet_map (fun v w => by rw [rewritten_withMarks, rewritten_marks])
    (fun v hv w hw => compare_rewritten (h v hv) (h w hw)) fun v _ w _ => same_rewritten v w

end Value

end TypedData
