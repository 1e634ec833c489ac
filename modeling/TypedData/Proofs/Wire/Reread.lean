import TypedData.Proofs.Wire.Echoed
import TypedData.Proofs.Wire.Received
import TypedData.Proofs.Wire.Rewritten

/-!
# What comes back from text

A value that comes back from text is in a form of its own: identical values come back as the same,
and what came back comes back as it is.

## Main results

* `Value.readBack_eq_of_identical` — identical values come back as the same
* `Value.readBack_readBack` — what came back comes back as it is
* `Value.readBack_rewritten` — a value comes back as its rewritten form does
-/

namespace TypedData

open Wire

/-- Refinements that say the same are read as the same. -/
theorem Refinement.written_eq_of_same {r q : Refinement} (h : r.same q) :
    r.written = q.written := by
  have hbound {a b : Option NumberBound} (h : sameBound a b) :
      a.map (·.written) = b.map (·.written) := by
    cases a <;> cases b <;> first | rfl | cases h | skip
    rename_i a b
    obtain ⟨hvalue, hinclusive⟩ := Bool.and_eq_true_iff.mp h
    simp [NumberBound.written, Decimal.written_eq_of_same hvalue, eq_of_beq hinclusive]
  obtain ⟨notNull, start, lower, upper, lengthLower, lengthUpper⟩ := r
  obtain ⟨notNull', start', lower', upper', lengthLower', lengthUpper'⟩ := q
  simp only [same, Bool.and_eq_true, beq_iff_eq] at h
  obtain ⟨⟨⟨⟨⟨rfl, rfl⟩, hlower⟩, hupper⟩, rfl⟩, rfl⟩ := h
  simp only [written, hbound hlower, hbound hupper]

namespace Value

variable {c : Echo} {limit : Nat} {v w x y : Value} {s t u : Ty} {vs ws : List Value} {ts : List Ty}

theorem marks_readBack (c : Echo) (t : Ty) (v : Value) : (v.readBack c t).marks = .empty := by
  obtain ⟨own, content, marks⟩ := v
  cases content <;> rfl

theorem readBack_of_sameData (h : SameData v w) (t : Ty) : v.readBack c t = w.readBack c t := by
  obtain ⟨own, content, marks⟩ := v
  obtain ⟨own', content', marks'⟩ := w
  obtain ⟨rfl, rfl⟩ : own = own' ∧ content = content' := h
  cases content <;> rfl

theorem readBackEach_eq_of_forall₂
    (h : List.Forall₂ (fun v t => ∀ w : Value, v.withoutMarks.identical w.withoutMarks →
      v.readBack c t = w.readBack c t) vs ts)
    (hvw : List.Forall₂ (fun v w => v.withoutMarks.identical w.withoutMarks) vs ws) :
    readBackEach c ts vs = readBackEach c ts ws := by
  induction h generalizing ws with
  | nil =>
    cases hvw
    rfl
  | cons hv _ ih =>
    obtain _ | ⟨hhead, htail⟩ := hvw
    simp only [readBackEach, List.headD_cons, List.tail_cons, hv _ hhead, ih htail]

/-- The members of a value that is placed in a slot without `dynamic`. -/
theorem Placed.items_of_hasDynamic {own : Ty} {m : Marks} (h : Placed c t ⟨own, .items vs, m⟩)
    (hdynamic : t.hasDynamic = false) : ∃ ts, slots? t vs.length = some ts ∧
      List.Forall₂ (fun v u => Placed c u v ∧ u.hasDynamic = false) vs ts := by
  obtain ⟨ts, hts, hvs⟩ := h.items (Ty.isDynamic_of_hasDynamic hdynamic)
  exact ⟨ts, hts, hvs.imp_of_mem fun v _ u hu hv =>
    ⟨hv, Ty.hasDynamic_of_mem_parts hdynamic (mem_parts_of_slots? hts hu)⟩⟩

theorem Placed.entries_of_hasDynamic {own : Ty} {es : Entries Value} {m : Marks}
    (h : Placed c t ⟨own, .entries es, m⟩) (hdynamic : t.hasDynamic = false) {e : String × Value}
    (he : e ∈ es) : Placed c (entrySlot t e.1) e.2 ∧ (entrySlot t e.1).hasDynamic = false := by
  obtain ⟨hslot, hplaced⟩ := h.entries (Ty.isDynamic_of_hasDynamic hdynamic) he
  exact ⟨hplaced, Ty.hasDynamic_of_mem_parts hdynamic (mem_parts_of_slotOf? hslot)⟩

/-! ### Identical values -/

/-- Identical values without members come back from text as the same. -/
theorem readBack_eq_of_identical_of_leaf (hconcrete : t.isDynamic = false)
    (hcapsule : v.CapsuleFree) (hrank : rank v.content ≠ 4)
    (hvw : v.withoutMarks.identical w.withoutMarks) :
    v.readBack Json.echo t = w.readBack Json.echo t := by
  obtain ⟨-, -, h⟩ := identical_iff.mp hvw
  obtain ⟨own, content, m⟩ := v
  obtain ⟨own', content', m'⟩ := w
  cases content <;> cases content' <;> first | cases h | skip
  case items | entries => exact absurd rfl hrank
  case capsule handle _ => exact absurd rfl (hcapsule _ .self handle)
  case null.null => rfl
  case unknown.unknown r q => rw [readBack, readBack, Refinement.written_eq_of_same h]
  all_goals simp only [readBack, Echo.slotType, hconcrete, Bool.false_eq_true, if_false]
  case bool.bool => rw [eq_of_beq h]
  case number.number n k =>
    have hnumber : Json.echo.number n = Json.echo.number k := Decimal.written_eq_of_same h
    rw [hnumber]
  case string.string => rw [eq_of_beq h]

/-- Identical values come back from text as the same. -/
theorem readBack_eq_of_identical (h : Placed Json.echo t v) (hdynamic : t.hasDynamic = false)
    (hvw : v.withoutMarks.identical w.withoutMarks) :
    v.readBack Json.echo t = w.readBack Json.echo t := by
  have hconcrete := Ty.isDynamic_of_hasDynamic hdynamic
  induction v using Value.induction generalizing t w with
  | null | unknown | bool | number | string | capsule =>
    exact readBack_eq_of_identical_of_leaf hconcrete h.capsuleFree (by simp [rank]) hvw
  | items own vs m ih =>
    rw [withoutMarks_items] at hvw
    obtain ⟨-, -, hcontent⟩ := identical_iff.mp hvw
    obtain ⟨own', content', m'⟩ := w
    cases content' with
    | items ws =>
      rw [withoutMarks_items] at hcontent
      have heach := identicalEach_iff.mp hcontent
      rw [List.forall₂_map_left_iff, List.forall₂_map_right_iff] at heach
      obtain ⟨ts, hts, hvs⟩ := h.items_of_hasDynamic hdynamic
      rw [readBack_items hts, readBack_items (heach.length_eq ▸ hts),
        readBackEach_eq_of_forall₂ (hvs.imp_of_mem fun v hv u _ hvu w hvw =>
          ih v hv hvu.1 hvu.2 hvw (Ty.isDynamic_of_hasDynamic hvu.2)) heach]
    | _ => cases hcontent
  | entries own es m ih =>
    rw [withoutMarks_entries] at hvw
    obtain ⟨-, -, hcontent⟩ := identical_iff.mp hvw
    obtain ⟨own', content', m'⟩ := w
    cases content' with
    | entries fs =>
      rw [withoutMarks_entries] at hcontent
      have heach := identicalEntries_iff.mp hcontent
      rw [List.forall₂_map_left_iff, List.forall₂_map_right_iff] at heach
      have hsame : readBackEntries Json.echo (entrySlot t) es =
          readBackEntries Json.echo (entrySlot t) fs := by
        rw [readBackEntries_eq_map, readBackEntries_eq_map]
        refine (heach.imp_of_mem fun e he f _ hef => ?_).map_eq_map fun _ _ h => h
        obtain ⟨hkey, hentry⟩ := hef
        obtain ⟨hplaced, hdynamic⟩ := h.entries_of_hasDynamic hdynamic he
        rw [ih e he hplaced hdynamic hentry (Ty.isDynamic_of_hasDynamic hdynamic)]
        exact congrArg (fun k => (k, f.2.readBack Json.echo (entrySlot t k))) hkey
      rw [readBack_entries hconcrete, readBack_entries hconcrete, hsame]
    | _ => cases hcontent

/-! ### What came back comes back as it is -/

theorem readBackEach_readBackEach
    (h : List.Forall₂ (fun v t => (v.readBack c t).readBack c t = v.readBack c t) vs ts) :
    readBackEach c ts (readBackEach c ts vs) = readBackEach c ts vs := by
  induction h with
  | nil => rfl
  | cons hv _ ih => simp only [readBackEach, List.headD_cons, List.tail_cons, hv, ih]

/-- The elements of a set that came back are some of those that came back in it. -/
theorem map_readBack_canonicalSet
    (h : ∀ v ∈ vs, (v.readBack c t).readBack c t = v.readBack c t) :
    (canonicalSet (vs.map (readBack c t))).map (readBack c t) =
      canonicalSet (vs.map (readBack c t)) := by
  refine (List.map_congr_left fun w hw => ?_).trans (List.map_id _)
  have hunmarked : ∀ x ∈ vs.map (readBack c t), x.marks = .empty :=
    List.forall_mem_map.mpr fun v _ => marks_readBack c t v
  obtain ⟨v, hv, rfl⟩ := List.mem_map.mp (mem_of_mem_canonicalSet hunmarked hw)
  exact h v hv

/-- What came back from text comes back as it is. -/
theorem readBack_readBack (h : Placed Json.echo t v) (hdynamic : t.hasDynamic = false) :
    (v.readBack Json.echo t).readBack Json.echo t = v.readBack Json.echo t := by
  have hconcrete := Ty.isDynamic_of_hasDynamic hdynamic
  induction v using Value.induction generalizing t with
  | null => rfl
  | unknown own r m =>
    have hretained : (r.written.retainFor t).written.retainFor t =
        r.written.written.retainFor t := by
      cases t <;> rfl
    rw [readBack, unknownRefined, ofContent, readBack, unknownRefined, hretained,
      Refinement.written_written, ofContent]
  | bool | string | capsule => simp [readBack, ofContent, Echo.slotType, hconcrete]
  | number own n m =>
    have hnumber : Json.echo.number (Json.echo.number n) = Json.echo.number n :=
      Decimal.written_written n
    simp [readBack, ofContent, Echo.slotType, hconcrete, hnumber]
  | items own vs m ih =>
    obtain ⟨ts, hts, hvs⟩ := h.items_of_hasDynamic hdynamic
    have heach : List.Forall₂ (fun v u =>
        (v.readBack Json.echo u).readBack Json.echo u = v.readBack Json.echo u) vs ts :=
      hvs.imp_of_mem fun v hv u _ hvu => ih v hv hvu.1 hvu.2 (Ty.isDynamic_of_hasDynamic hvu.2)
    rw [readBack_items hts, inOrder]
    split
    · rename_i hset
      cases t with
      | set u =>
        obtain rfl := Option.some.inj hts
        have hback : ∀ v ∈ vs, (v.readBack Json.echo u).readBack Json.echo u =
            v.readBack Json.echo u := by
          intro v hv
          obtain ⟨u', hu', hback⟩ := heach.exists_of_mem_left hv
          rwa [List.eq_of_mem_replicate hu'] at hback
        rw [readBackEach_replicate, ofContent, readBack_items rfl, readBackEach_replicate,
          map_readBack_canonicalSet hback, inOrder, if_pos hset,
          canonicalSet_eq_self (inSetOrder_canonicalSet _), ofContent]
      | _ => cases hset
    · rename_i hset
      have hlength := length_readBackEach Json.echo ts vs
      rw [ofContent, readBack_items (hlength.symm ▸ hts), readBackEach_readBackEach heach, inOrder,
        if_neg hset, ofContent]
  | entries own es m ih =>
    have heach : readBackEntries Json.echo (entrySlot t)
        (readBackEntries Json.echo (entrySlot t) es) =
        readBackEntries Json.echo (entrySlot t) es := by
      rw [readBackEntries_eq_map, readBackEntries_eq_map, List.map_map]
      refine List.map_congr_left fun e he => ?_
      obtain ⟨hplaced, hdynamic⟩ := h.entries_of_hasDynamic hdynamic he
      exact congrArg (Prod.mk e.1) (ih e he hplaced hdynamic (Ty.isDynamic_of_hasDynamic hdynamic))
    rw [readBack_entries hconcrete, ofContent, readBack_entries hconcrete, heach, ofContent]

/-! ### Rewritten values -/

theorem readBackEach_rewrittenEach
    (h : ∀ v ∈ vs, ∀ t, v.rewritten.readBack Json.echo t = v.readBack Json.echo t) (ts : List Ty) :
    readBackEach Json.echo ts (rewrittenEach vs) = readBackEach Json.echo ts vs := by
  induction vs generalizing ts with
  | nil => rfl
  | cons v vs ih =>
    rw [List.forall_mem_cons] at h
    rw [rewrittenEach, readBackEach, readBackEach, h.1, ih h.2]

/-- A value comes back from text as its rewritten form does. -/
theorem readBack_rewritten (v : Value) (t : Ty) :
    v.rewritten.readBack Json.echo t = v.readBack Json.echo t := by
  induction v using Value.induction generalizing t with
  | null | unknown | bool | string | capsule => rfl
  | number own n m =>
    have hnumber : Json.echo.number n.written = Json.echo.number n := Decimal.written_written n
    rw [rewritten, readBack, readBack, hnumber]
  | items own vs m ih =>
    have hlength : (rewrittenEach vs).length = vs.length := by
      rw [rewrittenEach_eq_map, List.length_map]
    rw [rewritten, readBack, readBack, hlength, readBackEach_rewrittenEach ih]
  | entries own es m ih =>
    rw [rewritten, readBack, readBack, readBackEntries_eq_map, readBackEntries_eq_map,
      rewrittenEntries_eq_map, List.map_map]
    refine congrArg (ofContent _ <| .entries ·) (List.map_congr_left fun e he => ?_)
    exact congrArg (Prod.mk e.1) (ih e he _)

end Value

end TypedData
