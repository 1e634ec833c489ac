import TypedData.Proofs.Value.Unmarked
import TypedData.Proofs.Wire.ReadBack

/-!
# Values that were received

What comes over the wire has no marks and no capsules, and its numbers and refinements are within
the limits of the reader. Containers of such values are such values.

## Main definitions

* `Value.Clean` — a value that is so at its own place
* `Value.Received` — a value that is so at every depth

## Main results

* `Value.received_sequence`, `Value.received_mapping` — containers of received values
* `Value.Received.withoutMarks_eq` — received values have no marks to lose
* `Value.Received.portable` — received values can be sent
-/

namespace TypedData.Value

variable {limit : Nat} {v w : Value} {ty : Ty} {vs : List Value} {es : Entries Value}

/-- A value without capsules in its type and without own marks, whose number or refinement can be
written and read. -/
structure Clean (limit : Nat) (v : Value) : Prop where
  noCapsule : v.ty.hasCapsule = false
  unmarked : v.marks = .empty
  number : ∀ n, v.asNumber? = some n → n.withinExponent limit
  refinement : ∀ r, v.refinement? = some r → r.Writable limit

/-- A value that is clean at every depth. -/
def Received (limit : Nat) (v : Value) : Prop := ∀ w, v.Contains w → w.Clean limit

theorem received_iff :
    v.Received limit ↔ v.Clean limit ∧ ∀ w ∈ parts v.content, w.Received limit :=
  forall_contains_iff

/-- Without a number or a refinement there is nothing that could be beyond the limit. -/
theorem clean_of_eq_none (hty : v.ty.hasCapsule = false) (hmarks : v.marks = .empty)
    (hnumber : v.asNumber? = none) (hrefinement : v.refinement? = none) : v.Clean limit where
  noCapsule := hty
  unmarked := hmarks
  number n hn := absurd (hnumber.symm.trans hn) (by simp)
  refinement r hr := absurd (hrefinement.symm.trans hr) (by simp)

/-! ### Values without members -/

theorem received_null (h : ty.hasCapsule = false) : (null ty).Received limit :=
  received_iff.mpr ⟨clean_of_eq_none h rfl rfl rfl, List.forall_mem_nil _⟩

theorem received_unknown {r : Refinement} (h : ty.hasCapsule = false)
    (hr : (r.retainFor ty).Writable limit) : (unknownRefined ty r).Received limit := by
  refine received_iff.mpr ⟨⟨h, rfl, fun n hn => ?_, fun q hq => ?_⟩, List.forall_mem_nil _⟩
  · cases hn
  · obtain rfl := Option.some.inj hq
    exact hr

theorem received_plainUnknown (h : ty.hasCapsule = false) :
    (Value.unknown ty).Received limit := by
  refine received_iff.mpr ⟨⟨h, rfl, fun n hn => ?_, fun r hr => ?_⟩, List.forall_mem_nil _⟩
  · cases hn
  · obtain rfl := Option.some.inj hr
    exact Refinement.writable_none limit

theorem received_bool (b : Bool) : (bool b).Received limit :=
  received_iff.mpr ⟨clean_of_eq_none rfl rfl rfl rfl, List.forall_mem_nil _⟩

theorem received_string (s : String) : (string s).Received limit :=
  received_iff.mpr ⟨clean_of_eq_none rfl rfl rfl rfl, List.forall_mem_nil _⟩

theorem received_number {n : Decimal} (h : n.withinExponent limit) :
    (number n).Received limit := by
  refine received_iff.mpr ⟨⟨rfl, rfl, fun k hk => ?_, fun r hr => ?_⟩, List.forall_mem_nil _⟩
  · obtain rfl := Option.some.inj hk
    exact h
  · cases hr

/-! ### Marks -/

/-- A received value is the same without marks. -/
theorem Received.withoutMarks_eq (h : v.Received limit) : v.withoutMarks = v := by
  induction v using Value.induction with
  | null | unknown | bool | number | string | capsule =>
    have hmarks := (h _ .self).unmarked
    simp only at hmarks
    rw [hmarks]
    rfl
  | items own vs m ih =>
    obtain ⟨hself, hparts⟩ := received_iff.mp h
    have hmarks := hself.unmarked
    simp only at hmarks
    rw [hmarks, withoutMarks, withoutMarksEach_eq_map]
    conv_rhs => rw [← List.map_id vs]
    rw [List.map_congr_left fun v hv => (ih v hv (hparts v hv)).trans (id_eq v).symm]
  | entries own es m ih =>
    obtain ⟨hself, hparts⟩ := received_iff.mp h
    have hmarks := hself.unmarked
    simp only at hmarks
    rw [hmarks, withoutMarks, withoutMarksEntries_eq_map]
    conv_rhs => rw [← List.map_id es]
    refine congrArg (fun es => (⟨own, .entries es, .empty⟩ : Value))
      (List.map_congr_left fun e he => ?_)
    rw [ih e he (hparts e.2 (List.mem_map_of_mem he)), id_eq]

theorem Received.deepMarks_eq (h : v.Received limit) : v.deepMarks = .empty := by
  induction v using Value.induction with
  | null | unknown | bool | number | string | capsule => exact (h _ .self).unmarked
  | items own vs m ih =>
    obtain ⟨hself, hparts⟩ := received_iff.mp h
    have hmarks := hself.unmarked
    simp only at hmarks
    rw [deepMarks, deepMarksOf_eq_empty fun v hv => ih v hv (hparts v hv), hmarks]
    rfl
  | entries own es m ih =>
    obtain ⟨hself, hparts⟩ := received_iff.mp h
    have hmarks := hself.unmarked
    simp only at hmarks
    rw [deepMarks, deepMarksOfEntries_eq, deepMarksOf_eq_empty, hmarks]
    · rfl
    · intro v hv
      obtain ⟨e, he, rfl⟩ := List.mem_map.mp hv
      exact ih e he (hparts e.2 hv)

/-! ### Containers -/

theorem received_ofContent {c : Content Value} (hty : ty.hasCapsule = false)
    (hleaf : (ofContent ty c).asNumber? = none ∧ (ofContent ty c).refinement? = none)
    (h : ∀ w ∈ parts c, w.Received limit) : (ofContent ty c).Received limit :=
  received_iff.mpr ⟨clean_of_eq_none hty rfl hleaf.1 hleaf.2, h⟩

theorem received_collapsed (hty : ty.hasCapsule = false) (hlength : vs.length < Word.unsignedBound)
    (h : ∀ v ∈ vs, v.Received limit) : (collapsed ty vs).Received limit := by
  have hmarks := deepMarksOf_eq_empty fun v hv => (h v hv).deepMarks_eq
  rw [collapsed, hmarks]
  refine received_unknown hty ?_
  have hwritable (r : Refinement)
      (hr : r = Refinement.none.withNotNull.withLengthUpper vs.length ∨
        r = Refinement.none.withNotNull.withLength vs.length) :
      (r.retainFor ty).Writable limit := by
    rcases hr with rfl | rfl <;> cases ty <;>
      constructor <;> simp [Refinement.retainFor, Refinement.none, Refinement.withNotNull,
        Refinement.withLengthUpper, Refinement.withLength, Refinement.withLengthLower, hlength]
  refine hwritable _ ?_
  split
  · exact .inl rfl
  · exact .inr rfl

private theorem mem_of_mem_mergeEqual {kept : Value} (hkept : kept.marks = .empty)
    (hvs : ∀ v ∈ vs, v.marks = .empty) (h : w ∈ mergeEqual kept vs) : w ∈ kept :: vs := by
  induction vs generalizing kept with
  | nil => exact h
  | cons v vs ih =>
    rw [List.forall_mem_cons] at hvs
    rw [mergeEqual] at h
    split at h
    · have hunmarked : kept.withMarks v.marks = kept := by
        obtain ⟨own, c, m⟩ := kept
        simp only at hkept
        rw [withMarks, hvs.1, hkept]
        rfl
      rw [hunmarked] at h
      rcases List.mem_cons.mp (ih hkept hvs.2 h) with rfl | hmem
      · simp
      · simp [hmem]
    · rcases List.mem_cons.mp h with rfl | hmem
      · simp
      · exact List.mem_cons_of_mem _ (ih hvs.1 hvs.2 hmem)

/-- Without marks, canonical elements are given ones. -/
theorem mem_of_mem_canonicalSet (hvs : ∀ v ∈ vs, v.marks = .empty) (h : w ∈ canonicalSet vs) :
    w ∈ vs := by
  rw [canonicalSet] at h
  split at h
  · cases h
  · rename_i v rest heq
    have hsorted (x : Value) : x ∈ v :: rest ↔ x ∈ vs := by
      rw [← heq, List.mem_mergeSort]
    have hrest : ∀ x ∈ v :: rest, x.marks = .empty := fun x hx => hvs x ((hsorted x).mp hx)
    rw [List.forall_mem_cons] at hrest
    exact (hsorted w).mp (mem_of_mem_mergeEqual hrest.1 hrest.2 h)

theorem mem_of_mem_inOrder (hvs : ∀ v ∈ vs, v.marks = .empty) (h : w ∈ inOrder ty vs) :
    w ∈ vs := by
  rw [inOrder] at h
  split at h
  · exact mem_of_mem_canonicalSet hvs h
  · exact h

/-- A list, set or tuple of received elements. -/
theorem received_sequence (hty : ty.hasCapsule = false)
    (hlength : vs.any isUnknown → vs.length < Word.unsignedBound)
    (h : ∀ v ∈ vs, v.Received limit) : (sequence ty vs).Received limit := by
  have hitems {ws : List Value} (hws : ∀ w ∈ ws, w ∈ vs) :
      (ofContent ty (.items ws)).Received limit :=
    received_ofContent hty ⟨rfl, rfl⟩ fun w hw => h w (hws w hw)
  unfold sequence
  split
  · split
    · exact received_collapsed hty (hlength ‹_›) h
    · exact hitems fun _ hw => hw
  · split
    · exact received_collapsed hty (hlength ‹_›) h
    · exact hitems fun w hw => mem_of_mem_canonicalSet (fun v hv => (h v hv _ .self).unmarked) hw
  · exact hitems fun _ hw => hw

/-- A map or object of received entries. -/
theorem received_mapping (hty : ty.hasCapsule = false)
    (hlength : ty.isCollection → (es.map (·.2)).any isUnknown → es.length < Word.unsignedBound)
    (h : ∀ e ∈ es, e.2.Received limit) : (mapping ty es).Received limit := by
  have hvalues : ∀ v ∈ es.map (·.2), v.Received limit := by
    intro v hv
    obtain ⟨e, he, rfl⟩ := List.mem_map.mp hv
    exact h e he
  rw [mapping]
  split
  · rename_i hunknown
    rw [Bool.and_eq_true] at hunknown
    exact received_collapsed hty (by simpa using hlength hunknown.1 hunknown.2) hvalues
  · exact received_ofContent hty ⟨rfl, rfl⟩ hvalues

/-! ### Sending on -/

/-- A received value can be sent. -/
theorem Received.portable (h : v.Received limit) (hwell : v.WellFormed) : v.Portable limit where
  wellFormed := hwell
  noCapsule w hw := (h w hw).noCapsule
  numbers w hw := (h w hw).number
  refinements w hw := (h w hw).refinement

end TypedData.Value
