import TypedData.Proofs.Ty.Unify

/-!
# Chains of assignable types

A type is assignable to itself. Of three types in a row the first need not be assignable to the
last, since the middle one may be silent about an attribute: it does without one that the first has
and the last would take under another type, or lets one be left out that the first leaves out and
the last asks for. Those are the only two ways in which a chain breaks.

## Main definitions

* `Ty.composes` — whether three types agree on the attributes that the middle one does not require

## Main results

* `Ty.usableAs_iff_composes` — when the ends of a chain are assignable
* `Ty.Strict.usableAs_trans` — a chain holds where nothing may be left out
-/

namespace TypedData.Ty

variable {s t u : Ty}

mutual

/-- Whether the ends of a chain agree on the attributes that the type between them does not
require, at every depth. -/
def composes : Ty → Ty → Ty → Bool
  | list s, list t, list u | set s, set t, set u | map s, map t, map u => composes s t u
  | tuple ss, tuple ts, tuple us => composesEach ss ts us
  | object as, object bs, object cs => composesAttrs as bs cs
  | _, _, _ => true
termination_by structural _ _ u => u

/-- Agreement place by place. -/
def composesEach : List Ty → List Ty → List Ty → Bool
  | s :: ss, t :: ts, u :: us => composes s t u && composesEach ss ts us
  | _, _, _ => true
termination_by structural _ _ us => us

/-- Agreement on each attribute of the last of three objects. -/
def composesAttrs (as bs : List (Attr Ty)) : List (Attr Ty) → Bool
  | [] => true
  | ⟨name, u, o⟩ :: cs =>
    (match Attr.find? as name, Attr.find? bs name with
      | some a, some b => composes a.ty b.ty u
      -- Nothing is known of an attribute that the middle type does not have.
      | some a, none => a.ty.usableAs u
      -- The middle type has an attribute that the first one was free to leave out.
      | none, some _ => o
      | none, none => true) && composesAttrs as bs cs
termination_by structural cs => cs

end

/-- What agreement on one attribute of the last object asks for. -/
def ComposesAt (as bs : List (Attr Ty)) (c : Attr Ty) : Prop :=
  (∀ a b, Attr.find? as c.name = some a → Attr.find? bs c.name = some b →
      a.ty.composes b.ty c.ty) ∧
    (∀ a, Attr.find? as c.name = some a → Attr.find? bs c.name = none → a.ty.usableAs c.ty) ∧
    (Attr.find? as c.name = none → (Attr.find? bs c.name).isSome → c.isOptional)

theorem composesAttrs_iff {as bs cs : List (Attr Ty)} :
    composesAttrs as bs cs ↔ ∀ c ∈ cs, ComposesAt as bs c := by
  induction cs with
  | nil => simp [composesAttrs]
  | cons c cs ih =>
    obtain ⟨name, u, o⟩ := c
    rw [composesAttrs, Bool.and_eq_true, ih, List.forall_mem_cons]
    refine and_congr_left fun _ => ?_
    cases ha : Attr.find? as name <;> cases hb : Attr.find? bs name <;> simp [ComposesAt, ha, hb]

/-- The ends of a chain of object types are assignable if they agree on each attribute of the
last. -/
private theorem usableAttrs_iff_composesAttrs {as bs cs : List (Attr Ty)}
    (hab : usableAttrs as bs) (hbc : usableAttrs bs cs)
    (ih : ∀ c ∈ cs, ∀ s t : Ty, s.usableAs t → t.usableAs c.ty →
      (s.usableAs c.ty ↔ composes s t c.ty)) :
    usableAttrs as cs ↔ composesAttrs as bs cs := by
  rw [usableAttrs_iff, composesAttrs_iff]
  refine forall₂_congr fun c hc => ?_
  have hfirst := fun b (hb : Attr.find? bs c.name = some b) =>
    Attr.name_of_find? hb ▸ usableAttrs_iff.mp hab b (Attr.mem_of_find? hb)
  have hlast := usableAttrs_iff.mp hbc c hc
  cases ha : Attr.find? as c.name with
  | none =>
    cases hb : Attr.find? bs c.name with
    | none => simpa [ComposesAt, ha, hb] using hlast
    | some b => simp [ComposesAt, ha, hb]
  | some a =>
    cases hb : Attr.find? bs c.name with
    | none => simp [ComposesAt, ha, hb]
    | some b =>
      have habt : a.ty.usableAs b.ty := by simpa [ha] using hfirst b hb
      have hbct : b.ty.usableAs c.ty := by simpa [hb] using hlast
      simpa [ComposesAt, ha, hb] using ih c hc a.ty b.ty habt hbct

/-- The ends of a chain of tuple types are assignable if they agree place by place. -/
private theorem usableEach_iff_composesEach {ss ts us : List Ty} (hst : usableEach ss ts)
    (htu : usableEach ts us)
    (ih : ∀ u ∈ us, ∀ s t : Ty, s.usableAs t → t.usableAs u → (s.usableAs u ↔ composes s t u)) :
    usableEach ss us ↔ composesEach ss ts us := by
  induction us generalizing ss ts with
  | nil =>
    cases ts <;> cases htu
    cases ss <;> cases hst
    simp [usableEach, composesEach]
  | cons u us ihs =>
    cases ts with
    | nil => cases htu
    | cons t ts =>
      cases ss with
      | nil => cases hst
      | cons s ss =>
        rw [usableEach, Bool.and_eq_true] at hst htu
        rw [List.forall_mem_cons] at ih
        rw [usableEach, composesEach, Bool.and_eq_true, Bool.and_eq_true,
          ih.1 s t hst.1 htu.1, ihs hst.2 htu.2 ih.2]

/-- The first of three types in a chain is assignable to the last exactly if they agree on the
attributes that the middle one does not require. -/
theorem usableAs_iff_composes (hu : u.WellFormed) (hst : s.usableAs t) (htu : t.usableAs u) :
    s.usableAs u ↔ composes s t u := by
  induction hu generalizing s t with
  | bool | number | string =>
    cases t <;> cases htu
    simp [hst, composes]
  | dynamic => simp [composes]
  | capsule =>
    cases t <;> simp only [usableAs, Bool.false_eq_true] at htu
    cases s <;> simp only [usableAs, Bool.false_eq_true] at hst
    simp_all [usableAs, composes, CapsuleType.same]
  | list _ ih | set _ ih | map _ ih =>
    cases t <;> simp only [usableAs, Bool.false_eq_true] at htu
    cases s <;> simp only [usableAs, Bool.false_eq_true] at hst
    simpa only [usableAs, composes] using ih hst htu
  | tuple _ ih =>
    cases t <;> simp only [usableAs, Bool.false_eq_true] at htu
    cases s <;> simp only [usableAs, Bool.false_eq_true] at hst
    simpa only [usableAs, composes] using
      usableEach_iff_composesEach hst htu fun u hu s t => ih u hu
  | object _ _ _ ih =>
    cases t <;> simp only [usableAs, Bool.false_eq_true] at htu
    cases s <;> simp only [usableAs, Bool.false_eq_true] at hst
    simpa only [usableAs, composes] using
      usableAttrs_iff_composesAttrs hst htu fun c hc s t => ih c hc

/-! ### Where nothing may be left out -/

/-- A chain holds if neither of its last two types lets an attribute be left out. -/
theorem Strict.usableAs_trans (ht : t.Strict) (hu : u.Strict) (hst : s.usableAs t)
    (htu : t.usableAs u) : s.usableAs u := by
  induction hu generalizing s t with
  | bool | number | string | capsule =>
    cases t <;> simp only [usableAs, Bool.false_eq_true] at htu
    cases s <;> simp only [usableAs, Bool.false_eq_true] at hst
    simp_all [usableAs, CapsuleType.same]
  | dynamic => exact usableAs_dynamic s
  | list _ ih | set _ ih | map _ ih =>
    cases ht <;> simp only [usableAs, Bool.false_eq_true] at htu
    cases s <;> simp only [usableAs, Bool.false_eq_true] at hst
    exact ih ‹_› hst htu
  | @tuple us _ ih =>
    cases ht <;> simp only [usableAs, Bool.false_eq_true] at htu
    cases s <;> simp only [usableAs, Bool.false_eq_true] at hst
    rename_i ts hts ss
    simp only [usableAs]
    rw [usableEach_iff, List.forall₂_iff_get] at hst htu ⊢
    refine ⟨hst.1.trans htu.1, fun i hi hi' => ?_⟩
    have hit : i < ts.length := hst.1 ▸ hi
    exact ih _ (List.get_mem _ _) (hts _ (List.get_mem _ _)) (hst.2 i hi hit) (htu.2 i hit hi')
  | object required _ ih =>
    cases ht <;> simp only [usableAs, Bool.false_eq_true] at htu
    cases s <;> simp only [usableAs, Bool.false_eq_true] at hst
    rename_i bs hrequired hbs as
    simp only [usableAs]
    rw [usableAttrs_iff] at hst htu ⊢
    intro c hc
    -- What the last object requires the middle one has, and so the first one has it too.
    rcases htu c hc with ⟨b, hb, hbc⟩ | ⟨-, ho⟩
    · have hmem := Attr.mem_of_find? hb
      rcases hst b hmem with ⟨a, ha, hab⟩ | ⟨-, ho⟩
      · exact .inl ⟨a, Attr.name_of_find? hb ▸ ha, ih c hc (hbs b hmem) hab hbc⟩
      · simp [hrequired b hmem] at ho
    · simp [required c hc] at ho

/-! ### Chains -/

/-- A type is assignable to itself. A chain of assignable types holds exactly if its ends agree on
the attributes that the type between them does not require, and so it always holds where no
attribute may be left out. -/
theorem usableAs_chain (hs : s.WellFormed) (hu : u.WellFormed) :
    s.usableAs s ∧
      (s.usableAs t → t.usableAs u → (s.usableAs u ↔ composes s t u)) ∧
      (t.Strict → u.Strict → s.usableAs t → t.usableAs u → s.usableAs u) :=
  ⟨hs.usableAs_refl, fun hst htu => usableAs_iff_composes hu hst htu,
    fun ht hu hst htu => ht.usableAs_trans hu hst htu⟩

private theorem wellFormed_x {t : Ty} {o : Bool} (ht : t.WellFormed) :
    (object [⟨"x", t, o⟩]).WellFormed := by
  refine .object (by simp) ?_ ?_ <;> simp only [List.forall_mem_singleton]
  · decide +kernel
  · exact ht

/-- A tuple that a chain carries through: the middle type asks for less and the last one lets be
left out what both of the others have. -/
theorem usableAs_chain_tuple :
    let s := tuple [object [⟨"x", .string, false⟩], number]
    let t := tuple [object [⟨"x", .string, true⟩], dynamic]
    let u := tuple [object [⟨"x", .dynamic, true⟩], dynamic]
    s.WellFormed ∧ u.WellFormed ∧ s.usableAs s ∧ composes s t u ∧ s.usableAs u := by
  intro s t u
  have hs : s.WellFormed := by
    refine .tuple ?_
    simp only [List.forall_mem_cons]
    exact ⟨wellFormed_x .string, .number, nofun⟩
  have hu : u.WellFormed := by
    refine .tuple ?_
    simp only [List.forall_mem_cons]
    exact ⟨wellFormed_x .dynamic, .dynamic, nofun⟩
  have hchain := usableAs_chain (t := t) hs hu
  have hcomposes : composes s t u := by decide +kernel
  exact ⟨hs, hu, hchain.1, hcomposes,
    (hchain.2.1 (by decide +kernel) (by decide +kernel)).mpr hcomposes⟩

/-- An object with an attribute can stand for one without, and that for one whose attribute of
another type may be left out. The first cannot stand for the last. Nor does an attribute that may
be left out on the way become one that is there. -/
theorem usableAs_broken_chain :
    let required (t : Ty) := object [⟨"x", t, false⟩]
    let optional (t : Ty) := object [⟨"x", t, true⟩]
    ((required string).WellFormed ∧ (object []).WellFormed ∧ (optional number).WellFormed ∧
      (required string).usableAs (object []) ∧ (object []).usableAs (optional number) ∧
      ¬ (required string).usableAs (optional number)) ∧
    ((optional string).WellFormed ∧ (object []).usableAs (optional string) ∧
      (optional string).usableAs (required string) ∧ ¬ (object []).usableAs (required string)) := by
  refine ⟨⟨wellFormed_x .string, .object .nil nofun nofun, wellFormed_x .number, ?_⟩,
    wellFormed_x .string, ?_⟩ <;> decide +kernel

end TypedData.Ty
