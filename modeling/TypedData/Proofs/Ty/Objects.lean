import TypedData.Proofs.Text.Plain
import TypedData.Proofs.Ty.WellFormed

/-!
# Object types from declarations

Whatever is declared, in whatever order and under whatever spelling, the object type that comes
of it is well-formed if the types of its attributes are.

## Main results

* `Ty.wellFormed_ofAttributes` — declarations make a well-formed object type
* `Ty.wellFormed_ofAttributesWithOptional` — and so they do with optional attributes
-/

namespace TypedData

namespace Attr

variable {attrs : List (Attr Ty)} {name : String} {ty : Ty}

/-- What the attributes of a well-formed object type are like. -/
structure WellFormed (attrs : List (Attr Ty)) : Prop where
  names : (attrs.map (·.name)).Nodup
  composed : ∀ a ∈ attrs, Text.nfc a.name = a.name
  types : ∀ a ∈ attrs, a.ty.WellFormed

theorem wellFormed_nil : WellFormed [] := ⟨.nil, nofun, nofun⟩

theorem wellFormed_singleton {a : Attr Ty} (hname : Text.nfc a.name = a.name)
    (hty : a.ty.WellFormed) : WellFormed [a] :=
  ⟨List.pairwise_singleton _ _, List.forall_mem_singleton.mpr hname,
    List.forall_mem_singleton.mpr hty⟩

theorem WellFormed.object (h : WellFormed attrs) : (Ty.object attrs).WellFormed :=
  .object h.names h.composed h.types

theorem WellFormed.of_object (h : (Ty.object attrs).WellFormed) : WellFormed attrs := by
  cases h with
  | object names composed types => exact ⟨names, composed, types⟩

/-! ### Declaring -/

theorem mem_names_declare {n : String} :
    n ∈ (declare attrs name ty).map (·.name) ↔ n = name ∨ n ∈ attrs.map (·.name) := by
  induction attrs with
  | nil => simp [declare]
  | cons a as ih =>
    rw [declare]
    split
    · rename_i h
      subst h
      simp
    · simp only [List.map_cons, List.mem_cons, ih]
      constructor
      · rintro (h | h | h) <;> simp [h]
      · rintro (h | h | h) <;> simp [h]

/-- Declaring an attribute of a well-formed type keeps attributes well-formed. -/
theorem WellFormed.declare (h : WellFormed attrs) (hname : Text.nfc name = name)
    (hty : ty.WellFormed) : WellFormed (declare attrs name ty) := by
  induction attrs with
  | nil => exact ⟨by simp [Attr.declare], by simpa [Attr.declare], by simpa [Attr.declare]⟩
  | cons a as ih =>
    obtain ⟨hnames, hcomposed, htypes⟩ := h
    rw [List.forall_mem_cons] at hcomposed htypes
    rw [List.map_cons, List.nodup_cons] at hnames
    rw [Attr.declare]
    split
    · refine ⟨by simpa using hnames, ?_, ?_⟩ <;> rw [List.forall_mem_cons]
      · exact hcomposed
      · exact ⟨hty, htypes.2⟩
    · rename_i hne
      obtain ⟨hnames', hcomposed', htypes'⟩ := ih ⟨hnames.2, hcomposed.2, htypes.2⟩
      refine ⟨?_, List.forall_mem_cons.mpr ⟨hcomposed.1, hcomposed'⟩,
        List.forall_mem_cons.mpr ⟨htypes.1, htypes'⟩⟩
      rw [List.map_cons, List.nodup_cons, mem_names_declare]
      exact ⟨fun hmem => hmem.elim hne hnames.1, hnames'⟩

theorem WellFormed.allowOmission (h : WellFormed attrs) (name : String) :
    WellFormed (allowOmission attrs name) := by
  have hname (a : Attr Ty) : (if a.name = name then ⟨a.name, a.ty, true⟩ else a : Attr Ty).name =
      a.name := by split <;> rfl
  have hty (a : Attr Ty) : (if a.name = name then ⟨a.name, a.ty, true⟩ else a : Attr Ty).ty =
      a.ty := by split <;> rfl
  refine ⟨?_, ?_, ?_⟩
  · simpa [Attr.allowOmission, Function.comp_def, hname] using h.names
  · simpa [Attr.allowOmission, hname] using h.composed
  · simpa [Attr.allowOmission, hty] using h.types

/-- Declaring brings in no other type than the given one. -/
theorem forall_ty_declare {P : Ty → Prop} (h : ∀ a ∈ attrs, P a.ty) (hty : P ty) :
    ∀ a ∈ declare attrs name ty, P a.ty := by
  induction attrs with
  | nil => simpa [declare] using hty
  | cons a as ih =>
    rw [List.forall_mem_cons] at h
    rw [declare]
    split
    · exact List.forall_mem_cons.mpr ⟨hty, h.2⟩
    · exact List.forall_mem_cons.mpr ⟨h.1, ih h.2⟩

theorem forall_ty_allowOmission {P : Ty → Prop} (h : ∀ a ∈ attrs, P a.ty) (name : String) :
    ∀ a ∈ allowOmission attrs name, P a.ty := by
  intro b hb
  obtain ⟨a, ha, rfl⟩ := List.mem_map.mp hb
  split <;> exact h a ha

end Attr

namespace Ty

private theorem wellFormed_declared {attrs : List (String × Ty)}
    (h : ∀ a ∈ attrs, a.2.WellFormed) {declared : List (Attr Ty)}
    (hdeclared : Attr.WellFormed declared) :
    Attr.WellFormed (attrs.foldl (fun as (name, ty) => Attr.declare as (Text.nfc name) ty)
      declared) := by
  induction attrs generalizing declared with
  | nil => exact hdeclared
  | cons a as ih =>
    rw [List.forall_mem_cons] at h
    exact ih h.2 (hdeclared.declare (Text.nfc_nfc a.1) h.1)

/-- Declarations make a well-formed object type. -/
theorem wellFormed_ofAttributes {attrs : List (String × Ty)} (h : ∀ a ∈ attrs, a.2.WellFormed) :
    (ofAttributes attrs).WellFormed :=
  (wellFormed_declared h Attr.wellFormed_nil).object

private theorem wellFormed_allowOmissions {declared : List (Attr Ty)} (names : List String)
    (h : Attr.WellFormed declared) : Attr.WellFormed (names.foldl Attr.allowOmission declared) := by
  induction names generalizing declared with
  | nil => exact h
  | cons name names ih => exact ih (h.allowOmission name)

/-- Declarations with optional attributes make a well-formed object type. -/
theorem wellFormed_ofAttributesWithOptional {attrs : List (String × Ty)} {optional : List String}
    {ty : Ty} (h : ∀ a ∈ attrs, a.2.WellFormed)
    (hty : ofAttributesWithOptional attrs optional = .ok ty) : ty.WellFormed := by
  simp only [ofAttributesWithOptional] at hty
  split at hty
  · cases hty
  · obtain rfl := Except.ok.inj hty
    exact (wellFormed_allowOmissions _ (wellFormed_declared h Attr.wellFormed_nil)).object

private theorem forall_ty_declared {P : Ty → Prop} {attrs : List (String × Ty)}
    (h : ∀ a ∈ attrs, P a.2) {declared : List (Attr Ty)} (hdeclared : ∀ a ∈ declared, P a.ty) :
    ∀ a ∈ attrs.foldl (fun as (name, ty) => Attr.declare as (Text.nfc name) ty) declared,
      P a.ty := by
  induction attrs generalizing declared with
  | nil => exact hdeclared
  | cons a as ih =>
    rw [List.forall_mem_cons] at h
    exact ih h.2 (Attr.forall_ty_declare hdeclared h.1)

/-- The attributes of an object type without optional ones have the types that were given. -/
theorem exists_object_of_ofAttributes {P : Ty → Prop} {attrs : List (String × Ty)}
    (h : ∀ a ∈ attrs, P a.2) : ∃ as, ofAttributes attrs = .object as ∧ ∀ a ∈ as, P a.ty :=
  ⟨_, rfl, forall_ty_declared h nofun⟩

private theorem forall_ty_allowOmissions {P : Ty → Prop} {declared : List (Attr Ty)}
    (names : List String) (h : ∀ a ∈ declared, P a.ty) :
    ∀ a ∈ names.foldl Attr.allowOmission declared, P a.ty := by
  induction names generalizing declared with
  | nil => exact h
  | cons name names ih => exact ih (Attr.forall_ty_allowOmission h name)

/-- The attributes of an object type have the types that were given. -/
theorem exists_object_of_ofAttributesWithOptional {P : Ty → Prop} {attrs : List (String × Ty)}
    {optional : List String} {ty : Ty} (h : ∀ a ∈ attrs, P a.2)
    (hty : ofAttributesWithOptional attrs optional = .ok ty) :
    ∃ as, ty = .object as ∧ ∀ a ∈ as, P a.ty := by
  simp only [ofAttributesWithOptional] at hty
  split at hty
  · cases hty
  · obtain rfl := Except.ok.inj hty
    exact ⟨_, rfl, forall_ty_allowOmissions _ (forall_ty_declared h nofun)⟩

end Ty

end TypedData
