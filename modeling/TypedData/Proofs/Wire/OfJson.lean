import TypedData.Proofs.Decimal.Literal
import TypedData.Proofs.Json.Induction
import TypedData.Proofs.Ty.Text
import TypedData.Proofs.Wire.Members
import TypedData.Wire.OfJson

/-!
# What decoding JSON gives

A decoding that succeeds took one of a few ways, which depend on the shape of what is on the
wire. On each of them comes a well-formed value that may stand in the slot it was read for.

## Main definitions

* `Json.DecodingStep` — the ways in which something on the wire becomes a value

## Main results

* `Json.decodingStep_of_toValue` — a decoding that succeeds took one of these ways
* `Json.built_of_unknownRefinement` — refinements on the wire are made step by step
* `Json.wellFormed_toValue` — decoding gives well-formed values
-/

namespace TypedData.Json

open Value

variable {limits : Limits} {depth : Nat} {ty : Ty} {j : Json} {w : Value}

/-! ### The ways of decoding -/

/-- The ways in which something on the wire becomes a value of a type inside `depth`
containers. -/
inductive DecodingStep (limits : Limits) (depth : Nat) (ty : Ty) : Json → Value → Prop
  | null : DecodingStep limits depth ty .null (.null ty)
  | items {items : List Json} {slots : List Ty} {vs : List Value}
      (hslots : slots? ty items.length = some slots)
      (hvs : itemsToValues limits (depth + 1) 0 slots items = .ok vs) :
      DecodingStep limits depth ty (.array items) (sequence ty vs)
  | unknown {fields : List (String × Json)} {r : Refinement} (hunknown : isUnknown fields = true)
      (h : unknownRefinement limits.maxNumberExponent fields = .ok r) :
      DecodingStep limits depth ty (.object fields) (.unknownRefined ty r)
  | wrapped {fields : List (String × Json)} {spec inner : Json} {t : Ty} {w : Value}
      (hknown : isUnknown fields = false) (hty : ty = .dynamic)
      (hfields : fields = [("value", inner), ("type", spec)] ∨
        fields = [("type", spec), ("value", inner)])
      (ht : wrappedType spec = .ok t) (hw : toValue limits (depth + 1) t inner = .ok w) :
      DecodingStep limits depth ty (.object fields) w
  | map {t : Ty} {fields : List (String × Json)} {keys : List String} {w : Value}
      (hknown : isUnknown fields = false) (hty : ty = .map t) (hkeys : keysOf fields = .ok keys)
      (hw : Wire.mapOf ty (fieldsToMembers limits (depth + 1) (fun _ => t) keys fields) =
        .ok w) : DecodingStep limits depth ty (.object fields) w
  | object {attrs : List (Attr Ty)} {fields : List (String × Json)} {keys : List String}
      {w : Value} (hknown : isUnknown fields = false) (hty : ty = .object attrs)
      (hkeys : keysOf fields = .ok keys) (hdeclared : Wire.undeclared? attrs keys = none)
      (hw : Wire.objectOf ty attrs
        (fieldsToMembers limits (depth + 1) (Wire.attrType attrs) keys fields) = .ok w) :
      DecodingStep limits depth ty (.object fields) w
  | scalar {j : Json} {w : Value} (hw : toScalar limits ty j = .ok w) :
      DecodingStep limits depth ty j w

theorem depth_le_of_toValue (h : toValue limits depth ty j = .ok w) :
    depth ≤ limits.maxDepth := by
  unfold toValue at h
  split at h
  · cases h
  · omega

/-- An array becomes a list, a set or a tuple of as many places. -/
theorem decodingStep_of_array {items : List Json}
    (h : toValue limits depth ty (.array items) = .ok w) :
    DecodingStep limits depth ty (.array items) w := by
  have hdepth := Nat.not_lt.mpr (depth_le_of_toValue h)
  unfold toValue at h
  rw [if_neg hdepth] at h
  cases ty with
  | list t | set t =>
    obtain ⟨vs, hvs, rfl⟩ := Except.map_eq_ok_iff.mp h
    exact .items rfl hvs
  | tuple ts =>
    dsimp only at h
    split at h
    · rename_i hlength
      obtain ⟨vs, hvs, rfl⟩ := Except.map_eq_ok_iff.mp h
      exact .items (if_pos hlength) hvs
    · cases h
  | _ => cases h

/-- Beside its type stands the value in an object of two fields, in either order. -/
theorem decodingStep_of_dynamic {fields : List (String × Json)} (hknown : isUnknown fields = false)
    (h : toValue limits depth .dynamic (.object fields) = .ok w) :
    DecodingStep limits depth .dynamic (.object fields) w := by
  have hdepth := Nat.not_lt.mpr (depth_le_of_toValue h)
  unfold toValue at h
  simp only [if_neg hdepth, hknown, Bool.false_eq_true, if_false] at h
  split at h
  · split at h
    · rename_i hnames
      obtain ⟨rfl, rfl⟩ := hnames
      split at h
      · exact .wrapped hknown rfl (.inl rfl) ‹_› h
      · cases h
    split at h
    · rename_i hnames
      obtain ⟨rfl, rfl⟩ := hnames
      split at h
      · exact .wrapped hknown rfl (.inr rfl) ‹_› h
      · cases h
    · cases h
  · cases h

/-- An object is an unknown, a value beside its type, a map or an object. -/
theorem decodingStep_of_object {fields : List (String × Json)}
    (h : toValue limits depth ty (.object fields) = .ok w) :
    DecodingStep limits depth ty (.object fields) w := by
  have hdepth := Nat.not_lt.mpr (depth_le_of_toValue h)
  cases hunknown : isUnknown fields with
  | true =>
    unfold toValue at h
    simp only [if_neg hdepth, hunknown, if_true] at h
    split at h
    · obtain rfl := Except.ok.inj h
      exact .unknown hunknown ‹_›
    · cases h
  | false =>
    cases ty with
    | dynamic => exact decodingStep_of_dynamic hunknown h
    | map t =>
      unfold toValue at h
      simp only [if_neg hdepth, hunknown, Bool.false_eq_true, if_false] at h
      split at h
      · cases h
      · exact .map hunknown rfl ‹_› h
    | object attrs =>
      unfold toValue at h
      simp only [if_neg hdepth, hunknown, Bool.false_eq_true, if_false] at h
      split at h
      · cases h
      split at h
      · cases h
      · exact .object hunknown rfl ‹_› ‹_› h
    | _ =>
      unfold toValue at h
      simp only [if_neg hdepth, hunknown, Bool.false_eq_true, if_false] at h
      cases h

/-- A decoding that succeeds took one of the ways. -/
theorem decodingStep_of_toValue (h : toValue limits depth ty j = .ok w) :
    DecodingStep limits depth ty j w := by
  have hdepth := Nat.not_lt.mpr (depth_le_of_toValue h)
  cases j with
  | array => exact decodingStep_of_array h
  | object => exact decodingStep_of_object h
  | null =>
    unfold toValue at h
    rw [if_neg hdepth] at h
    obtain rfl := Except.ok.inj h
    exact .null
  | _ =>
    unfold toValue at h
    rw [if_neg hdepth] at h
    exact .scalar h

/-! ### Parts of decoding -/

/-- Items that decoded, each in the slot at its place. -/
theorem forall₂_itemsToValues {i : Nat} {slots : List Ty} {items : List Json}
    {vs : List Value} (hlength : items.length = slots.length)
    (h : itemsToValues limits depth i slots items = .ok vs) :
    List.Forall₂ (fun v t => ∃ j ∈ items, toValue limits depth t j = .ok v) vs slots := by
  induction items generalizing i slots vs with
  | nil =>
    obtain rfl := Except.ok.inj h
    obtain rfl := List.eq_nil_of_length_eq_zero hlength.symm
    exact .nil
  | cons j rest ih =>
    cases slots with
    | nil => cases hlength
    | cons t slots =>
      rw [itemsToValues] at h
      split at h
      · cases h
      · rename_i v hv
        obtain ⟨vs', hvs, rfl⟩ := Except.map_eq_ok_iff.mp h
        refine .cons ⟨j, by simp, hv⟩ ((ih (by simpa using hlength) hvs).imp ?_)
        rintro v' t' ⟨j', hj', hv'⟩
        exact ⟨j', by simp [hj'], hv'⟩

theorem exists_of_mem_fieldsToMembers {typeOf : String → Ty} {keys : List String}
    {fields : List (String × Json)} {p : Wire.Member}
    (h : p ∈ fieldsToMembers limits depth typeOf keys fields) :
    ∃ f ∈ fields, p.2 = toValue limits depth (typeOf p.1) f.2 := by
  induction fields generalizing keys with
  | nil => cases h
  | cons f rest ih =>
    rw [fieldsToMembers] at h
    rcases List.mem_cons.mp h with rfl | h
    · exact ⟨f, by simp, rfl⟩
    · obtain ⟨f', hf, heq⟩ := ih h
      exact ⟨f', by simp [hf], heq⟩

/-- Members stand under the keys in turn. -/
theorem keys_fieldsToMembers {typeOf : String → Ty} {keys : List String}
    {fields : List (String × Json)} (hlength : fields.length = keys.length) :
    (fieldsToMembers limits depth typeOf keys fields).map (·.1) = keys := by
  induction fields generalizing keys with
  | nil => exact (List.eq_nil_of_length_eq_zero hlength.symm).symm
  | cons f rest ih =>
    cases keys with
    | nil => cases hlength
    | cons k keys =>
      rw [fieldsToMembers, List.map_cons, List.tail_cons, ih (by simpa using hlength)]
      rfl

theorem length_keysOf {fields : List (String × Json)} {keys : List String}
    (h : keysOf fields = .ok keys) : fields.length = keys.length := by
  simpa using (Wire.distinctKeys_spec h).1.length_eq

theorem describable_wrappedType {spec : Json} {t : Ty} (h : wrappedType spec = .ok t) :
    t.Describable := by
  rw [wrappedType] at h
  split at h
  · cases h
  rename_i u hu
  split at h
  · cases h
  obtain rfl := Except.ok.inj h
  exact Ty.describable_ofJson hu

/-! ### Refinements -/

/-- Bounds on the wire are within the bound on exponents. -/
theorem within_of_asBound? {maxExponent : Nat} {b : NumberBound}
    (h : j.asBound? maxExponent = some b) : b.value.withinExponent maxExponent := by
  unfold asBound? at h
  repeat' split at h
  all_goals simp only [Option.bind_eq_bind, Option.bind_eq_some_iff, Option.some.injEq,
    reduceCtorEq, false_and, exists_false] at h
  all_goals
    obtain ⟨text, -, value, hvalue, inclusive, -, rfl⟩ := h
    exact Decimal.within_of_ofText (Except.toOption_eq_some_iff.mp hvalue)

/-- A field keeps what its addition keeps. -/
theorem keeps_refineField {α : Type} {P : Refinement → Prop} {fields : List (String × Json)}
    {name : String} {get? : Json → Option α} {add : Refinement → α → Refinement}
    {r q : Refinement} (h : refineField fields name get? add r = .ok q) (hr : P r)
    (hadd : ∀ j a, get? j = some a → P (add r a)) : P q := by
  rw [refineField] at h
  split at h
  · exact Except.ok.inj h ▸ hr
  · split at h
    · exact Except.ok.inj h ▸ hadd _ _ ‹_›
    · cases h

/-- Refinements on the wire are made step by step. -/
theorem built_of_readRefinement {maxExponent : Nat} {fields : List (String × Json)}
    {r : Refinement} (h : readRefinement maxExponent fields = .ok r) :
    r.Built fun n => n.withinExponent maxExponent := by
  simp only [readRefinement, bind, Except.bind] at h
  split at h
  · cases h
  rename_i r₁ h₁
  split at h
  · cases h
  rename_i r₂ h₂
  split at h
  · cases h
  rename_i r₃ h₃
  split at h
  · cases h
  rename_i r₄ h₄
  split at h
  · cases h
  rename_i r₅ h₅
  -- Each field adds its part to what the fields before it said.
  have hb₁ : r₁.Built fun n => n.withinExponent maxExponent :=
    keeps_refineField h₁ .none fun _ isNull _ => by
      cases isNull
      · exact .notNull .none
      · exact .none
  have hb₂ := keeps_refineField h₂ hb₁ fun _ s _ => hb₁.start s
  have hb₃ := keeps_refineField h₃ hb₂ fun _ _ hb => hb₂.lower (within_of_asBound? hb) _
  have hb₄ := keeps_refineField h₄ hb₃ fun _ _ hb => hb₃.upper (within_of_asBound? hb) _
  have hb₅ := keeps_refineField h₅ hb₄ fun _ n _ => hb₄.lengthLower n
  exact keeps_refineField h hb₅ fun _ n _ => hb₅.lengthUpper n

theorem built_of_unknownRefinement {maxExponent : Nat} {fields : List (String × Json)}
    {r : Refinement} (h : unknownRefinement maxExponent fields = .ok r) :
    r.Built fun n => n.withinExponent maxExponent := by
  rw [unknownRefinement] at h
  split at h
  · exact Except.ok.inj h ▸ .none
  · exact built_of_readRefinement h
  · cases h

theorem wellFormed_of_toScalar (h : toScalar limits ty j = .ok w) : w.WellFormed ∧ w.ty = ty := by
  unfold toScalar at h
  repeat' split at h
  all_goals try unfold numberOfText at h
  all_goals try split at h
  all_goals first
    | cases h
      exact ⟨by constructor, rfl⟩
    | simp only [unexpected, failAt, reduceCtorEq] at h

/-! ### Decoding gives well-formed values -/

/-- Each way of decoding gives a well-formed value if what is inside decodes to such. -/
theorem DecodingStep.wellFormed (hstep : DecodingStep limits depth ty j w) (hty : ty.WellFormed)
    (ih : ∀ c ∈ j.children, ∀ t v, t.WellFormed → toValue limits (depth + 1) t c = .ok v →
      v.WellFormed ∧ v.InSlot t) : w.WellFormed ∧ w.InSlot ty := by
  cases hstep with
  | null => exact ⟨.null hty, .of_ty_eq hty rfl⟩
  | unknown _ hr =>
    exact ⟨.unknownRefined hty (built_of_unknownRefinement hr).startKept, .of_ty_eq hty rfl⟩
  | wrapped _ hdynamic hfields ht hw =>
    refine ⟨(ih _ ?_ _ _ (describable_wrappedType ht).wellFormed hw).1, .of_isDynamic ?_⟩
    · rcases hfields with rfl | rfl <;> simp [children]
    · rw [hdynamic]
      rfl
  | items hslots hvs =>
    have hchecks := forall₂_itemsToValues (fills_of_slots? hty hslots).1 hvs
    exact ⟨wellFormed_sequence_of_checks hty hslots hchecks ih, .of_ty_eq hty (sequence_ty _ _)⟩
  | @map t _ _ _ _ htype hkeys hw =>
    subst htype
    cases hty with
    | map ht =>
      -- The members stand under the keys that were accepted.
      have hmembers := @keys_fieldsToMembers limits (depth + 1) (fun _ => t) _ _
        (length_keysOf hkeys)
      have hnodup := (Wire.distinctKeys_spec hkeys).2.1
      have hcomposed := Wire.composed_of_distinctKeys hkeys
      rw [← hmembers] at hnodup hcomposed
      obtain ⟨hw, heq⟩ := Wire.wellFormed_mapOf ht hw hnodup
        (fun p hp => hcomposed p.1 (List.mem_map_of_mem hp)) fun p hp v hv => by
        obtain ⟨f, hf, heq⟩ := exists_of_mem_fieldsToMembers hp
        exact ih f.2 (List.mem_map_of_mem hf) t v ht (heq ▸ hv)
      exact ⟨hw, .of_ty_eq (.map ht) heq⟩
  | object _ htype _ _ hw =>
    subst htype
    obtain ⟨hw, heq⟩ := Wire.wellFormed_objectOf hty hw fun p hp v hv hwell => by
      obtain ⟨f, hf, heq⟩ := exists_of_mem_fieldsToMembers hp
      exact ih f.2 (List.mem_map_of_mem hf) _ v hwell (heq ▸ hv)
    exact ⟨hw, .of_ty_eq hty heq⟩
  | scalar hw =>
    obtain ⟨hw, heq⟩ := wellFormed_of_toScalar hw
    exact ⟨hw, .of_ty_eq hty heq⟩

/-- Something on the wire becomes a well-formed value that may stand in its slot. -/
theorem wellFormed_toValue (hty : ty.WellFormed) (h : toValue limits depth ty j = .ok w) :
    w.WellFormed ∧ w.InSlot ty := by
  induction j using Json.induction_children generalizing depth ty w with
  | h j ih =>
    exact (decodingStep_of_toValue h).wellFormed hty fun c hc _ _ ht hv => ih c hc ht hv

end TypedData.Json
