import TypedData.Proofs.Conversion
import TypedData.Proofs.Inference
import TypedData.Validation

/-!
# What validation gives

A validation that succeeds took one of a few ways, which depend on the kind of the data. On each
of them comes a well-formed value that may stand where it was asked for, if the typed values
inside the data are well-formed.

## Main definitions

* `Native.Scalar` — what data without members becomes
* `Native.ValidationStep` — the ways in which native data becomes a value

## Main results

* `Native.validationStep_of_validateAt` — a validation that succeeds took one of these ways
* `Native.ValidationStep.wellFormed` — each of them keeps values well-formed
* `Native.wellFormed_validateAt` — validation gives well-formed values
-/

namespace TypedData.Native

variable {limits : Limits} {depth : Nat} {ty : Ty} {raw : Native} {w : Value}

/-! ### The ways of validation -/

/-- The items of a list, tuple or set. -/
def items? : Native → Option (List Native)
  | list items | tuple items | set items => some items
  | _ => none

theorem children_of_items? {items : List Native} (h : raw.items? = some items) :
    raw.children = items := by
  cases raw <;> first | exact Option.some.inj h | cases h

/-- What data without members becomes under the types that go with it. -/
inductive Scalar (limits : Limits) : Ty → Native → Value → Prop
  | bool {b : Bool} : Scalar limits .bool (.bool b) (.bool b)
  | number {raw : Native} {n : Decimal} (hn : toNumber limits raw = .ok n) :
      Scalar limits .number raw (.number n)
  | string {raw : Native} {s : String} : Scalar limits .string raw (.string s)
  | capsule {c : CapsuleType} {h : CapsuleHandle} (hsame : h.kind.same c) :
      Scalar limits (.capsule c) (.capsule h) (.capsule h)

theorem scalar_of_validateScalar (h : validateScalar limits ty raw = .ok w) :
    Scalar limits ty raw w := by
  unfold validateScalar at h
  split at h
  · obtain rfl := Except.ok.inj h
    exact .bool
  · obtain ⟨n, hn, rfl⟩ := Except.map_eq_ok_iff.mp h
    exact .number hn
  · obtain rfl := Except.ok.inj h
    exact .string
  · split at h
    · obtain rfl := Except.ok.inj h
      exact .string
    · simp only [refuse, reduceCtorEq] at h
  · split at h
    · rename_i hsame
      obtain rfl := Except.ok.inj h
      exact .capsule hsame
    · cases h
  · simp only [refuse, reduceCtorEq] at h

/-- The ways in which native data becomes a value of a type inside `depth` containers. -/
inductive ValidationStep (limits : Limits) (depth : Nat) (ty : Ty) : Native → Value → Prop
  | absent : ValidationStep limits depth ty .absent (.null ty)
  | value {v w : Value} (h : accept limits ty v = .ok w) :
      ValidationStep limits depth ty (.value v) w
  | items {raw : Native} {items : List Native} {decided : Ty} {types : List Ty} {vs : List Value}
      (hraw : raw.items? = some items) (hdecided : decidedType limits depth ty raw = .ok decided)
      (htypes : itemTypes decided raw items.length = .ok types)
      (hvs : validateItems limits (depth + 1) 0 types items = .ok vs) :
      ValidationStep limits depth ty raw (Value.sequence decided vs)
  | map {entries : List (Native × Native)} {t : Ty} {es : Entries Value}
      (hdecided : decidedType limits depth ty (.map entries) = .ok (.map t))
      (hes : gatherMap [] (validateEntries limits (depth + 1) (fun _ => t) entries) = .ok es) :
      ValidationStep limits depth ty (.map entries)
        (Value.mapping (.map t) (Value.sortEntries es))
  | object {entries : List (Native × Native)} {attrs : List (Attr Ty)} {w : Value}
      (hdecided : decidedType limits depth ty (.map entries) = .ok (.object attrs))
      (hw : objectOf (.object attrs) attrs
        (validateEntries limits (depth + 1) (memberType attrs) entries) = .ok w) :
      ValidationStep limits depth ty (.map entries) w
  | scalar {raw : Native} {decided : Ty} {w : Value}
      (hdecided : decidedType limits depth ty raw = .ok decided)
      (hw : validateScalar limits decided raw = .ok w) : ValidationStep limits depth ty raw w

theorem depth_le_of_validateAt (h : validateAt limits depth ty raw = .ok w) :
    depth ≤ limits.maxDepth := by
  unfold validateAt at h
  split at h
  · cases h
  · omega

/-- A validation that succeeds took one of the ways. -/
theorem validationStep_of_validateAt (h : validateAt limits depth ty raw = .ok w) :
    ValidationStep limits depth ty raw w := by
  have hdepth := Nat.not_lt.mpr (depth_le_of_validateAt h)
  unfold validateAt at h
  rw [if_neg hdepth] at h
  cases raw with
  | absent =>
    obtain rfl := Except.ok.inj h
    exact .absent
  | value v => exact .value h
  | list items | tuple items | set items =>
    dsimp only at h
    split at h
    · cases h
    rename_i hdecided
    split at h
    · cases h
    rename_i htypes
    obtain ⟨vs, hvs, rfl⟩ := Except.map_eq_ok_iff.mp h
    exact .items rfl hdecided htypes hvs
  | map entries =>
    dsimp only at h
    split at h
    · cases h
    rename_i decided hdecided
    cases decided with
    | map t =>
      obtain ⟨es, hes, rfl⟩ := Except.map_eq_ok_iff.mp h
      exact .map hdecided hes
    | object attrs => exact .object hdecided h
    | _ => cases h
  | _ =>
    dsimp only at h
    split at h
    · cases h
    · exact .scalar ‹_› h

/-- Numbers are validated as such, in the place of a number and where anything may stand. -/
theorem validateAt_of_number (hdepth : depth ≤ limits.maxDepth) (hty : ty = .number ∨ ty = .dynamic)
    (hraw : (∃ d, raw = .number d) ∨ ∃ f, raw = .float f) :
    validateAt limits depth ty raw = (toNumber limits raw).map Value.number := by
  have hdecided : decidedType limits depth ty raw = .ok .number := by
    rcases hty with rfl | rfl <;> obtain ⟨_, rfl⟩ | ⟨_, rfl⟩ := hraw <;> rfl
  unfold validateAt
  rw [if_neg (not_lt.mpr hdepth)]
  obtain ⟨_, rfl⟩ | ⟨_, rfl⟩ := hraw <;> simp only [hdecided] <;> rfl

/-! ### Parts of validation -/

/-- Items that are values, each of the type at its place. -/
theorem forall₂_validateItems {i : Nat} {types : List Ty} {items : List Native}
    {vs : List Value} (hlength : items.length = types.length)
    (h : validateItems limits depth i types items = .ok vs) :
    List.Forall₂ (fun v t => ∃ raw ∈ items, validateAt limits depth t raw = .ok v) vs types := by
  induction items generalizing i types vs with
  | nil =>
    obtain rfl := Except.ok.inj h
    obtain rfl := List.eq_nil_of_length_eq_zero hlength.symm
    exact .nil
  | cons raw rest ih =>
    cases types with
    | nil => cases hlength
    | cons t types =>
      rw [validateItems] at h
      split at h
      · cases h
      · rename_i v hv
        obtain ⟨vs', hvs, rfl⟩ := Except.map_eq_ok_iff.mp h
        refine .cons ⟨raw, by simp, hv⟩ ((ih (by simpa using hlength) hvs).imp ?_)
        rintro v' t' ⟨raw', hraw', hv'⟩
        exact ⟨raw', by simp [hraw'], hv'⟩

theorem exists_of_mem_validateEntries {typeOf : Native → Ty} {entries : List (Native × Native)}
    {m : Member} (h : m ∈ validateEntries limits depth typeOf entries) :
    ∃ e ∈ entries, m = (e.1, validateAt limits depth (typeOf e.1) e.2) := by
  induction entries with
  | nil => cases h
  | cons e rest ih =>
    rw [validateEntries] at h
    rcases List.mem_cons.mp h with rfl | h
    · exact ⟨e, by simp, rfl⟩
    · obtain ⟨e', he, heq⟩ := ih h
      exact ⟨e', by simp [he], heq⟩

theorem slots?_of_itemTypes {n : Nat} {types : List Ty} (h : itemTypes ty raw n = .ok types) :
    Value.slots? ty n = some types := by
  unfold itemTypes at h
  unfold Value.slots?
  split at h
  · exact congrArg some (Except.ok.inj h)
  · simp only [refuse, reduceCtorEq] at h
  · exact congrArg some (Except.ok.inj h)
  · split at h
    · rename_i hlength
      simp only [hlength, if_true]
      exact congrArg some (Except.ok.inj h)
    · cases h
  · simp only [refuse, reduceCtorEq] at h

/-- The members of a map: under distinct keys in composed form, each validated. -/
theorem gatherMap_spec {seen : List String} {members : List Member} {es : Entries Value}
    (h : gatherMap seen members = .ok es) :
    (es.map (·.1)).Nodup ∧ (∀ e ∈ es, e.1 ∉ seen ∧ Text.nfc e.1 = e.1 ∧
      ∃ m ∈ members, m.2 = .ok e.2) := by
  induction members generalizing seen es with
  | nil =>
    obtain rfl := Except.ok.inj h
    simp
  | cons m rest ih =>
    obtain ⟨k, r⟩ := m
    rw [gatherMap] at h
    split at h
    · cases h
    rename_i s _
    simp only at h
    split at h
    · cases h
    rename_i hseen
    split at h
    · cases h
    rename_i v
    obtain ⟨es', hes, rfl⟩ := Except.map_eq_ok_iff.mp h
    -- What comes later was gathered with this key among those seen.
    obtain ⟨hnodup, helems⟩ := ih hes
    refine ⟨List.nodup_cons.mpr ⟨fun hmem => ?_, hnodup⟩, List.forall_mem_cons.mpr ⟨?_, ?_⟩⟩
    · obtain ⟨e, he, heq⟩ := List.mem_map.mp hmem
      exact (helems e he).1 (by simp [heq])
    · exact ⟨by simpa using hseen, Text.nfc_nfc s, ⟨(k, .ok v), by simp, rfl⟩⟩
    · intro e he
      obtain ⟨hnot, hcomposed, m, hm, hok⟩ := helems e he
      exact ⟨fun hmem => hnot (by simp [hmem]), hcomposed, m, by simp [hm], hok⟩

/-- The members of an object by their names: each is a given member, by its key. -/
theorem gatherNames_spec {seen : List String} {members : List Member}
    {named : List (String × Except ValidationError Value)}
    (h : gatherNames seen members = .ok named) :
    ∀ n ∈ named, ∃ m ∈ members, m.2 = n.2 ∧ ∃ s, m.1.asKey? = some s ∧ Text.nfc s = n.1 := by
  induction members generalizing seen named with
  | nil =>
    obtain rfl := Except.ok.inj h
    simp
  | cons m rest ih =>
    obtain ⟨k, r⟩ := m
    rw [gatherNames] at h
    split at h
    · cases h
    rename_i s hs
    simp only at h
    split at h
    · cases h
    obtain ⟨named', hnamed, rfl⟩ := Except.map_eq_ok_iff.mp h
    refine List.forall_mem_cons.mpr ⟨⟨(k, r), by simp, rfl, s, hs, rfl⟩, fun n hn => ?_⟩
    obtain ⟨m, hm, hok⟩ := ih hnamed n hn
    exact ⟨m, by simp [hm], hok⟩

/-- An object is made of one check for each attribute. What a check gives is the null of an
attribute that may be left out, or what a member became under the type of the attribute. -/
theorem exists_checks_of_objectOf {attrs : List (Attr Ty)} {members : List Member}
    (h : objectOf ty attrs members = .ok w) :
    ∃ (check : Attr Ty → Except ValidationError Value) (es : Entries Value),
      Ty.firstError (attrs.map fun a => (a.name, check a)) = .ok es ∧
      w = Value.mapping ty (Value.sortEntries es) ∧
      ∀ a ∈ attrs, ∀ v, check a = .ok v → (a.isOptional ∧ v = .null a.ty) ∨
        ∃ m ∈ members, m.2 = .ok v ∧
          ((attrs.map (·.name)).Nodup → memberType attrs m.1 = a.ty) := by
  rw [objectOf] at h
  split at h
  · cases h
  rename_i named hnamed
  split at h
  · cases h
  obtain ⟨es, hes, rfl⟩ := Except.map_eq_ok_iff.mp h
  refine ⟨_, es, hes, rfl, fun a ha v hv => ?_⟩
  -- Names are compared in composed form, and the first attribute of a name has its type.
  split at hv
  · rename_i k r hfind
    rw [Except.mapError_eq_ok_iff] at hv
    have hname : k = a.name := by simpa using List.find?_some hfind
    obtain ⟨m, hm, hok, s, hs, hkey⟩ :=
      gatherNames_spec hnamed _ (List.mem_of_find?_eq_some hfind)
    refine .inr ⟨m, hm, hok.trans hv, fun names => ?_⟩
    rw [memberType, hs, Option.map_some, hkey, hname, Wire.attrType,
      Attr.find?_eq_some_of_mem names ha]
    rfl
  · split at hv
    · rename_i hoptional
      exact .inl ⟨hoptional, (Except.ok.inj hv).symm⟩
    · cases hv

/-- What holds of nulls and of the members, each for the type of its attribute, holds of everything
in an object. -/
theorem exists_of_objectOf {P : Ty → Value → Prop} {attrs : List (Attr Ty)} {members : List Member}
    (names : (attrs.map (·.name)).Nodup) (h : objectOf ty attrs members = .ok w)
    (hnull : ∀ a ∈ attrs, P a.ty (.null a.ty))
    (hmembers : ∀ m ∈ members, ∀ a ∈ attrs, memberType attrs m.1 = a.ty → ∀ v, m.2 = .ok v →
      P a.ty v) :
    ∃ es, w = Value.mapping ty (Value.sortEntries es) ∧
      ∀ e ∈ es, ∃ a ∈ attrs, a.name = e.1 ∧ P a.ty e.2 := by
  obtain ⟨check, es, hes, rfl, hcheck⟩ := exists_checks_of_objectOf h
  rw [Ty.firstError_map_eq_ok_iff] at hes
  refine ⟨es, rfl, fun e he => ?_⟩
  obtain ⟨a, ha, hname, hv⟩ := hes.exists_of_mem_right he
  refine ⟨a, ha, hname, ?_⟩
  obtain ⟨-, hnullEq⟩ | ⟨m, hm, hok, htype⟩ := hcheck a ha e.2 hv
  · exact hnullEq ▸ hnull a ha
  · exact hmembers m hm a ha (htype names) e.2 hok

/-- Data without members becomes a well-formed value of the type asked for. -/
theorem wellFormed_of_validateScalar (h : validateScalar limits ty raw = .ok w) :
    w.WellFormed ∧ w.InSlot ty := by
  cases scalar_of_validateScalar h with
  | bool => exact ⟨.bool, .of_same rfl⟩
  | number => exact ⟨.number, .of_same rfl⟩
  | string => exact ⟨.string, .of_same rfl⟩
  | capsule hsame => exact ⟨.capsule, .of_same hsame⟩

/-- The type that data is validated under is well-formed, and what may stand in it may stand
where the data is asked for. -/
theorem decidedType_spec {decided : Ty} (hty : ty.WellFormed)
    (hraw : ∀ v ∈ raw.values, v.WellFormed)
    (h : decidedType limits depth ty raw = .ok decided) :
    decided.WellFormed ∧ ∀ w : Value, w.InSlot decided → w.InSlot ty := by
  rw [decidedType] at h
  split at h
  · rename_i hdynamic
    simp only at h
    split at h
    · simp only [refuse, reduceCtorEq] at h
    · obtain rfl := Except.ok.inj h
      exact ⟨wellFormed_inferAt fun v hv => (hraw v hv).type_wellFormed,
        fun _ _ => .of_isDynamic hdynamic⟩
  · obtain rfl := Except.ok.inj h
    exact ⟨hty, fun _ h => h⟩

/-- A value that is accepted stays well-formed. -/
theorem wellFormed_accept {v : Value} (hty : ty.WellFormed) (hv : v.WellFormed)
    (h : accept limits ty v = .ok w) : w.WellFormed ∧ w.InSlot ty := by
  rw [accept] at h
  split at h
  · rename_i hkeep
    obtain rfl := Except.ok.inj h
    rw [Bool.or_eq_true] at hkeep
    exact ⟨hv, hkeep.symm⟩
  split at h
  · cases h
  split at h
  · rename_i hretype
    obtain rfl := Except.ok.inj h
    obtain ⟨hw, heq⟩ := hv.retype? hty hretype
    exact ⟨hw, .of_ty_eq hty heq⟩
  · rw [Except.mapError_eq_ok_iff] at h
    exact hv.convertAt hty h

/-- A member was validated, under the type that its key asks for. -/
theorem exists_child_of_member {typeOf : Native → Ty} {entries : List (Native × Native)}
    {m : Member} {v : Value} (hm : m ∈ validateEntries limits depth typeOf entries)
    (hok : m.2 = .ok v) :
    ∃ c ∈ (map entries).children, validateAt limits depth (typeOf m.1) c = .ok v := by
  obtain ⟨e, he, rfl⟩ := exists_of_mem_validateEntries hm
  exact ⟨e.2, List.mem_map_of_mem he, hok⟩

/-- An object of well-formed members is well-formed. -/
theorem wellFormed_of_objectOf {attrs : List (Attr Ty)} {members : List Member}
    (hty : (Ty.object attrs).WellFormed) (h : objectOf (.object attrs) attrs members = .ok w)
    (hmembers : ∀ m ∈ members, ∀ a ∈ attrs, memberType attrs m.1 = a.ty → ∀ v, m.2 = .ok v →
      v.WellFormed ∧ v.InSlot a.ty) : w.WellFormed ∧ w.ty = .object attrs := by
  have hattrs := Attr.WellFormed.of_object hty
  obtain ⟨check, es, hes, rfl, hcheck⟩ := exists_checks_of_objectOf h
  refine ⟨Value.wellFormed_object_of_checks hty hes fun a ha v hv => ?_, Value.mapping_ty _ _⟩
  obtain ⟨-, rfl⟩ | ⟨m, hm, hok, htype⟩ := hcheck a ha v hv
  · exact ⟨.null (hattrs.types a ha), .of_ty_eq (hattrs.types a ha) rfl⟩
  · exact hmembers m hm a ha (htype hattrs.names) v hok

/-! ### Validation gives well-formed values -/

/-- A step of validation gives a well-formed value that may stand where it was asked for, if what is
directly inside does. -/
theorem ValidationStep.wellFormed (hstep : ValidationStep limits depth ty raw w)
    (hty : ty.WellFormed) (hraw : ∀ v ∈ raw.values, v.WellFormed)
    (inside : ∀ c ∈ raw.children, ∀ t v, t.WellFormed →
      validateAt limits (depth + 1) t c = .ok v → v.WellFormed ∧ v.InSlot t) :
    w.WellFormed ∧ w.InSlot ty := by
  -- The type that was decided is well-formed, and what fits it may stand where it was asked for.
  cases hstep with
  | absent => exact ⟨.null hty, .of_ty_eq hty rfl⟩
  | value hw => exact wellFormed_accept hty (hraw _ (by simp [values])) hw
  | scalar hdecided hw =>
    obtain ⟨hw, hslot⟩ := wellFormed_of_validateScalar hw
    exact ⟨hw, (decidedType_spec hty hraw hdecided).2 w hslot⟩
  | items hitems hdecided hitypes hvs =>
    obtain ⟨hwell, hslot⟩ := decidedType_spec hty hraw hdecided
    have hslots := slots?_of_itemTypes hitypes
    have hchecks := forall₂_validateItems (Value.fills_of_slots? hwell hslots).1 hvs
    refine ⟨Value.wellFormed_sequence_of_checks hwell hslots hchecks ?_,
      hslot _ (.of_ty_eq hwell (Value.sequence_ty _ _))⟩
    exact fun c hc t v ht hv => inside c (children_of_items? hitems ▸ hc) t v ht hv
  | @map _ t es hdecided hes =>
    obtain ⟨hwell, hslot⟩ := decidedType_spec hty hraw hdecided
    refine ⟨?_, hslot _ (.of_ty_eq hwell (Value.mapping_ty _ _))⟩
    obtain ⟨hnodup, helems⟩ := gatherMap_spec hes
    cases hwell with
    | map ht =>
      refine Value.wellFormed_sorted_map ht (fun e he => ?_) hnodup fun e he => (helems e he).2.1
      obtain ⟨-, -, m, hm, hok⟩ := helems e he
      obtain ⟨c, hc, hv⟩ := exists_child_of_member hm hok
      exact inside c hc t e.2 ht hv
  | @object _ attrs w hdecided hw =>
    obtain ⟨hwell, hslot⟩ := decidedType_spec hty hraw hdecided
    obtain ⟨hw, hwty⟩ := wellFormed_of_objectOf hwell hw fun m hm a ha htype v hok => by
      obtain ⟨c, hc, hv⟩ := exists_child_of_member hm hok
      exact htype ▸ inside c hc _ v (htype ▸ (Attr.WellFormed.of_object hwell).types a ha) hv
    exact ⟨hw, hslot _ (.of_ty_eq hwell hwty)⟩

/-- Native data becomes a well-formed value that may stand where it was asked for. -/
theorem wellFormed_validateAt (hty : ty.WellFormed) (hraw : ∀ v ∈ raw.values, v.WellFormed)
    (h : validateAt limits depth ty raw = .ok w) : w.WellFormed ∧ w.InSlot ty := by
  induction raw using Native.induction_children generalizing depth ty w with
  | _ raw ih =>
    exact (validationStep_of_validateAt h).wellFormed hty hraw fun c hc t v ht hv =>
      ih c hc ht (fun u hu => hraw u (mem_values_of_mem_children hc hu)) hv

end TypedData.Native
