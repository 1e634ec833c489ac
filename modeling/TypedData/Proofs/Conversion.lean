import TypedData.Proofs.Value.Members

/-!
# What conversion gives

A conversion that succeeds took one of a few ways, which depend on what the value holds. On each
of them a well-formed value becomes a well-formed value of the type asked for.

## Main definitions

* `Value.Primitive` — what primitive values become
* `Value.ConversionStep` — the ways in which a value converts

## Main results

* `Value.conversionStep_of_convertAt`, `Value.convertAt_of_conversionStep` — a conversion that
  succeeds took one of these ways, and each of them succeeds
* `Value.ConversionStep.wellFormed` — each of them keeps values well-formed
* `Value.WellFormed.convertAt` — conversion keeps values well-formed
-/

namespace TypedData.Value

variable {limits : Limits} {depth : Nat} {target : Ty} {v w : Value}

/-! ### The ways of conversion -/

/-- What a primitive value becomes, by the type that is asked for. -/
inductive Primitive : Ty → Value → Prop
  | bool {b : Bool} : Primitive .bool (.bool b)
  | number {n : Decimal} : Primitive .number (.number n)
  | string {s : String} : Primitive .string (.string s)

theorem primitive_of_convertScalar {c : Content Value}
    (h : convertScalar limits target c = .ok w) : Primitive target w := by
  unfold convertScalar at h
  repeat' split at h
  all_goals cases h
  all_goals constructor

/-- The ways in which a value converts to a type inside `depth` containers. -/
inductive ConversionStep (limits : Limits) (depth : Nat) (target : Ty) : Value → Value → Prop
  /-- Nothing is to be done. -/
  | keep {v : Value} (h : v.InSlot target) : ConversionStep limits depth target v v
  /-- Nulls and unknowns go by their types. -/
  | retyped {v w : Value} (h : v.retype? target = some w)
      (hconvertible : v.ty.convertible target) : ConversionStep limits depth target v w
  | sequence {source : Ty} {vs ws : List Value} {m : Marks} {targets : List Ty}
      (hsource : source.isSequence)
      (htargets : elementTargets target vs.length = .ok targets)
      (hws : convertItems limits (depth + 1) 0 targets vs = .ok ws) :
      ConversionStep limits depth target ⟨source, .items vs, m⟩
        ((sequence target ws).withMarks m)
  | map {source t : Ty} {es fs : Entries Value} {m : Marks} (htarget : target = .map t)
      (hfs : Ty.firstError ((convertEntries limits (depth + 1) (fun _ => some t) es).map
        fun (k, r) => (k, r.mapError (·.inside (.key k)))) = .ok fs) :
      ConversionStep limits depth target ⟨source, .entries es, m⟩
        ((mapping target fs).withMarks m)
  | object {source : Ty} {attrs : List (Attr Ty)} {es fs : Entries Value} {m : Marks}
      (htarget : target = .object attrs)
      (hasked : (if source.isMap then extraneous? attrs es else none) = none)
      (hfs : Ty.firstError (convertedAttributes source target attrs
        (convertEntries limits (depth + 1) (fun k => (Attr.find? attrs k).map (·.ty)) es)) =
          .ok fs) :
      ConversionStep limits depth target ⟨source, .entries es, m⟩
        ((mapping target (sortEntries fs)).withMarks m)
  | scalar {source : Ty} {c : Content Value} {w : Value} {m : Marks}
      (hw : convertScalar limits target c = .ok w) :
      ConversionStep limits depth target ⟨source, c, m⟩ (w.withMarks m)

/-- A conversion that succeeds took one of the ways. -/
theorem conversionStep_of_convertAt (h : v.convertAt limits depth target = .ok w) :
    ConversionStep limits depth target v w := by
  unfold Value.convertAt at h
  split at h
  · rename_i hkeep
    obtain rfl := Except.ok.inj h
    rw [Bool.or_eq_true] at hkeep
    exact .keep hkeep.symm
  split at h
  · cases h
  split at h
  · rename_i u hretype
    split at h
    · rename_i hconvertible
      obtain rfl := Except.ok.inj h
      exact .retyped hretype hconvertible
    · cases h
  split at h
  · split at h
    · rename_i hsource
      split at h
      · cases h
      · rename_i targets htargets
        obtain ⟨ws, hws, rfl⟩ := Except.map_eq_ok_iff.mp h
        exact .sequence hsource htargets hws
    · cases h
  · split at h
    · obtain ⟨fs, hfs, rfl⟩ := Except.map_eq_ok_iff.mp h
      exact .map rfl hfs
    · split at h
      · cases h
      · rename_i hasked
        obtain ⟨fs, hfs, rfl⟩ := Except.map_eq_ok_iff.mp h
        exact .object rfl hasked hfs
    · cases h
  · split at h
    · rename_i u hu
      obtain rfl := Except.ok.inj h
      exact .scalar hu
    · cases h

/-- A value in its slot is left as it is. -/
theorem convertAt_of_inSlot (h : v.InSlot target) : v.convertAt limits depth target = .ok v := by
  have hkeep : (v.ty == target || target.isDynamic) = true := Bool.or_eq_true_iff.mpr h.symm
  unfold Value.convertAt
  rw [if_pos hkeep]

/-- Each of the ways succeeds, unless it leads too deep. -/
theorem convertAt_of_conversionStep (h : ConversionStep limits depth target v w)
    (hslot : ¬ v.InSlot target) (hdepth : depth ≤ limits.maxDepth) :
    v.convertAt limits depth target = .ok w := by
  have hkeep : ¬ (v.ty == target || target.isDynamic) = true := by
    rw [Bool.or_eq_true]
    exact fun h => hslot h.symm
  unfold Value.convertAt
  rw [if_neg hkeep, if_neg (Nat.not_lt.mpr hdepth)]
  cases h with
  | keep h => exact absurd h hslot
  | retyped h hconvertible => simp only [h, hconvertible, if_true]
  | sequence hsource htargets hws =>
    simp only [retype?, hsource, htargets, hws, if_true]
    rfl
  | map htarget hfs =>
    subst htarget
    simp only [retype?, hfs]
    rfl
  | object htarget hasked hfs =>
    subst htarget
    simp only [retype?, hasked, hfs]
    rfl
  | @scalar _ c _ _ hw =>
    cases c <;> first | simp only [retype?, hw]; done | cases hw

/-! ### Parts of conversion -/

/-- Elements that converted, each to the type at its place. -/
theorem forall₂_convertItems {i : Nat} {targets : List Ty} {vs ws : List Value}
    (hlength : vs.length = targets.length)
    (h : convertItems limits depth i targets vs = .ok ws) :
    List.Forall₂ (fun w t => ∃ v ∈ vs, v.convertAt limits depth t = .ok w) ws targets := by
  induction vs generalizing i targets ws with
  | nil =>
    obtain rfl := Except.ok.inj h
    obtain rfl := List.eq_nil_of_length_eq_zero hlength.symm
    exact .nil
  | cons v vs ih =>
    cases targets with
    | nil => cases hlength
    | cons t targets =>
      rw [convertItems] at h
      split at h
      · cases h
      · rename_i w hw
        obtain ⟨ws', hws, rfl⟩ := Except.map_eq_ok_iff.mp h
        refine .cons ⟨v, by simp, hw⟩ ((ih (by simpa using hlength) hws).imp ?_)
        rintro w' t' ⟨v', hv', hw'⟩
        exact ⟨v', by simp [hv'], hw'⟩

/-- Elements that converted come from elements, in the same number. -/
theorem forall₂_of_convertItems {i : Nat} {targets : List Ty} {vs ws : List Value}
    (h : convertItems limits depth i targets vs = .ok ws) :
    List.Forall₂ (fun v w => ∃ t, v.convertAt limits depth t = .ok w) vs ws := by
  induction vs generalizing i targets ws with
  | nil =>
    obtain rfl := Except.ok.inj h
    exact .nil
  | cons v vs ih =>
    rw [convertItems] at h
    split at h
    · cases h
    · rename_i w hw
      obtain ⟨ws', hws, rfl⟩ := Except.map_eq_ok_iff.mp h
      exact .cons ⟨_, hw⟩ (ih hws)

/-- Elements convert exactly if each of them does. -/
theorem exists_convertItems_iff {i : Nat} {targets : List Ty} {vs : List Value}
    (hlength : vs.length = targets.length) :
    (∃ ws, convertItems limits depth i targets vs = .ok ws) ↔
      List.Forall₂ (fun v t => ∃ w, v.convertAt limits depth t = .ok w) vs targets := by
  induction vs generalizing i targets with
  | nil =>
    obtain rfl := List.eq_nil_of_length_eq_zero hlength.symm
    exact iff_of_true ⟨[], rfl⟩ .nil
  | cons v vs ih =>
    obtain ⟨t, targets, rfl⟩ := List.exists_cons_of_length_eq_add_one hlength.symm
    rw [List.forall₂_cons, ← ih (i := i + 1) (by simpa using hlength), convertItems,
      List.headD_cons, List.tail_cons]
    cases v.convertAt limits depth t with
    | error e => simp
    | ok w => simp [Except.map_eq_ok_iff]

theorem slots?_of_elementTargets {n : Nat} {targets : List Ty}
    (h : elementTargets target n = .ok targets) : slots? target n = some targets := by
  unfold elementTargets at h
  unfold slots?
  split at h
  · exact congrArg some (Except.ok.inj h)
  · exact congrArg some (Except.ok.inj h)
  · split at h
    · rename_i hlength
      simp only [hlength, if_true]
      exact congrArg some (Except.ok.inj h)
    · cases h
  · cases h

/-- Entries that converted. -/
theorem exists_of_mem_convertEntries {targetOf : String → Option Ty} {es : Entries Value}
    {k : String} {r : Except ConversionError Value}
    (h : (k, r) ∈ convertEntries limits depth targetOf es) :
    ∃ v t, (k, v) ∈ es ∧ targetOf k = some t ∧ r = v.convertAt limits depth t := by
  induction es with
  | nil => cases h
  | cons e es ih =>
    obtain ⟨k', v⟩ := e
    rw [convertEntries] at h
    split at h
    · rename_i t ht
      rcases List.mem_cons.mp h with heq | h
      · cases heq
        exact ⟨v, t, by simp, ht, rfl⟩
      · obtain ⟨u, t', hu, ht'⟩ := ih h
        exact ⟨u, t', by simp [hu], ht'⟩
    · obtain ⟨u, t, hu, ht⟩ := ih h
      exact ⟨u, t, by simp [hu], ht⟩

/-- Every entry that is asked for is converted. -/
theorem mem_convertEntries {targetOf : String → Option Ty} {es : Entries Value}
    {e : String × Value} {t : Ty} (he : e ∈ es) (ht : targetOf e.1 = some t) :
    (e.1, e.2.convertAt limits depth t) ∈ convertEntries limits depth targetOf es := by
  induction es with
  | nil => cases he
  | cons e' es ih =>
    obtain ⟨k', v⟩ := e'
    rw [convertEntries]
    rcases List.mem_cons.mp he with rfl | he
    · simp [ht]
    · split
      · exact List.mem_cons_of_mem _ (ih he)
      · exact ih he

/-- The entries of a map are the given ones in their new place. -/
theorem forall₂_of_convertEntries {t : Ty} {es fs : Entries Value}
    (h : Ty.firstError ((convertEntries limits depth (fun _ => some t) es).map
      fun (k, r) => (k, r.mapError (·.inside (.key k)))) = .ok fs) :
    List.Forall₂ (fun e f => e.1 = f.1 ∧ e.2.convertAt limits depth t = .ok f.2) es fs := by
  have hmap : convertEntries limits depth (fun _ => some t) es =
      es.map fun e => (e.1, e.2.convertAt limits depth t) := by
    clear h
    induction es with
    | nil => rfl
    | cons e es ih => rw [convertEntries, ih, List.map_cons]
  rw [Ty.firstError_map_eq_ok_iff, hmap, List.forall₂_map_left_iff] at h
  exact h.imp fun e f hef => ⟨hef.1, Except.mapError_eq_ok_iff.mp hef.2⟩

/-- An object is made of one check for each attribute. What a check gives is the null of an
attribute that may be left out and for which there is no entry, or what the entry of its name
converted to. -/
theorem exists_checks_of_convertedAttributes {source : Ty} {attrs : List (Attr Ty)}
    {targetOf : String → Option Ty} {es fs : Entries Value}
    (h : Ty.firstError (convertedAttributes source target attrs
      (convertEntries limits depth targetOf es)) = .ok fs) :
    ∃ check : Attr Ty → Except ConversionError Value,
      Ty.firstError (attrs.map fun a => (a.name, check a)) = .ok fs ∧
      ∀ a ∈ attrs, ∀ w, check a = .ok w →
        (a.isOptional ∧ w = .null a.ty ∧
          ∀ t, targetOf a.name = some t → a.name ∉ es.map (·.1)) ∨
        ∃ v t, (a.name, v) ∈ es ∧ targetOf a.name = some t ∧
          v.convertAt limits depth t = .ok w := by
  refine ⟨_, h, fun a _ w hw => ?_⟩
  split at hw
  · rename_i k r hfind
    obtain ⟨v, t, hv, ht, rfl⟩ := exists_of_mem_convertEntries (List.mem_of_find?_eq_some hfind)
    obtain rfl : k = a.name := by simpa using List.find?_some hfind
    exact .inr ⟨v, t, hv, ht, Except.mapError_eq_ok_iff.mp hw⟩
  · rename_i hnone
    split at hw
    · rename_i hoptional
      refine .inl ⟨hoptional, (Except.ok.inj hw).symm, fun t ht hmem => ?_⟩
      obtain ⟨e, he, hname⟩ := List.mem_map.mp hmem
      have hconverted : (e.1, e.2.convertAt limits depth t) ∈
          convertEntries limits depth targetOf es := mem_convertEntries he (hname ▸ ht)
      exact absurd hname (by simpa using List.find?_eq_none.mp hnone _ hconverted)
    · cases hw

theorem wellFormed_of_convertScalar {c : Content Value}
    (h : convertScalar limits target c = .ok w) :
    w.WellFormed ∧ w.ty = target := by
  cases primitive_of_convertScalar h with
  | bool => exact ⟨.bool, rfl⟩
  | number => exact ⟨.number, rfl⟩
  | string => exact ⟨.string, rfl⟩

/-- Checks give results if each of them does. -/
theorem exists_firstError {ε : Type} {xs : List (String × Except ε Value)}
    (h : ∀ x ∈ xs, ∃ w, x.2 = .ok w) : ∃ es, Ty.firstError xs = .ok es := by
  induction xs with
  | nil => exact ⟨[], rfl⟩
  | cons x xs ih =>
    rw [List.forall_mem_cons] at h
    obtain ⟨⟨w, hw⟩, hxs⟩ := h
    obtain ⟨es, hes⟩ := ih hxs
    obtain ⟨k, r⟩ := x
    refine ⟨(k, w) :: es, ?_⟩
    rw [show r = .ok w from hw, Ty.firstError, hes]
    rfl

/-- A member of an object converts, and so does one that may be left out. -/
theorem exists_firstError_convertedAttributes {source : Ty} {attrs : List (Attr Ty)}
    {members : List (String × Except ConversionError Value)}
    (hmembers : ∀ m ∈ members, ∃ w, m.2 = .ok w)
    (hattrs : ∀ a ∈ attrs, a.name ∈ members.map (·.1) ∨ a.isOptional) :
    ∃ es, Ty.firstError (convertedAttributes source target attrs members) = .ok es := by
  refine exists_firstError fun x hx => ?_
  obtain ⟨a, ha, rfl⟩ := List.mem_map.mp hx
  simp only
  split
  · rename_i k r hfind
    obtain ⟨w, hw⟩ := hmembers _ (List.mem_of_find?_eq_some hfind)
    exact ⟨w, Except.mapError_eq_ok_iff.mpr hw⟩
  · rename_i hnone
    rcases hattrs a ha with hmem | ho
    · obtain ⟨m, hm, hname⟩ := List.mem_map.mp hmem
      exact absurd hname (by simpa using List.find?_eq_none.mp hnone m hm)
    · exact ⟨_, if_pos ho⟩

/-! ### Conversion keeps values well-formed -/

/-- A step of conversion gives a well-formed value that may stand where it was asked for, if what is
directly inside does. -/
theorem ConversionStep.wellFormed (hstep : ConversionStep limits depth target v w)
    (hv : v.WellFormed) (htarget : target.WellFormed)
    (inside : ∀ x ∈ parts v.content, ∀ t u, t.WellFormed →
      x.convertAt limits (depth + 1) t = .ok u → u.WellFormed ∧ u.InSlot t) :
    w.WellFormed ∧ w.InSlot target := by
  cases hstep with
  | keep hslot => exact ⟨hv, hslot⟩
  | retyped hw _ =>
    obtain ⟨hw, hty⟩ := hv.retype? htarget hw
    exact ⟨hw, .of_ty_eq htarget hty⟩
  | scalar hw =>
    obtain ⟨hw, hty⟩ := wellFormed_of_convertScalar hw
    exact ⟨hw.withMarks _, .of_ty_eq htarget hty⟩
  | sequence _ htargets hws =>
    have hslots := slots?_of_elementTargets htargets
    have hchecks := forall₂_convertItems (fills_of_slots? htarget hslots).1 hws
    exact ⟨(wellFormed_sequence_of_checks htarget hslots hchecks inside).withMarks _,
      .of_ty_eq htarget (sequence_ty _ _)⟩
  | @map _ t _ fs _ htype hfs =>
    subst htype
    obtain ⟨hkeys, hcomposed⟩ := hv.entries_keys
    have hplaces := forall₂_of_convertEntries hfs
    have hfskeys := hplaces.map_eq_map fun _ _ h => h.1
    have ht : t.WellFormed := by
      cases htarget
      assumption
    -- The elements are what the entries became, under the keys they had.
    have helems : ∀ f ∈ fs, f.2.WellFormed ∧ f.2.InSlot t := by
      intro f hf
      obtain ⟨e, he, -, hef⟩ := hplaces.exists_of_mem_right hf
      exact inside e.2 (List.mem_map_of_mem he) t f.2 ht hef
    refine ⟨(WellFormed.mapping_map ht (fun f hf => (helems f hf).1) (fun f hf => (helems f hf).2)
      (hfskeys ▸ hkeys) fun f hf => ?_).withMarks _, .of_ty_eq htarget (mapping_ty _ _)⟩
    obtain ⟨e, he, heq, -⟩ := hplaces.exists_of_mem_right hf
    rw [← heq, hcomposed e he]
  | @object _ attrs _ fs _ htype _ hfs =>
    subst htype
    have hattrs := Attr.WellFormed.of_object htarget
    obtain ⟨check, hchecks, hcheck⟩ := exists_checks_of_convertedAttributes hfs
    refine ⟨(wellFormed_object_of_checks htarget hchecks fun a ha w hw => ?_).withMarks _,
      .of_ty_eq htarget (mapping_ty _ _)⟩
    obtain ⟨-, rfl, -⟩ | ⟨u, t, hu, ht, hw⟩ := hcheck a ha w hw
    · exact ⟨.null (hattrs.types a ha), .of_ty_eq (hattrs.types a ha) rfl⟩
    · -- The slot of the entry is that of the attribute.
      rw [Attr.find?_eq_some_of_mem hattrs.names ha] at ht
      obtain rfl := Option.some.inj ht
      exact inside u (List.mem_map_of_mem hu) a.ty w (hattrs.types a ha) hw

/-- Conversion keeps values well-formed, and gives one that may stand where it was asked for. -/
theorem WellFormed.convertAt (hv : v.WellFormed) (htarget : target.WellFormed)
    (h : v.convertAt limits depth target = .ok w) : w.WellFormed ∧ w.InSlot target := by
  induction v using Value.induction_parts generalizing depth target w with
  | _ v ih =>
    exact (conversionStep_of_convertAt h).wellFormed hv htarget fun x hx t u ht hu =>
      ih x hx (hv.of_mem_parts hx) ht hu

end TypedData.Value
