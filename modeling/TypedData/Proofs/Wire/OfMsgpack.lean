import TypedData.Proofs.Decimal.Literal
import TypedData.Proofs.Msgpack.Induction
import TypedData.Proofs.Ty.Text
import TypedData.Proofs.Wire.Members
import TypedData.Wire.OfMsgpack

/-!
# What decoding MessagePack gives

A decoding that succeeds took one of a few ways, which depend on the shape of what is on the
wire. On each of them comes a well-formed value that may stand in the slot it was read for.

## Main definitions

* `Msgpack.DecodingStep` — the ways in which something on the wire becomes a value

## Main results

* `Msgpack.decodingStep_of_toValue` — a decoding that succeeds took one of these ways
* `Msgpack.built_of_readRefinement` — refinements on the wire are made step by step
* `Msgpack.wellFormed_toValue` — decoding gives well-formed values
-/

namespace TypedData.Msgpack

open Value

variable {limits : Limits} {depth : Nat} {ty : Ty} {m : Msgpack} {w : Value}

/-! ### The ways of decoding -/

/-- The ways in which something on the wire becomes a value of a type inside `depth`
containers. -/
inductive DecodingStep (limits : Limits) (depth : Nat) (ty : Ty) : Msgpack → Value → Prop
  | nil : DecodingStep limits depth ty .nil (.null ty)
  | refined {bytes : List UInt8} {r : Refinement}
      (h : readRefinement limits.maxNumberExponent bytes = .ok r) :
      DecodingStep limits depth ty (.ext refinedTag bytes) (.unknownRefined ty r)
  | unknown {tag : Int} {bytes : List UInt8} (h : tag ≠ refinedTag) :
      DecodingStep limits depth ty (.ext tag bytes) (.unknown ty)
  | wrapped {spec inner : Msgpack} {t : Ty} {w : Value} (hty : ty = .dynamic)
      (ht : wrappedType spec = .ok t) (hw : toValue limits (depth + 1) t inner = .ok w) :
      DecodingStep limits depth ty (.array [spec, inner]) w
  | items {items : List Msgpack} {slots : List Ty} {vs : List Value}
      (hslots : slots? ty items.length = some slots)
      (hvs : itemsToValues limits (depth + 1) 0 slots items = .ok vs) :
      DecodingStep limits depth ty (.array items) (sequence ty vs)
  | map {t : Ty} {entries : List (Msgpack × Msgpack)} {keys : List String} {w : Value}
      (hty : ty = .map t) (hkeys : keysOf entries = .ok keys)
      (hw : Wire.mapOf ty (entriesToMembers limits (depth + 1) (fun _ => t) keys entries) =
        .ok w) : DecodingStep limits depth ty (.map entries) w
  | object {attrs : List (Attr Ty)} {entries : List (Msgpack × Msgpack)} {keys : List String}
      {w : Value} (hty : ty = .object attrs) (hkeys : keysOf entries = .ok keys)
      (hdeclared : Wire.undeclared? attrs keys = none)
      (hw : Wire.objectOf ty attrs
        (entriesToMembers limits (depth + 1) (Wire.attrType attrs) keys entries) = .ok w) :
      DecodingStep limits depth ty (.map entries) w
  | scalar {m : Msgpack} {w : Value} (hw : toScalar limits ty m = .ok w) :
      DecodingStep limits depth ty m w

theorem depth_le_of_toValue (h : toValue limits depth ty m = .ok w) :
    depth ≤ limits.maxDepth := by
  unfold toValue at h
  split at h
  · cases h
  · omega

/-- An array is a value beside its type, or becomes a list, a set or a tuple of as many places. -/
theorem decodingStep_of_array {items : List Msgpack}
    (h : toValue limits depth ty (.array items) = .ok w) :
    DecodingStep limits depth ty (.array items) w := by
  have hdepth := Nat.not_lt.mpr (depth_le_of_toValue h)
  unfold toValue at h
  rw [if_neg hdepth] at h
  cases ty with
  | dynamic =>
    dsimp only at h
    split at h
    · split at h
      · exact .wrapped rfl ‹_› h
      · cases h
    · cases h
  | list t | set t =>
    obtain ⟨vs, hvs, rfl⟩ := Except.map_eq_ok_iff.mp h
    exact .items rfl hvs
  | tuple ts =>
    dsimp only at h
    split at h
    · rename_i hlength
      obtain ⟨vs, hvs, rfl⟩ := Except.map_eq_ok_iff.mp h
      exact .items (if_pos hlength) hvs
    · cases h
  | _ => cases h

/-- A map becomes a map or an object. -/
theorem decodingStep_of_map {entries : List (Msgpack × Msgpack)}
    (h : toValue limits depth ty (.map entries) = .ok w) :
    DecodingStep limits depth ty (.map entries) w := by
  have hdepth := Nat.not_lt.mpr (depth_le_of_toValue h)
  unfold toValue at h
  rw [if_neg hdepth] at h
  cases ty with
  | map t =>
    dsimp only at h
    split at h
    · cases h
    · exact .map rfl ‹_› h
  | object attrs =>
    dsimp only at h
    split at h
    · cases h
    split at h
    · cases h
    · exact .object rfl ‹_› ‹_› h
  | _ => cases h

/-- What carries a tag is an unknown, with a refinement if the tag is that of refinements. -/
theorem decodingStep_of_ext {tag : Int} {bytes : List UInt8}
    (h : toValue limits depth ty (.ext tag bytes) = .ok w) :
    DecodingStep limits depth ty (.ext tag bytes) w := by
  have hdepth := Nat.not_lt.mpr (depth_le_of_toValue h)
  unfold toValue at h
  rw [if_neg hdepth] at h
  dsimp only at h
  split at h
  · rename_i htag
    subst htag
    split at h
    · obtain rfl := Except.ok.inj h
      exact .refined ‹_›
    · cases h
  · obtain rfl := Except.ok.inj h
    exact .unknown ‹_›

/-- A decoding that succeeds took one of the ways. -/
theorem decodingStep_of_toValue (h : toValue limits depth ty m = .ok w) :
    DecodingStep limits depth ty m w := by
  have hdepth := Nat.not_lt.mpr (depth_le_of_toValue h)
  cases m with
  | array => exact decodingStep_of_array h
  | map => exact decodingStep_of_map h
  | ext => exact decodingStep_of_ext h
  | nil =>
    unfold toValue at h
    rw [if_neg hdepth] at h
    obtain rfl := Except.ok.inj h
    exact .nil
  | _ =>
    unfold toValue at h
    rw [if_neg hdepth] at h
    exact .scalar h

/-! ### Parts of decoding -/

/-- Items that decoded, each in the slot at its place. -/
theorem forall₂_itemsToValues {i : Nat} {slots : List Ty} {items : List Msgpack}
    {vs : List Value} (hlength : items.length = slots.length)
    (h : itemsToValues limits depth i slots items = .ok vs) :
    List.Forall₂ (fun v t => ∃ m ∈ items, toValue limits depth t m = .ok v) vs slots := by
  induction items generalizing i slots vs with
  | nil =>
    obtain rfl := Except.ok.inj h
    obtain rfl := List.eq_nil_of_length_eq_zero hlength.symm
    exact .nil
  | cons m rest ih =>
    cases slots with
    | nil => cases hlength
    | cons t slots =>
      rw [itemsToValues] at h
      split at h
      · cases h
      · rename_i v hv
        obtain ⟨vs', hvs, rfl⟩ := Except.map_eq_ok_iff.mp h
        refine .cons ⟨m, by simp, hv⟩ ((ih (by simpa using hlength) hvs).imp ?_)
        rintro v' t' ⟨m', hm', hv'⟩
        exact ⟨m', by simp [hm'], hv'⟩

theorem exists_of_mem_entriesToMembers {typeOf : String → Ty} {keys : List String}
    {entries : List (Msgpack × Msgpack)} {p : Wire.Member}
    (h : p ∈ entriesToMembers limits depth typeOf keys entries) :
    ∃ e ∈ entries, p.2 = toValue limits depth (typeOf p.1) e.2 := by
  induction entries generalizing keys with
  | nil => cases h
  | cons e rest ih =>
    rw [entriesToMembers] at h
    rcases List.mem_cons.mp h with rfl | h
    · exact ⟨e, by simp, rfl⟩
    · obtain ⟨e', he, heq⟩ := ih h
      exact ⟨e', by simp [he], heq⟩

/-- Members stand under the keys in turn. -/
theorem keys_entriesToMembers {typeOf : String → Ty} {keys : List String}
    {entries : List (Msgpack × Msgpack)} (hlength : entries.length = keys.length) :
    (entriesToMembers limits depth typeOf keys entries).map (·.1) = keys := by
  induction entries generalizing keys with
  | nil => exact (List.eq_nil_of_length_eq_zero hlength.symm).symm
  | cons e rest ih =>
    cases keys with
    | nil => cases hlength
    | cons k keys =>
      rw [entriesToMembers, List.map_cons, List.tail_cons, ih (by simpa using hlength)]
      rfl

theorem length_keysOf {entries : List (Msgpack × Msgpack)} {keys : List String}
    (h : keysOf entries = .ok keys) : entries.length = keys.length := by
  simpa using (Wire.distinctKeys_spec h).1.length_eq

theorem describable_wrappedType {spec : Msgpack} {t : Ty} (h : wrappedType spec = .ok t) :
    t.Describable := by
  rw [wrappedType] at h
  split at h
  · cases h
  split at h
  · cases h
  rename_i u hu
  split at h
  · cases h
  obtain rfl := Except.ok.inj h
  exact Ty.describable_ofText hu

/-! ### Refinements -/

/-- Numbers on the wire are within the bound on exponents. -/
theorem within_of_asNumber? {maxExponent : Nat} {n : Decimal}
    (h : m.asNumber? maxExponent = some n) : n.withinExponent maxExponent := by
  unfold asNumber? at h
  split at h
  · simpa using (Option.filter_eq_some_iff.mp h).2
  · simpa using (Option.filter_eq_some_iff.mp h).2
  · simpa using (Option.filter_eq_some_iff.mp h).2
  · obtain ⟨s, -, hs⟩ := Option.bind_eq_some_iff.mp h
    exact Decimal.within_of_ofText (Except.toOption_eq_some_iff.mp hs)

theorem within_of_asBound? {maxExponent : Nat} {b : NumberBound}
    (h : m.asBound? maxExponent = some b) : b.value.withinExponent maxExponent := by
  unfold asBound? at h
  split at h
  · simp only [Option.bind_eq_bind, Option.bind_eq_some_iff, Option.some.injEq] at h
    obtain ⟨value, hvalue, inclusive, -, rfl⟩ := h
    exact within_of_asNumber? hvalue
  · cases h

/-- An entry of a refinement says one more thing, or nothing. -/
theorem built_of_refine {maxExponent : Nat} {r q : Refinement} {key value : Msgpack}
    (hr : r.Built fun n => n.withinExponent maxExponent)
    (h : refine maxExponent r key value = .ok q) :
    q.Built fun n => n.withinExponent maxExponent := by
  unfold refine at h
  repeat' split at h
  all_goals cases h
  · exact hr.notNull
  · exact hr
  · exact hr.start _
  · exact hr.lower (within_of_asBound? ‹_›) _
  · exact hr.upper (within_of_asBound? ‹_›) _
  · exact hr.lengthLower _
  · exact hr.lengthUpper _
  · exact hr

theorem built_of_refineAll {maxExponent : Nat} {r q : Refinement}
    {entries : List (Msgpack × Msgpack)} (hr : r.Built fun n => n.withinExponent maxExponent)
    (h : refineAll maxExponent r entries = .ok q) :
    q.Built fun n => n.withinExponent maxExponent := by
  induction entries generalizing r with
  | nil =>
    obtain rfl := Except.ok.inj h
    exact hr
  | cons e rest ih =>
    rw [refineAll] at h
    split at h
    · cases h
    · rename_i hq
      exact ih (built_of_refine hr hq) h

/-- Refinements on the wire are made step by step. -/
theorem built_of_readRefinement {maxExponent : Nat} {bytes : List UInt8} {r : Refinement}
    (h : readRefinement maxExponent bytes = .ok r) :
    r.Built fun n => n.withinExponent maxExponent := by
  rw [readRefinement] at h
  split at h
  · cases h
  · exact built_of_refineAll .none h
  · cases h

theorem wellFormed_of_toScalar (h : toScalar limits ty m = .ok w) : w.WellFormed ∧ w.ty = ty := by
  unfold toScalar at h
  repeat' split at h
  all_goals first
    | cases h
      exact ⟨by constructor, rfl⟩
    | simp only [unexpected, failAt, reduceCtorEq] at h

/-! ### Decoding gives well-formed values -/

/-- Each way of decoding gives a well-formed value if what is inside decodes to such. -/
theorem DecodingStep.wellFormed (hstep : DecodingStep limits depth ty m w) (hty : ty.WellFormed)
    (ih : ∀ c ∈ m.children, ∀ t v, t.WellFormed → toValue limits (depth + 1) t c = .ok v →
      v.WellFormed ∧ v.InSlot t) : w.WellFormed ∧ w.InSlot ty := by
  cases hstep with
  | nil => exact ⟨.null hty, .of_ty_eq hty rfl⟩
  | refined hr =>
    exact ⟨.unknownRefined hty (built_of_readRefinement hr).startKept, .of_ty_eq hty rfl⟩
  | unknown _ => exact ⟨.plainUnknown hty, .of_ty_eq hty rfl⟩
  | wrapped hdynamic ht hw =>
    have hwell := (describable_wrappedType ht).wellFormed
    refine ⟨(ih _ (by simp [children]) _ _ hwell hw).1, .of_isDynamic ?_⟩
    rw [hdynamic]
    rfl
  | items hslots hvs =>
    have hchecks := forall₂_itemsToValues (fills_of_slots? hty hslots).1 hvs
    exact ⟨wellFormed_sequence_of_checks hty hslots hchecks ih, .of_ty_eq hty (sequence_ty _ _)⟩
  | @map t _ _ _ htype hkeys hw =>
    subst htype
    cases hty with
    | map ht =>
      -- The members stand under the keys that were accepted.
      have hmembers := @keys_entriesToMembers limits (depth + 1) (fun _ => t) _ _
        (length_keysOf hkeys)
      have hnodup := (Wire.distinctKeys_spec hkeys).2.1
      have hcomposed := Wire.composed_of_distinctKeys hkeys
      rw [← hmembers] at hnodup hcomposed
      obtain ⟨hw, heq⟩ := Wire.wellFormed_mapOf ht hw hnodup
        (fun p hp => hcomposed p.1 (List.mem_map_of_mem hp)) fun p hp v hv => by
        obtain ⟨e, he, heq⟩ := exists_of_mem_entriesToMembers hp
        exact ih e.2 (value_mem_children he) t v ht (heq ▸ hv)
      exact ⟨hw, .of_ty_eq (.map ht) heq⟩
  | object htype _ _ hw =>
    subst htype
    obtain ⟨hw, heq⟩ := Wire.wellFormed_objectOf hty hw fun p hp v hv hwell => by
      obtain ⟨e, he, heq⟩ := exists_of_mem_entriesToMembers hp
      exact ih e.2 (value_mem_children he) _ v hwell (heq ▸ hv)
    exact ⟨hw, .of_ty_eq hty heq⟩
  | scalar hw =>
    obtain ⟨hw, heq⟩ := wellFormed_of_toScalar hw
    exact ⟨hw, .of_ty_eq hty heq⟩

/-- Something on the wire becomes a well-formed value that may stand in its slot. -/
theorem wellFormed_toValue (hty : ty.WellFormed) (h : toValue limits depth ty m = .ok w) :
    w.WellFormed ∧ w.InSlot ty := by
  induction m using Msgpack.induction_children generalizing depth ty w with
  | h m ih =>
    exact (decodingStep_of_toValue h).wellFormed hty fun c hc _ _ ht hv => ih c hc ht hv

end TypedData.Msgpack
